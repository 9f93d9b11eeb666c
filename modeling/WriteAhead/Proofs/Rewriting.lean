import Mathlib.Data.List.Basic
import WriteAhead.Proofs.LiveBlock

/-!
Writing again what was read from a file whose pages are not packed. Main statement: the readable pages come out as they
were, but for the reserved bytes, which come out zero (`rewrites_of_replay`).
-/

namespace WriteAhead

open Page

namespace Index

/-- Whether the byte at `i` is a reserved one of a page. -/
def isReserved (index : Index) (i : Nat) : Bool :=
  index.any fun r => decide (r.start + 9 ≤ i ∧ i < r.start + 12)

/-- A file with zeros for the reserved bytes of its pages. -/
def blank (index : Index) (file : Bytes) : Bytes :=
  file.mapIdx fun i b => if index.isReserved i then 0 else b

end Index

namespace Page

/-- A page with zeros for its reserved bytes. -/
def blank (page : Bytes) : Bytes := page.mapIdx fun i b => if 9 ≤ i ∧ i < 12 then 0 else b

theorem length_blank (page : Bytes) : (blank page).length = page.length := List.length_mapIdx

theorem mapIdx_eq_self {bytes : Bytes} {f : Nat → UInt8 → UInt8} (h : ∀ i < bytes.length, ∀ b, f i b = b) :
    bytes.mapIdx f = bytes := by
  apply List.ext_getElem List.length_mapIdx
  intro i hi hi'
  rw [List.getElem_mapIdx, h i hi']

theorem blank_append {front reserved behind : Bytes} (hf : front.length = 9) (hr : reserved.length = 3) :
    blank (front ++ (reserved ++ behind)) = front ++ ([0, 0, 0] ++ behind) := by
  obtain ⟨a, b, c, rfl⟩ := List.length_eq_three.1 hr
  rw [blank, List.mapIdx_append, List.mapIdx_append, hf]
  congr 1
  · exact mapIdx_eq_self fun i hi x => if_neg (by omega)
  · congr 1
    exact mapIdx_eq_self fun i hi x => if_neg (by simp)

theorem blank_laidOut (h : Header) {reserved : Bytes} (hr : reserved.length = 3) (payload : Bytes) :
    blank (h.laidOut reserved ++ payload) = h.toBytes ++ payload := by
  have hfront : (ofWord magic ++ ofWord h.crc ++ [h.encoding.tag]).length = 9 := by simp [length_ofWord]
  have hsplit : ∀ middle, h.laidOut middle ++ payload = (ofWord magic ++ ofWord h.crc ++ [h.encoding.tag]) ++
      (middle ++ (ofWord h.diskSize ++ (ofWord h.bodySize ++ payload))) := by
    intro middle
    simp [Header.laidOut]
  rw [Header.toBytes, hsplit, hsplit, blank_append hfront hr]

theorem isReserved_layout_of_lt {start i : Nat} (h : i < start) (xs : List Entry) :
    (layout start xs).isReserved i = false := by
  induction xs generalizing start with
  | nil => rfl
  | cons x xs ih =>
    have hx : ¬ (start + 9 ≤ i ∧ i < start + 12) := by omega
    have hrest := ih (Nat.lt_of_lt_of_le h (Nat.le_add_right start x.page.length))
    rw [layout, Index.isReserved, List.any_cons]
    exact Bool.or_eq_false_iff.2 ⟨decide_eq_false hx, hrest⟩

theorem checkedLength_toNat (w : UInt32) (what : String) : checkedLength w.toNat what = .ok w := by
  rw [checkedLength, if_pos w.toNat_lt, UInt32.ofNat_toNat]

section

variable [Codecs]

/-- What an object is written as is the page that it was read from, up to the reserved bytes. -/
theorem build_of_isPage {page id object : Bytes} (hp : IsPage .none page id object)
    (hl : page.length < UInt32.size) :
    ∃ h payload, build .none id object = .ok (h, payload) ∧ h.toBytes ++ payload = blank page := by
  cases hp with
  | @intro h reserved payload body _ _ encoding reserved_length disk_size crc unpacks body_size decodes =>
    obtain rfl : payload = body := Option.some.inj unpacks
    obtain ⟨sum, e, diskSize, bodySize⟩ := h
    dsimp only at encoding disk_size crc body_size
    subst encoding crc
    refine ⟨_, _, ?_, (blank_laidOut _ reserved_length payload).symm⟩
    have hpage : Header.pageLength ⟨checksum .none bodySize payload, .none, diskSize, bodySize⟩ < UInt32.size := by
      rw [List.length_append, Header.length_laidOut _ reserved_length, disk_size] at hl
      exact hl
    have hchecked : checkedLength
        (Header.pageLength ⟨checksum .none bodySize payload, .none, diskSize, bodySize⟩) "Page" = .ok _ :=
      if_pos hpage
    have hbody := checkedLength_toNat bodySize "Object"
    have hdisk := checkedLength_toNat diskSize "Compressed object"
    rw [← body_size] at hbody
    rw [← disk_size] at hdisk
    have hcompress : Encoding.compress .none payload = some payload := rfl
    simp only [build, Body.encode_of_decode decodes, hbody, hcompress, hdisk, hchecked, bind, Except.bind, pure,
      Except.pure]

/-- The reserved bytes of a file are those of its pages. -/
theorem blank_layout {e : Encoding} {xs : List Entry} (hx : ∀ x ∈ xs, x.IsValid e) (start : Nat) :
    (joined xs).mapIdx (fun i b => if (layout start xs).isReserved (start + i) then 0 else b) =
      xs.flatMap fun x => blank x.page := by
  induction xs generalizing start with
  | nil => rfl
  | cons x xs ih =>
    have hlength : 12 ≤ x.page.length := Nat.le_trans (by decide) (headerSize_le_length (hx x List.mem_cons_self))
    have hreserved : ∀ i, (layout start (x :: xs)).isReserved i =
        (decide (start + 9 ≤ i ∧ i < start + 12) || (layout (start + x.page.length) xs).isReserved i) := fun _ => rfl
    rw [joined_cons, List.mapIdx_append, List.flatMap_cons,
      ← ih (fun y hy => hx y (List.mem_cons_of_mem _ hy)) (start + x.page.length)]
    congr 1
    · refine List.mapIdx_eq_mapIdx_iff.2 fun i hi => ?_
      rw [hreserved, isReserved_layout_of_lt (by omega), Bool.or_false]
      simp only [decide_eq_true_eq]
      congr 1
      exact propext (by omega)
    · refine List.mapIdx_eq_mapIdx_iff.2 fun i _ => ?_
      have hbeyond : ¬ (start + 9 ≤ start + (i + x.page.length) ∧ start + (i + x.page.length) < start + 12) := by
        omega
      rw [hreserved, decide_eq_false hbeyond, Bool.false_or, Nat.add_comm i, Nat.add_assoc]

theorem mapM_readAt {e : Encoding} {xs : List Entry} (hx : ∀ x ∈ xs, x.IsValid e ∧ x.page.length < UInt32.size)
    (hs : (joined xs).length ≤ maxSeek) (rest : Bytes) :
    (layout 0 xs).mapM (readAt e (.ofBytes (joined xs ++ rest))) = .ok (xs.map fun x => (x.id, x.object)) := by
  have h := mapM_readAt_filter (fun _ => true) id hx [] rest hs
  rw [List.filter_true, List.filter_true] at h
  simp only [Except.map_id, id_eq] at h
  exact h

end

end Page

/-- If no call fails, the page that is built for an object is added as a whole. -/
theorem Writer.append_of_build [Codecs] {σ : Type} [ContentSink σ] {good : σ → Prop} (ho : Sink.Obliges good)
    {w : Writer} (hw : w.poisoned = false) {s : σ} (hs : good s) {id object payload : Bytes} {h : Header}
    (hb : build w.encoding id object = .ok (h, payload)) :
    ∃ s', good s' ∧ ContentSink.content s' = ContentSink.content s ++ (h.toBytes ++ payload) ∧
      w.append id object s =
        (.ok ⟨id, w.size, UInt32.ofNat h.pageLength⟩, { w with size := w.size + h.pageLength }, s') := by
  obtain ⟨hcommitted, hgood⟩ := commit_of_obliges ho hs w.sync (h.toBytes ++ payload)
  obtain ⟨part, -, hcontent, hall⟩ := content_commit w.sync (h.toBytes ++ payload) s
  unfold append
  rw [if_neg (Bool.eq_false_iff.1 hw), hb]
  dsimp only
  generalize commit w.sync (h.toBytes ++ payload) s = result at hcommitted hgood hcontent hall ⊢
  obtain ⟨committed, s'⟩ := result
  cases hcommitted
  obtain rfl := hall rfl
  exact ⟨s', hgood, hcontent, rfl⟩

namespace Run

/-- The objects of the pages `xs` were appended, each with success. -/
structure Rewrites {σ : Type} [ContentSink σ] (good : σ → Prop) (r : Run σ) (xs : List Entry) : Prop where
  encoding : r.writer.encoding = .none
  usable : r.writer.poisoned = false
  good : good r.sink
  records : r.acked.map (·.1) = layout 0 xs
  objects : r.acked.map (·.2) = xs.map fun x => (x.id, x.object)
  size : r.writer.size = (joined xs).length
  content : ContentSink.content r.sink = xs.flatMap fun x => blank x.page

section

variable [Codecs] {σ : Type} [ContentSink σ] {good : σ → Prop} {r : Run σ} {xs : List Entry}

theorem rewrites_append (ho : Sink.Obliges good) (h : Rewrites good r xs) {x : Entry} (hx : x.IsValid .none)
    (hl : x.page.length < UInt32.size) : Rewrites good (r.append (x.id, x.object)) (xs ++ [x]) := by
  obtain ⟨header, payload, hbuild, hpage⟩ := build_of_isPage hx hl
  have hlength : header.pageLength = x.page.length := by
    rw [← (length_of_build hbuild).1, hpage, length_blank]
  obtain ⟨s, hgood, hcontent, happend⟩ := Writer.append_of_build ho h.usable h.good (h.encoding ▸ hbuild)
  unfold append
  rw [happend, hlength, h.size]
  refine ⟨h.encoding, h.usable, hgood, ?_, ?_, ?_, ?_⟩
  · rw [List.map_append, h.records, layout_append, Nat.zero_add]
    rfl
  · rw [List.map_append, h.objects, List.map_append]
    rfl
  · rw [joined_append, List.length_append, joined_cons, joined_nil, List.append_nil]
  · rw [hcontent, hpage, h.content, List.flatMap_append, List.flatMap_cons, List.flatMap_nil, List.append_nil]

theorem rewrites_foldl (ho : Sink.Obliges good) (h : Rewrites good r xs) {ys : List Entry}
    (hy : ∀ y ∈ ys, y.IsValid .none ∧ y.page.length < UInt32.size) :
    Rewrites good ((ys.map fun y => (y.id, y.object)).foldl append r) (xs ++ ys) := by
  induction ys generalizing r xs with
  | nil =>
    rw [List.append_nil]
    exact h
  | cons y ys ih =>
    obtain ⟨hvalid, hlen⟩ := hy y List.mem_cons_self
    have hrest := ih (rewrites_append ho h hvalid hlen) fun z hz => hy z (List.mem_cons_of_mem _ hz)
    rw [List.append_assoc] at hrest
    exact hrest

theorem rewrites_of (ho : Sink.Obliges good) {s : σ} (hs : good s) (hc : ContentSink.content s = [])
    (hx : ∀ x ∈ xs, x.IsValid .none ∧ x.page.length < UInt32.size) (mode : SyncMode) :
    Rewrites good (of .none mode s (xs.map fun x => (x.id, x.object))) xs :=
  have hstart : Rewrites good { writer := { encoding := .none, sync := mode, size := 0 }, sink := s } [] :=
    ⟨rfl, rfl, hs, rfl, rfl, rfl, hc⟩
  rewrites_foldl ho hstart hx

/-- Appending what was read from a file gives the readable part of it again, and the records that led to it. -/
theorem rewrites_of_replay {buffer : Nat} (hb : 0 < buffer) {file : Bytes} (hl : file.length < UInt32.size)
    (mode : SyncMode) (ho : Sink.Obliges good) {s : σ} (hs : good s) (hc : ContentSink.content s = []) :
    ∃ found objects, replay .none buffer (.ofBytes file) = .ok found ∧
      found.records.mapM (readAt .none (.ofBytes file)) = .ok objects ∧
      let r := of .none mode s objects
      r.acked.map (·.1) = found.records ∧ r.acked.map (·.2) = objects ∧
        ContentSink.content r.sink = found.records.blank (file.take found.validEnd) := by
  obtain ⟨pages, tail, hp⟩ := exists_isParse .none file
  obtain ⟨xs, rfl, hx⟩ := exists_entries hp.valid
  obtain ⟨warning, -, hreplay⟩ := replay_joined hb hx hp.noPage
  have hfile : file = joined xs ++ tail := by
    rw [joined_eq_flatten]
    exact hp.joined
  have hle : (joined xs).length ≤ file.length := by
    rw [hfile, List.length_append]
    exact Nat.le_add_right _ _
  have hshort : ∀ x ∈ xs, x.IsValid .none ∧ x.page.length < UInt32.size := fun x hmem =>
    ⟨hx x hmem, Nat.lt_of_le_of_lt (Nat.le_trans (length_page_le hmem) hle) hl⟩
  have hseek : (joined xs).length ≤ maxSeek := Nat.le_trans hle (Nat.le_trans (Nat.le_of_lt hl) (by decide))
  have h := rewrites_of ho hs hc hshort mode
  rw [← hfile] at hreplay
  refine ⟨_, _, hreplay, hfile ▸ mapM_readAt hshort hseek tail, h.records, h.objects, ?_⟩
  have hblank := blank_layout hx 0
  simp only [Nat.zero_add] at hblank
  dsimp only
  rw [h.content, ← hblank, hfile, List.take_left]
  rfl

end

/-- A page that holds `[8]` under `[7]`, with something in its reserved bytes. -/
def reservedPage : Bytes :=
  [84, 87, 65, 76, 70, 245, 201, 168, 0, 1, 2, 3, 6, 0, 0, 0, 6, 0, 0, 0, 1, 0, 0, 0, 7, 8]

/-- What the reserved bytes were is lost, and so is what is behind the last page. -/
theorem rewrites_of_reserved :
    ∃ found objects, replay .none 1 (.ofBytes (reservedPage ++ [84, 87])) = .ok found ∧ objects = [([7], [8])] ∧
      (of .none .strict ({ content := [] } : ScriptedSink) objects).sink.content = samplePage := by
  have hpage : IsPage .none reservedPage [7] [8] :=
    @IsPage.intro _ .none ⟨2831807814, .none, 6, 6⟩ [1, 2, 3] _ _ _ _ rfl rfl rfl checksum_sample rfl rfl rfl
  have htail : NoPage .none [84, 87] := fun p id object hp hv =>
    absurd (Nat.le_trans (headerSize_le_length hv) hp.length_le) (by decide)
  have hvalid : ∀ x ∈ [(⟨[7], [8], reservedPage⟩ : Entry)], x.IsValid .none ∧ x.page.length < UInt32.size :=
    List.forall_mem_singleton.2 ⟨hpage, by decide⟩
  have hfile : reservedPage ++ [84, 87] = joined [⟨[7], [8], reservedPage⟩] ++ [84, 87] := rfl
  obtain ⟨warning, -, hreplay⟩ := replay_joined Nat.one_pos (fun x hx => (hvalid x hx).1) htail
  have hobjects := mapM_readAt hvalid (by decide) [84, 87]
  obtain ⟨found, objects, hfound, hread, -, -, hcontent⟩ :=
    @rewrites_of_replay _ _ _ _ 1 Nat.one_pos (reservedPage ++ [84, 87]) (by decide) .strict
      ScriptedSink.obliges_isCalm { content := [] } ⟨rfl, rfl, rfl, rfl⟩ rfl
  rw [hfile] at hfound hread
  obtain rfl := Except.ok.inj (hfound.symm.trans hreplay)
  have hpair : objects = [([7], [8])] := Except.ok.inj (hread.symm.trans hobjects)
  have hblank : Index.blank [⟨[7], 0, 26⟩] ((reservedPage ++ [84, 87]).take 26) = samplePage := by decide
  exact ⟨_, _, hfile ▸ hfound, hpair, hcontent.trans hblank⟩

end Run

end WriteAhead
