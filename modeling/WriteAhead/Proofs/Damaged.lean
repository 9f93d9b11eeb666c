import WriteAhead.Proofs.Appending
import WriteAhead.Proofs.Bursts

/-!
Pages that were changed after they were written. Main statement: a change to a byte that counts, or to
four bytes in a row that the checksum covers, is noticed at its page and costs no page in front of it,
and a change to reserved bytes is not seen at all (`noticed_of_run`).
-/

namespace WriteAhead

namespace Record

/-- The bytes of a file that the record points at. -/
def slice (r : Record) (file : Bytes) : Bytes := (file.drop r.start).take r.length.toNat

/-- The file with other bytes in place of those that the record points at. -/
def replace (r : Record) (bytes file : Bytes) : Bytes :=
  file.take r.start ++ (bytes ++ file.drop (r.start + r.length.toNat))

end Record

namespace Page

/-- Changes to a page that cannot go unnoticed. -/
inductive Spoils (e : Encoding) : (page page' : Bytes) → Prop
  /-- One byte changes, not a reserved one, nor one of the payload's size if the payload is packed. -/
  | byte {before after : Bytes} {x x' : UInt8} (changed : x' ≠ x) (used : before.length ∉ [9, 10, 11])
      (sized : e = .none ∨ before.length ∉ [12, 13, 14, 15]) :
      Spoils e (before ++ x :: after) (before ++ x' :: after)
  /-- Some of four bytes in a row change, of the body's size and the payload. -/
  | window {before window window' after : Bytes} (covered : 16 ≤ before.length) (length : window.length = 4)
      (length' : window'.length = 4) (changed : window' ≠ window) :
      Spoils e (before ++ (window ++ after)) (before ++ (window' ++ after))

/-- A change to no other bytes than the reserved ones. -/
inductive Retouches : (page page' : Bytes) → Prop
  | intro {before reserved reserved' after : Bytes} (place : before.length = 9) (length : reserved.length = 3)
      (length' : reserved'.length = 3) :
      Retouches (before ++ (reserved ++ after)) (before ++ (reserved' ++ after))

theorem ne_nil_of_spoils {e : Encoding} {page page' : Bytes} (hs : Spoils e page page') : page' ≠ [] := by
  cases hs with
  | byte => simp
  | window covered => exact List.append_ne_nil_of_left_ne_nil (List.ne_nil_of_length_pos (by omega)) _

/-- A page cut into its parts. What its body decodes to is left open. -/
structure IsSplit [Codecs] (e : Encoding) (page : Bytes) (h : Header) (reserved payload : Bytes) : Prop where
  split : page = h.laidOut reserved ++ payload
  encoding : h.encoding = e
  reserved_length : reserved.length = 3
  disk_size : payload.length = h.diskSize.toNat
  crc : checksum e h.bodySize payload = h.crc
  body : ∃ body, e.decompress payload = some body ∧ body.length = h.bodySize.toNat

theorem ofWord_append_inj {w w' : UInt32} {a b : Bytes} (h : ofWord w ++ a = ofWord w' ++ b) : w = w' ∧ a = b := by
  have hw := word_ofWord w a
  rw [h, word_ofWord w' b] at hw
  cases hw
  exact ⟨rfl, rfl⟩

section

variable (h : Header) {reserved : Bytes} (hr : reserved.length = 3) (rest : Bytes)

theorem getElem?_laidOut_magic {i : Nat} (hi : i < 4) : (h.laidOut reserved ++ rest)[i]? = (ofWord magic)[i]? := by
  rw [Header.laidOut_append, List.getElem?_append_left (by rwa [length_ofWord])]

theorem getElem?_laidOut_crc {i : Nat} (hi : i < 4) : (h.laidOut reserved ++ rest)[4 + i]? = (ofWord h.crc)[i]? := by
  rw [Header.laidOut_append, List.getElem?_append_right (by rw [length_ofWord]; omega), length_ofWord,
    Nat.add_sub_cancel_left, List.getElem?_append_left (by rwa [length_ofWord])]

theorem getElem?_laidOut_tag : (h.laidOut reserved ++ rest)[8]? = some h.encoding.tag := by
  simp [Header.laidOut_append, List.getElem?_append, length_ofWord]

include hr

theorem drop_laidOut_sizes :
    (h.laidOut reserved ++ rest).drop 12 = ofWord h.diskSize ++ (ofWord h.bodySize ++ rest) := by
  simp [Header.laidOut_append, List.drop_append, List.drop_of_length_le, length_ofWord, hr]

theorem drop_laidOut_bodySize : (h.laidOut reserved ++ rest).drop 16 = ofWord h.bodySize ++ rest := by
  rw [← List.drop_drop (i := 4) (j := 12), drop_laidOut_sizes h hr]
  exact List.drop_left' (length_ofWord _)

theorem getElem?_laidOut_diskSize {i : Nat} (hi : i < 4) :
    (h.laidOut reserved ++ rest)[12 + i]? = (ofWord h.diskSize)[i]? := by
  rw [← List.getElem?_drop, drop_laidOut_sizes h hr, List.getElem?_append_left (by rwa [length_ofWord])]

end

/-- The bytes of a header up to the body's size, with which those begin that the checksum covers in a row. -/
def front (h : Header) (reserved : Bytes) : Bytes :=
  ofWord magic ++ (ofWord h.crc ++ (h.encoding.tag :: (reserved ++ ofWord h.diskSize)))

theorem laidOut_eq_front (h : Header) (reserved : Bytes) :
    h.laidOut reserved = front h reserved ++ ofWord h.bodySize := by
  simp [Header.laidOut, front]

theorem length_front (h : Header) {reserved : Bytes} (hr : reserved.length = 3) : (front h reserved).length = 16 := by
  simp [front, length_ofWord, hr]

theorem front_inj {h h' : Header} {reserved reserved' : Bytes} (hr : reserved.length = reserved'.length)
    (hf : front h reserved = front h' reserved') : h.crc = h'.crc ∧ h.diskSize = h'.diskSize := by
  obtain ⟨-, hf⟩ := ofWord_append_inj hf
  obtain ⟨hcrc, hf⟩ := ofWord_append_inj hf
  obtain ⟨-, hdisk⟩ := List.append_inj (List.cons.inj hf).2 hr
  rw [← List.append_nil (ofWord h.diskSize), ← List.append_nil (ofWord h'.diskSize)] at hdisk
  exact ⟨hcrc, (ofWord_append_inj hdisk).1⟩

/-- Behind a byte that was changed nothing else is. -/
theorem drop_changed {before after : Bytes} {n : Nat} (hn : before.length < n)
    (hl : n ≤ before.length + 1 + after.length) (x x' : UInt8) (rest : Bytes) :
    (before ++ x' :: (after ++ rest)).drop n = (before ++ x :: after).drop n ++ rest := by
  obtain ⟨m, rfl⟩ := Nat.exists_eq_add_of_lt hn
  rw [Nat.add_assoc, List.drop_length_add_append, List.drop_length_add_append, List.drop_succ_cons, List.drop_succ_cons,
    List.drop_append_of_le_length (by omega)]

section

variable [Codecs] {e : Encoding} {page page' id object : Bytes}

theorem isSplit_of_isPage (hp : IsPage e page id object) : ∃ h reserved payload, IsSplit e page h reserved payload := by
  cases hp with
  | intro he hres hdisk hcrc hd hsize => exact ⟨_, _, _, rfl, he, hres, hdisk, hcrc, _, hd, hsize⟩

theorem length_of_isSplit {h : Header} {reserved payload : Bytes} (hp : IsSplit e page h reserved payload) :
    page.length = 20 + payload.length := by
  rw [hp.split, List.length_append, Header.length_laidOut h hp.reserved_length]
  rfl

variable {h h' : Header} {reserved reserved' payload payload' rest more : Bytes}

/-- The checksum field is determined by what comes behind the reserved bytes. -/
theorem crc_eq_of_drop (hp : IsSplit e page h reserved payload) (hq : IsSplit e page' h' reserved' payload')
    (hd : (page' ++ more).drop 12 = page.drop 12 ++ rest) : h'.crc = h.crc := by
  rw [hp.split, hq.split, List.append_assoc, drop_laidOut_sizes _ hq.reserved_length,
    drop_laidOut_sizes _ hp.reserved_length, List.append_assoc, List.append_assoc] at hd
  obtain ⟨hdisk, hd⟩ := ofWord_append_inj hd
  obtain ⟨hbody, hd⟩ := ofWord_append_inj hd
  obtain ⟨rfl, -⟩ := List.append_inj hd (by rw [hq.disk_size, hp.disk_size, hdisk])
  rw [← hq.crc, ← hp.crc, hbody]

/-- What is not packed is as long as its body. -/
theorem diskSize_eq_bodySize (hp : IsSplit .none page h reserved payload) : h.diskSize = h.bodySize := by
  obtain ⟨body, hd, hsize⟩ := hp.body
  obtain rfl : payload = body := Option.some.inj hd
  rw [← UInt32.toNat_inj, ← hp.disk_size, hsize]

theorem diskSize_eq_of_drop (hp : IsSplit .none page h reserved payload)
    (hq : IsSplit .none page' h' reserved' payload') (hd : (page' ++ more).drop 16 = page.drop 16 ++ rest) :
    h'.diskSize = h.diskSize := by
  rw [hp.split, hq.split, List.append_assoc, drop_laidOut_bodySize _ hq.reserved_length,
    drop_laidOut_bodySize _ hp.reserved_length, List.append_assoc] at hd
  rw [diskSize_eq_bodySize hp, diskSize_eq_bodySize hq, (ofWord_append_inj hd).1]

/-- A byte in front of what the checksum covers in a row is what it was, or no page begins there. -/
theorem not_isSplit_of_byte {before after : Bytes} {x x' : UInt8}
    (hp : IsSplit e (before ++ x :: after) h reserved payload) (hm : page' ++ more = before ++ x' :: (after ++ rest))
    (hx : x' ≠ x) (hu : before.length ∉ [9, 10, 11]) (hs : e = .none ∨ before.length ∉ [12, 13, 14, 15])
    (hlt : before.length < 16) : ¬ IsSplit e page' h' reserved' payload' := by
  intro hq
  have hlength := length_of_isSplit hp
  rw [List.length_append, List.length_cons] at hlength
  have hdrop : ∀ n, before.length < n → n ≤ 20 → (page' ++ more).drop n = (before ++ x :: after).drop n ++ rest := by
    intro n hn hle
    rw [hm, drop_changed hn (by omega) x x' rest]
  have hx : (page' ++ more)[before.length]? ≠ (before ++ x :: after)[before.length]? := by
    rw [hm]
    simpa using hx
  rw [hp.split, hq.split, List.append_assoc] at hx
  apply hx
  obtain hmagic | hfield := Nat.lt_or_ge before.length 4
  · rw [getElem?_laidOut_magic _ _ hmagic, getElem?_laidOut_magic _ _ hmagic]
  obtain hcrc | hfield := Nat.lt_or_ge before.length 8
  · obtain ⟨i, hi⟩ := Nat.exists_eq_add_of_le hfield
    rw [hi, getElem?_laidOut_crc _ _ (by omega), getElem?_laidOut_crc _ _ (by omega),
      crc_eq_of_drop hp hq (hdrop 12 (by omega) (by omega))]
  obtain htag | hfield := Nat.eq_or_lt_of_le hfield
  · rw [← htag, getElem?_laidOut_tag, getElem?_laidOut_tag, hq.encoding, hp.encoding]
  · -- the reserved bytes are left out, and only what is not packed has its size told from the body
    simp only [List.mem_cons, List.not_mem_nil, or_false, not_or] at hu hs
    obtain rfl : e = .none := hs.resolve_right (by omega)
    obtain ⟨i, hi⟩ := Nat.exists_eq_add_of_le (show 12 ≤ before.length by omega)
    rw [hi, getElem?_laidOut_diskSize _ hq.reserved_length _ (by omega),
      getElem?_laidOut_diskSize _ hp.reserved_length _ (by omega),
      diskSize_eq_of_drop hp hq (hdrop 16 hlt (by omega))]

/-- Bytes that the checksum covers in a row are what they were, up to four, or no page begins there. -/
theorem not_isSplit_of_burst {before w w' after : Bytes} (hp : IsSplit e (before ++ (w ++ after)) h reserved payload)
    (hm : page' ++ more = before ++ (w' ++ (after ++ rest))) (hl : w'.length = w.length) (hw : w.length ≤ 4)
    (hne : w' ≠ w) (hb : 16 ≤ before.length) : ¬ IsSplit e page' h' reserved' payload' := by
  intro hq
  obtain ⟨front, back, rfl, hfront⟩ : ∃ front back, before = front ++ back ∧ front.length = 16 :=
    ⟨before.take 16, before.drop 16, (List.take_append_drop 16 before).symm, List.length_take_of_le hb⟩
  have hlength := length_of_isSplit hp
  simp only [List.length_append] at hlength
  have hold := hp.split
  rw [List.append_assoc, laidOut_eq_front, List.append_assoc] at hold
  obtain ⟨hfrontOld, hold⟩ := List.append_inj hold (by rw [hfront, length_front _ hp.reserved_length])
  rw [hq.split, List.append_assoc, List.append_assoc, laidOut_eq_front, List.append_assoc] at hm
  obtain ⟨hfrontNew, hnew⟩ := List.append_inj hm (by rw [hfront, length_front _ hq.reserved_length])
  obtain ⟨hcrc, hdisk⟩ := front_inj (hp.reserved_length.trans hq.reserved_length.symm)
    (hfrontOld.symm.trans hfrontNew.symm)
  -- as many bytes follow as did, so the checksum is taken over the same places
  rw [← List.append_assoc, ← List.append_assoc w', ← List.append_assoc back] at hnew
  obtain ⟨hnew, -⟩ := List.append_inj hnew (by
    rw [List.length_append, length_ofWord, hq.disk_size, ← hdisk, ← hp.disk_size]
    simp only [List.length_append]
    omega)
  have hburst := crc32_ne_of_burst (e.tag :: ofWord (UInt32.ofNat payload.length) ++ back) after hl.symm hw hne.symm
  apply hburst
  rw [List.append_assoc, List.append_assoc, hold, ← hnew, ← List.append_assoc, ← List.append_assoc]
  refine hp.crc.trans (hcrc.trans (hq.crc.symm.trans ?_))
  rw [checksum, hq.disk_size, ← hdisk, ← hp.disk_size]

/-- Whatever follows, there is no page any more. -/
theorem noPage_of_spoils (hp : IsPage e page id object) (hs : Spoils e page page') (rest : Bytes) :
    NoPage e (page' ++ rest) := by
  rintro p id' object' ⟨more, hmore⟩ hq
  obtain ⟨h, reserved, payload, hp⟩ := isSplit_of_isPage hp
  obtain ⟨h', reserved', payload', hq⟩ := isSplit_of_isPage hq
  cases hs with
  | @byte before after x x' changed used sized =>
    obtain hlt | hge := Nat.lt_or_ge before.length 16
    · exact not_isSplit_of_byte hp (by simpa using hmore) changed used sized hlt hq
    · have hp : IsSplit e (before ++ ([x] ++ after)) h reserved payload := hp
      have hmore : p ++ more = before ++ ([x'] ++ (after ++ rest)) := by simpa using hmore
      exact not_isSplit_of_burst hp hmore rfl (by simp) (by simpa using changed) hge hq
  | window covered length length' changed =>
    have hlength := length'.trans length.symm
    exact not_isSplit_of_burst hp (by simpa using hmore) hlength (Nat.le_of_eq length) changed covered hq

theorem exists_error_of_noPage {input : Bytes} (hn : NoPage e input) (offset : Nat) (fileLength : Option Nat) :
    ∃ fault, next e offset fileLength input = .error fault := by
  cases hnext : next e offset fileLength input with
  | error fault => exact ⟨fault, rfl⟩
  | ok found =>
    obtain ⟨p, rfl, hp, -⟩ := isPage_of_next hnext
    exact absurd hp (hn p _ _ (List.prefix_append _ _))

/-- Reserved bytes are not read. -/
theorem isPage_of_retouches (hp : IsPage e page id object) (hr : Retouches page page') :
    IsPage e page' id object ∧ page'.length = page.length := by
  cases hr with
  | @intro before reserved reserved' after place length length' =>
    refine ⟨?_, by simp [length, length']⟩
    generalize hpage : before ++ (reserved ++ after) = page at hp
    cases hp with
    | @intro h old payload body _ _ encoding reserved_length disk_size crc unpacks body_size decodes =>
      rw [Header.laidOut_append, ← List.singleton_append, ← List.append_assoc (ofWord h.crc),
        ← List.append_assoc (ofWord magic)] at hpage
      obtain ⟨rfl, hrest⟩ := List.append_inj hpage (by simp [place, length_ofWord])
      obtain ⟨rfl, rfl⟩ := List.append_inj hrest (length.trans reserved_length.symm)
      have hnew : IsPage e (h.laidOut reserved' ++ payload) id object :=
        .intro encoding length' disk_size crc unpacks body_size decodes
      rw [Header.laidOut_append] at hnew
      simpa using hnew

/-- What is read at a place depends on the page that begins there, but not on its bytes. -/
theorem readAt_of_isPage (hp : IsPage e page id object) (before rest : Bytes) {r : Record}
    (hs : r.start = before.length) :
    readAt e (.ofBytes (before ++ (page ++ rest))) r =
      if maxSeek < r.start then .error .io
      else if page.length ≠ r.length.toNat then
        .error (.corruption (.wrongPageLength r.start page.length r.length.toNat))
      else if id ≠ r.id then .error (.corruption (.wrongId r.start))
      else .ok (id, object) := by
  obtain ⟨h, hlength, hnext⟩ := next_of_isPage hp r.start none (by simp) rest
  have hbytes : (Source.ofBytes (before ++ (page ++ rest))).bytes.drop r.start = page ++ rest := by
    rw [hs]
    exact List.drop_left
  rw [readAt, hbytes, hnext, ← hlength]

theorem exists_error_readAt {bytes : Bytes} {r : Record} (hn : NoPage e (bytes.drop r.start)) :
    ∃ fault, readAt e (.ofBytes bytes) r = .error fault := by
  obtain ⟨fault, hnext⟩ := exists_error_of_noPage hn r.start none
  unfold readAt
  split
  · exact ⟨_, rfl⟩
  · have hnext : next e r.start none ((Source.ofBytes bytes).bytes.drop r.start) = .error fault := hnext
    exact ⟨fault, by rw [hnext]⟩

/-- What is read at a place does not depend on what is in front of it. -/
theorem readAt_congr {bytes bytes' : Bytes} {r : Record} (h : bytes'.drop r.start = bytes.drop r.start) :
    readAt e (.ofBytes bytes') r = readAt e (.ofBytes bytes) r := by
  have hdrop : (Source.ofBytes bytes').bytes.drop r.start = (Source.ofBytes bytes).bytes.drop r.start := h
  rw [readAt, hdrop, readAt]

/-- A page of the same length with the same object. -/
structure Entry.Alike (e : Encoding) (x y : Entry) : Prop where
  old : x.IsValid e
  new : y.IsValid e
  id : y.id = x.id
  object : y.object = x.object
  length : y.page.length = x.page.length

section

variable {xs ys : List Entry}

theorem exists_alike {pages : List Bytes} (hx : ∀ x ∈ xs, x.IsValid e)
    (h : List.Forall₂ Retouches (xs.map (·.page)) pages) :
    ∃ ys : List Entry, ys.map (·.page) = pages ∧ List.Forall₂ (Entry.Alike e) xs ys := by
  induction xs generalizing pages with
  | nil =>
    cases h
    exact ⟨[], rfl, .nil⟩
  | cons x xs ih =>
    cases h with
    | @cons _ page' _ pages hpage hpages =>
      obtain ⟨ys, rfl, hys⟩ := ih (fun y hy => hx y (List.mem_cons_of_mem _ hy)) hpages
      obtain ⟨hvalid, hlength⟩ := isPage_of_retouches (hx x List.mem_cons_self) hpage
      exact ⟨⟨x.id, x.object, page'⟩ :: ys, rfl, .cons ⟨hx x List.mem_cons_self, hvalid, rfl, rfl, hlength⟩ hys⟩

theorem layout_of_alike (h : List.Forall₂ (Entry.Alike e) xs ys) (start : Nat) : layout start ys = layout start xs := by
  induction h generalizing start with
  | nil => rfl
  | cons hxy _ ih => rw [layout, layout, Entry.record, Entry.record, hxy.id, hxy.length, ih]

theorem length_joined_of_alike (h : List.Forall₂ (Entry.Alike e) xs ys) : (joined ys).length = (joined xs).length := by
  induction h with
  | nil => rfl
  | cons hxy _ ih => rw [joined_cons, joined_cons, List.length_append, List.length_append, hxy.length, ih]

theorem valid_of_alike (h : List.Forall₂ (Entry.Alike e) xs ys) : ∀ y ∈ ys, y.IsValid e := by
  induction h with
  | nil => simp
  | cons hxy _ ih => exact List.forall_mem_cons.2 ⟨hxy.new, ih⟩

/-- Where a page begins, and behind the pages, the same is read. -/
theorem readAt_of_alike (h : List.Forall₂ (Entry.Alike e) xs ys) (before before' : Bytes)
    (hb : before'.length = before.length) (rest : Bytes) {r : Record}
    (hr : r.start ∈ (layout before.length xs).map (·.start) ∨ before.length + (joined xs).length ≤ r.start) :
    readAt e (.ofBytes (before' ++ (joined ys ++ rest))) r = readAt e (.ofBytes (before ++ (joined xs ++ rest))) r := by
  induction h generalizing before before' with
  | nil =>
    obtain hr | hr := hr
    · cases hr
    · have hle : before.length ≤ r.start := hr
      apply readAt_congr
      rw [joined_nil, List.nil_append, List.drop_append, List.drop_append, hb, List.drop_of_length_le hle,
        List.drop_of_length_le (hb ▸ hle)]
  | @cons x y xs ys hxy _ ih =>
    rw [joined_cons, joined_cons, List.append_assoc, List.append_assoc]
    by_cases hs : r.start = before.length
    · rw [readAt_of_isPage hxy.new before' _ (hs.trans hb.symm), readAt_of_isPage hxy.old before _ hs, hxy.length,
        hxy.id, hxy.object]
    · have hlength : (before' ++ y.page).length = (before ++ x.page).length := by
        rw [List.length_append, List.length_append, hb, hxy.length]
      rw [← List.append_assoc before', ← List.append_assoc before]
      apply ih (before ++ x.page) (before' ++ y.page) hlength
      rw [List.length_append]
      rw [layout, List.map_cons, List.mem_cons, joined_cons, List.length_append, ← Nat.add_assoc] at hr
      exact hr.imp_left fun hr => hr.resolve_left hs

theorem replay_of_alike (h : List.Forall₂ (Entry.Alike e) xs ys) (hx : ∀ x ∈ xs, x.IsValid e) (rest : Bytes)
    (buffer : Nat) :
    replay e buffer (.ofBytes (joined ys ++ rest)) = replay e buffer (.ofBytes (joined xs ++ rest)) := by
  have hlength : (Source.ofBytes (joined ys ++ rest)).length = (Source.ofBytes (joined xs ++ rest)).length := by
    change (joined ys ++ rest).length = (joined xs ++ rest).length
    rw [List.length_append, List.length_append, length_joined_of_alike h]
  obtain rfl | hb := Nat.eq_zero_or_pos buffer
  · simp [replay, replayFrom, Source.ofBytes]
  · rw [replay_eq_replayFrom hb (valid_of_alike h), replay_eq_replayFrom hb hx, layout_of_alike h,
      length_joined_of_alike h]
    exact replayFrom_congr Iff.rfl hlength rfl _ _ _

end

end

theorem slice_record {x : Entry} (hx : x.page.length < UInt32.size) (before rest : Bytes) :
    (x.record before.length).slice (before ++ (x.page ++ rest)) = x.page := by
  rw [Record.slice, Entry.record, List.drop_left, UInt32.toNat_ofNat_of_lt' hx, List.take_left]

theorem replace_record {x : Entry} (hx : x.page.length < UInt32.size) (before rest bytes : Bytes) :
    (x.record before.length).replace bytes (before ++ (x.page ++ rest)) = before ++ (bytes ++ rest) := by
  have hdrop : (before ++ (x.page ++ rest)).drop (before.length + x.page.length) = rest := by
    rw [← List.append_assoc, ← List.length_append, List.drop_left]
  rw [Record.replace, Entry.record, List.take_left, UInt32.toNat_ofNat_of_lt' hx, hdrop]

theorem map_slice_layout {xs : List Entry} (hx : ∀ x ∈ xs, x.page.length < UInt32.size) (before rest : Bytes) :
    (layout before.length xs).map (·.slice (before ++ (joined xs ++ rest))) = xs.map (·.page) := by
  induction xs generalizing before with
  | nil => rfl
  | cons x xs ih =>
    have hrest := ih (fun y hy => hx y (List.mem_cons_of_mem _ hy)) (before ++ x.page)
    rw [List.length_append, List.append_assoc, ← List.append_assoc x.page, ← joined_cons] at hrest
    rw [layout, List.map_cons, List.map_cons, hrest, joined_cons, List.append_assoc,
      slice_record (hx x List.mem_cons_self)]

/-- A change to the page of `record` is noticed there and costs none of the records `before`. -/
structure Noticed [Codecs] (e : Encoding) (buffer : Nat) (file : Bytes) (record : Record) (before : Index) : Prop where
  readAt : ∃ fault, readAt e (.ofBytes file) record = .error fault
  replay : ∃ fault, replay e buffer (.ofBytes file) = .ok ⟨before, record.start, some fault⟩

/-- Nothing tells `file'` from `file`, whose pages are those of `records` and end at `stop`. -/
structure Unnoticed [Codecs] (e : Encoding) (file file' : Bytes) (records : Index) (stop : Nat) : Prop where
  readAt : ∀ r : Record, r.start ∈ records.map (·.start) ∨ stop ≤ r.start →
    readAt e (.ofBytes file') r = readAt e (.ofBytes file) r
  replay : ∀ buffer, replay e buffer (.ofBytes file') = replay e buffer (.ofBytes file)

theorem noticed_of_spoils [Codecs] {e : Encoding} {buffer : Nat} (hb : 0 < buffer) {xs : List Entry}
    (hxs : ∀ x ∈ xs, x.IsValid e) {x : Entry} (hx : x.IsValid e) {page' : Bytes} (hs : Spoils e x.page page')
    (rest : Bytes) : Noticed e buffer (joined xs ++ (page' ++ rest)) (x.record (joined xs).length) (layout 0 xs) := by
  have hn := noPage_of_spoils hx hs rest
  obtain ⟨warning, hw, hreplay⟩ := replay_joined hb hxs hn
  refine ⟨exists_error_readAt ?_, ?_⟩
  · rw [Entry.record, List.drop_left]
    exact hn
  · cases warning with
    | some fault => exact ⟨fault, hreplay⟩
    | none => exact absurd (hw.1 rfl) (List.append_ne_nil_of_left_ne_nil (ne_nil_of_spoils hs) rest)

end Page

namespace Run

open Page

/-- Whatever was appended: changes within the page of one record are noticed there, and changes to no more
than the reserved bytes of the pages are not noticed. -/
theorem noticed_of_run [Codecs] {σ : Type} [ContentSink σ] (e : Encoding) (mode : SyncMode) {buffer : Nat}
    (hb : 0 < buffer) {s : σ} (hs : ContentSink.content s = []) (ops : List (Bytes × Bytes)) :
    let r := of e mode (⟨s, []⟩ : Synced σ) ops
    let file := ContentSink.content r.sink
    let records := r.acked.map (·.1)
    (∀ k record page', records[k]? = some record → Spoils e (record.slice file) page' →
      Noticed e buffer (record.replace page' file) record (records.take k)) ∧
    ∀ pages, List.Forall₂ Retouches (records.map (·.slice file)) pages →
      Unnoticed e file (pages.flatten ++ file.drop r.writer.size) records r.writer.size := by
  intro r file records
  obtain ⟨xs, part, h⟩ : ∃ xs part, Holds e mode r xs part := holds_of e mode hs ops
  have hfile : file = joined xs ++ part := h.content
  have hrecords : records = layout 0 xs := h.records
  rw [hfile, hrecords, h.size, List.drop_left]
  constructor
  · intro k record page' hk hspoils
    rw [getElem?_layout, Nat.zero_add, Option.map_eq_some_iff] at hk
    obtain ⟨x, hx, rfl⟩ := hk
    obtain ⟨hlt, rfl⟩ := List.getElem?_eq_some_iff.1 hx
    obtain ⟨hvalid, hshort⟩ := h.valid _ (List.getElem_mem hlt)
    have hsplit : joined xs ++ part = joined (xs.take k) ++ (xs[k].page ++ (joined (xs.drop (k + 1)) ++ part)) := by
      rw [← List.append_assoc xs[k].page, ← joined_cons, ← List.drop_eq_getElem_cons hlt, ← List.append_assoc,
        ← joined_append, List.take_append_drop]
    rw [hsplit, slice_record hshort] at hspoils
    rw [hsplit, replace_record hshort, take_layout]
    exact noticed_of_spoils hb (fun y hy => (h.valid y (List.mem_of_mem_take hy)).1) hvalid hspoils _
  · intro pages hpages
    have hslices := map_slice_layout (fun x hx => (h.valid x hx).2) [] part
    rw [List.nil_append] at hslices
    rw [show layout 0 xs = layout (List.length ([] : Bytes)) xs from rfl, hslices] at hpages
    obtain ⟨ys, rfl, hys⟩ := exists_alike (fun x hx => (h.valid x hx).1) hpages
    rw [← joined_eq_flatten]
    exact ⟨fun record hr => readAt_of_alike hys [] [] rfl part (by simpa using hr),
      replay_of_alike hys (fun x hx => (h.valid x hx).1) part⟩

/-- One object is appended to an empty sink, and no call fails. -/
def sample : Run (Synced ScriptedSink) := of .none .async ⟨{ content := [] }, []⟩ [([7], [8])]

theorem content_sample : ContentSink.content sample.sink = samplePage := by decide +kernel

theorem acked_sample : sample.acked.map (·.1) = [⟨[7], 0, 26⟩] := by decide +kernel

theorem size_sample : sample.writer.size = 26 := by decide +kernel

theorem noticed_of_changed_object :
    Noticed .none 1 (Record.replace ⟨[7], 0, 26⟩ (samplePage.dropLast ++ [9]) samplePage) ⟨[7], 0, 26⟩ [] ∧
      Unnoticed .none samplePage (samplePage.take 9 ++ ([1, 2, 3] ++ samplePage.drop 12)) [⟨[7], 0, 26⟩] 26 := by
  have hempty : ContentSink.content ({ content := [] } : ScriptedSink) = [] := rfl
  have h := noticed_of_run .none .async Nat.one_pos hempty [([7], [8])]
  dsimp only at h
  rw [← sample, content_sample, acked_sample, size_sample] at h
  have hspoils : Spoils .none samplePage (samplePage.dropLast ++ [9]) :=
    @Spoils.byte .none (samplePage.take 25) [] 8 9 (by decide) (by decide) (.inl rfl)
  have hretouches : Retouches samplePage (samplePage.take 9 ++ ([1, 2, 3] ++ samplePage.drop 12)) :=
    @Retouches.intro (samplePage.take 9) [0, 0, 0] [1, 2, 3] (samplePage.drop 12) rfl rfl rfl
  exact ⟨h.1 0 _ _ rfl hspoils, h.2 [_] (.cons hretouches .nil)⟩

end Run

end WriteAhead
