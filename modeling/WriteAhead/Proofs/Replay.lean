import Mathlib.Logic.ExistsUnique
import WriteAhead.Proofs.Layout

/-!
Replaying a file. Main statement: a replay is the longest parse of the file into valid pages
(`replay_eq_longest_parse`).
-/

namespace WriteAhead.Page

section

variable [Codecs] {e : Encoding}

theorem replayFrom_eq_ok (buffer : Nat) (source : Source) (hf : source.fails = false) (input : Bytes) (offset : Nat)
    (records : Index) : ∃ r, replayFrom e buffer source input offset records = .ok r := by
  fun_induction replayFrom e buffer source input offset records with
  | case1 input offset records h => simp [hf] at h
  | case2 input offset records => exact ⟨_, rfl⟩
  | case3 input offset records => exact ⟨_, rfl⟩
  | case4 input offset records _ _ page rest _ _ _ ih => exact ih

theorem replayFrom_eq_error {buffer : Nat} {source : Source} {input : Bytes} {offset : Nat} {records : Index}
    {fault : Error} (h : replayFrom e buffer source input offset records = .error fault) : fault = .io := by
  fun_induction replayFrom e buffer source input offset records with
  | case1 =>
    cases h
    rfl
  | case2 => cases h
  | case3 => cases h
  | case4 _ _ _ _ _ _ _ _ _ _ ih => exact ih h

theorem noPage_of_next_error {offset : Nat} {fileLength : Option Nat} {input : Bytes} {fault : Error}
    (h : next e offset fileLength input = .error fault) (hl : ∀ n ∈ fileLength, offset + input.length ≤ n) :
    NoPage e input := by
  intro p id object hp hv
  obtain ⟨rest, rfl⟩ := hp
  obtain ⟨_, _, hn⟩ := next_of_isPage hv offset fileLength
    (fun n hn => Nat.le_trans (by simp) (hl n hn)) rest
  rw [hn] at h
  cases h

/-- What a replay found lies at the front of what was read, as it is laid out. -/
structure Found (e : Encoding) (buffer : Nat) (source : Source) (input : Bytes) (offset : Nat) (records : Index)
    (r : Replay) (xs : List Entry) (tail : Bytes) : Prop where
  split : input = joined xs ++ tail
  valid : ∀ x ∈ xs, x.IsValid e
  records_eq : r.records = records.reverse ++ layout offset xs
  valid_end : r.validEnd = offset + (joined xs).length
  warning : 0 < buffer → (r.warning = none ↔ tail = [])
  ended : 0 < buffer → offset + input.length ≤ source.length → NoPage e tail

theorem found_of_replayFrom {buffer : Nat} {source : Source} {input : Bytes} {offset : Nat} {records : Index}
    {r : Replay} (h : replayFrom e buffer source input offset records = .ok r) :
    ∃ xs tail, Found e buffer source input offset records r xs tail := by
  fun_induction replayFrom e buffer source input offset records with
  | case1 input offset records => cases h
  | case2 input offset records _ hend =>
    cases h
    refine ⟨[], input, rfl, by simp, by simp [layout], rfl, ?_, ?_⟩
    · intro hb
      have hnil : input = [] := by simpa [Nat.ne_of_gt hb] using hend
      simp [hnil]
    · intro hb _
      have hnil : input = [] := by simpa [Nat.ne_of_gt hb] using hend
      rw [hnil]
      exact noPage_nil
  | case3 input offset records _ hend fault hnext =>
    cases h
    have hne : input ≠ [] := by
      rintro rfl
      simp at hend
    refine ⟨[], input, rfl, by simp, by simp [layout], rfl, by simp [hne], ?_⟩
    intro _ hl
    exact noPage_of_next_error hnext (fun n hn => by cases hn; exact hl)
  | case4 input offset records _ _ page rest hnext _ length ih =>
    obtain ⟨xs, tail, hf⟩ := ih h
    obtain ⟨p, rfl, hp, hlen⟩ := isPage_of_next hnext
    have hlen : length = p.length := hlen
    refine ⟨⟨page.id, page.object, p⟩ :: xs, tail, ?_, ?_, ?_, ?_, hf.warning, ?_⟩
    · rw [hf.split, joined_cons, List.append_assoc]
    · exact List.forall_mem_cons.2 ⟨hp, hf.valid⟩
    · rw [hf.records_eq, List.reverse_cons, List.append_assoc, layout, hlen]
      rfl
    · rw [hf.valid_end, joined_cons, List.length_append, hlen, Nat.add_assoc]
    · intro hb hl
      rw [List.length_append, ← Nat.add_assoc, ← hlen] at hl
      exact hf.ended hb hl

theorem exists_entries {pages : List Bytes} (h : ∀ p ∈ pages, ∃ id object, IsPage e p id object) :
    ∃ xs : List Entry, xs.map (·.page) = pages ∧ ∀ x ∈ xs, x.IsValid e := by
  induction pages with
  | nil => exact ⟨[], rfl, by simp⟩
  | cons p pages ih =>
    obtain ⟨id, object, hp⟩ := h p List.mem_cons_self
    obtain ⟨xs, hpages, hx⟩ := ih fun q hq => h q (List.mem_cons_of_mem _ hq)
    exact ⟨⟨id, object, p⟩ :: xs, by rw [List.map_cons, hpages], List.forall_mem_cons.2 ⟨hp, hx⟩⟩

/-- The only way to replay a file of pages with something else behind them. -/
theorem replay_joined {buffer : Nat} (hb : 0 < buffer) {xs : List Entry} (hx : ∀ x ∈ xs, x.IsValid e) {tail : Bytes}
    (ht : NoPage e tail) :
    ∃ warning, (warning = none ↔ tail = []) ∧
      replay e buffer (.ofBytes (joined xs ++ tail)) = .ok ⟨layout 0 xs, (joined xs).length, warning⟩ := by
  obtain ⟨r, hr⟩ := replayFrom_eq_ok (e := e) buffer (.ofBytes (joined xs ++ tail)) rfl (joined xs ++ tail) 0 []
  obtain ⟨ys, tail', hf⟩ := found_of_replayFrom hr
  have hend : NoPage e tail' := hf.ended hb (Nat.le_of_eq (Nat.zero_add _))
  obtain ⟨rfl, rfl⟩ := entries_unique hx hf.valid ht hend hf.split
  obtain ⟨records, validEnd, warning⟩ := r
  refine ⟨warning, hf.warning hb, hr.trans ?_⟩
  have hrecords : records = layout 0 xs := hf.records_eq
  have hvalid : validEnd = (joined xs).length := by simpa using hf.valid_end
  rw [hrecords, hvalid]

/-- Of a file a replay only knows its length and whether reading it fails, and of a buffer whether there is any. -/
theorem replayFrom_congr {buffer buffer' : Nat} (hb : buffer' = 0 ↔ buffer = 0) {source source' : Source}
    (hl : source'.length = source.length) (hf : source'.fails = source.fails) (input : Bytes) (offset : Nat)
    (records : Index) :
    replayFrom e buffer' source' input offset records = replayFrom e buffer source input offset records := by
  have hz : (buffer' == 0) = (buffer == 0) := by rw [Bool.eq_iff_iff, beq_iff_eq, beq_iff_eq, hb]
  fun_induction replayFrom e buffer source input offset records with
  | case1 input offset records h => rw [replayFrom, hf, if_pos h]
  | case2 input offset records h hend => rw [replayFrom, hf, hz, if_neg h, if_pos hend]
  | case3 input offset records h hend fault hnext =>
    rw [replayFrom, hf, hz, if_neg h, if_neg hend]
    split
    · next hnext' =>
      rw [hl, hnext] at hnext'
      cases hnext'
      rfl
    · next hnext' =>
      rw [hl, hnext] at hnext'
      cases hnext'
  | case4 input offset records h hend page rest hnext _ length ih =>
    rw [replayFrom, hf, hz, if_neg h, if_neg hend]
    split
    · next hnext' =>
      rw [hl, hnext] at hnext'
      cases hnext'
    · next hnext' =>
      rw [hl, hnext] at hnext'
      cases hnext'
      exact ih

/-- A replay goes over the pages that a file begins with. -/
theorem replayFrom_joined {buffer : Nat} (hb : 0 < buffer) {source : Source} {xs : List Entry}
    (hx : ∀ x ∈ xs, x.IsValid e) (tail : Bytes) {offset : Nat} (records : Index)
    (hl : offset + (joined xs).length ≤ source.length) :
    replayFrom e buffer source (joined xs ++ tail) offset records =
      replayFrom e buffer source tail (offset + (joined xs).length) ((layout offset xs).reverse ++ records) := by
  induction xs generalizing offset records with
  | nil => rfl
  | cons x xs ih =>
    have hvalid := hx x List.mem_cons_self
    rw [joined_cons, List.length_append] at hl
    have hne : (joined (x :: xs) ++ tail).isEmpty = false := by
      have hlen := headerSize_le_length hvalid
      cases hp : x.page with
      | nil => simp [hp, headerSize] at hlen
      | cons => simp [hp]
    obtain ⟨h, hpage, hnext⟩ := next_of_isPage hvalid offset (some source.length)
      (fun n hn => by cases hn; omega) (joined xs ++ tail)
    rw [← List.append_assoc, ← joined_cons] at hnext
    rw [replayFrom, hne, Bool.false_and, if_neg (by simp), if_neg (by simp; omega)]
    split
    · next hnext' => cases hnext.symm.trans hnext'
    · next hnext' =>
      cases hnext.symm.trans hnext'
      dsimp only
      rw [hpage, ih (fun y hy => hx y (List.mem_cons_of_mem _ hy)) _ (by omega), joined_cons, List.length_append,
        layout, List.reverse_cons, List.append_assoc, Nat.add_assoc]
      rfl

/-- The first record is that of the page in front. -/
theorem exists_records_of_prefix {buffer : Nat} (hb : 0 < buffer) {source : Source} {x : Entry} (hx : x.IsValid e)
    (hp : x.page <+: source.bytes) (hl : source.bytes.length ≤ source.length) {r : Replay}
    (h : replay e buffer source = .ok r) : ∃ rest, r.records = x.record 0 :: rest := by
  obtain ⟨more, hmore⟩ := hp
  have hbytes : source.bytes = joined [x] ++ more := by rw [joined_cons, joined_nil, List.append_nil, hmore]
  have hle : 0 + (joined [x]).length ≤ source.length := by
    rw [hbytes, List.length_append] at hl
    omega
  rw [replay, hbytes, replayFrom_joined hb (List.forall_mem_singleton.2 hx) more [] hle] at h
  obtain ⟨xs, tail, hfound⟩ := found_of_replayFrom h
  exact ⟨_, hfound.records_eq⟩

/-- The length of the file counts behind the pages as well. -/
theorem replay_eq_replayFrom {buffer : Nat} (hb : 0 < buffer) {xs : List Entry} (hx : ∀ x ∈ xs, x.IsValid e)
    (tail : Bytes) : replay e buffer (.ofBytes (joined xs ++ tail)) =
      replayFrom e buffer (.ofBytes (joined xs ++ tail)) tail (joined xs).length (layout 0 xs).reverse := by
  have hle : 0 + (joined xs).length ≤ (Source.ofBytes (joined xs ++ tail)).length := by
    change 0 + (joined xs).length ≤ (joined xs ++ tail).length
    rw [List.length_append, Nat.zero_add]
    exact Nat.le_add_right _ _
  have h := replayFrom_joined hb hx tail [] hle
  rw [Nat.zero_add, List.append_nil] at h
  exact h

/-- A way to cut `file` into valid pages and a tail that begins with none. -/
structure IsParse (e : Encoding) (file : Bytes) (pages : List Bytes) (tail : Bytes) : Prop where
  joined : file = pages.flatten ++ tail
  valid : ∀ p ∈ pages, ∃ id object, IsPage e p id object
  ended : tail = [] ∨ ∀ p id object, p <+: tail → ¬ IsPage e p id object

theorem IsParse.noPage {file tail : Bytes} {pages : List Bytes} (h : IsParse e file pages tail) : NoPage e tail := by
  obtain rfl | hn := h.ended
  · exact noPage_nil
  · exact hn

theorem isParse_unique {file tail tail' : Bytes} {pages pages' : List Bytes} (h : IsParse e file pages tail)
    (h' : IsParse e file pages' tail') : pages = pages' ∧ tail = tail' := by
  obtain ⟨xs, rfl, hx⟩ := exists_entries h.valid
  obtain ⟨ys, rfl, hy⟩ := exists_entries h'.valid
  have hj := h.joined.symm.trans h'.joined
  rw [← joined_eq_flatten, ← joined_eq_flatten] at hj
  obtain ⟨rfl, rfl⟩ := entries_unique hx hy h.noPage h'.noPage hj
  exact ⟨rfl, rfl⟩

theorem exists_isParse (e : Encoding) (file : Bytes) : ∃ pages tail, IsParse e file pages tail := by
  obtain ⟨r, hr⟩ := replayFrom_eq_ok (e := e) 1 (.ofBytes file) rfl file 0 []
  obtain ⟨xs, tail, hf⟩ := found_of_replayFrom hr
  refine ⟨xs.map (·.page), tail, ?_, ?_, .inr (hf.ended Nat.one_pos (Nat.le_of_eq (Nat.zero_add _)))⟩
  · rw [hf.split, joined_eq_flatten]
  · intro p hp
    obtain ⟨x, hx, rfl⟩ := List.mem_map.1 hp
    exact ⟨x.id, x.object, hf.valid x hx⟩

/-- A replay always succeeds, and is the one parse of the file: record `i` belongs to page `i`. -/
theorem replay_eq_longest_parse (e : Encoding) {buffer : Nat} (hb : 0 < buffer) (file : Bytes)
    (hfile : file.length < UInt32.size) :
    ∃ r, replay e buffer (.ofBytes file) = .ok r ∧
      (∃! parse : List Bytes × Bytes, IsParse e file parse.1 parse.2) ∧
      ∀ pages tail, IsParse e file pages tail →
        r.records.length = pages.length ∧
        (∀ i (hi : i < pages.length) (hr : i < r.records.length),
          (∃ object, IsPage e pages[i] r.records[i].id object) ∧
          r.records[i].start = (pages.take i).flatten.length ∧
          r.records[i].length.toNat = pages[i].length) ∧
        r.validEnd = file.length - tail.length ∧
        (r.warning = none ↔ tail = []) := by
  obtain ⟨pages, tail, hp⟩ := exists_isParse e file
  obtain ⟨xs, rfl, hx⟩ := exists_entries hp.valid
  obtain ⟨warning, hw, hr⟩ := replay_joined hb hx hp.noPage
  have hj := hp.joined
  rw [← joined_eq_flatten] at hj
  rw [← hj] at hr
  refine ⟨_, hr, ⟨(_, tail), hp, fun parse h => ?_⟩, ?_⟩
  · obtain ⟨hpages, htail⟩ := isParse_unique h hp
    exact Prod.ext hpages htail
  · intro pages' tail' h
    obtain ⟨rfl, rfl⟩ := isParse_unique h hp
    refine ⟨by simp, ?_, ?_, hw⟩
    · intro i hi hlt
      have hi' : i < xs.length := by simpa using hi
      have hget : (layout 0 xs)[i] = xs[i].record (joined (xs.take i)).length := by
        have h := getElem?_layout 0 xs i
        rw [List.getElem?_eq_getElem hlt, List.getElem?_eq_getElem hi', Option.map_some, Nat.zero_add] at h
        exact Option.some.inj h
      have hlen : xs[i].page.length < UInt32.size := by
        have hle := length_page_le (List.getElem_mem hi')
        have hj := congrArg List.length hj
        rw [List.length_append] at hj
        omega
      rw [List.getElem_map, hget, ← List.map_take, ← joined_eq_flatten]
      refine ⟨⟨xs[i].object, hx _ (List.getElem_mem hi')⟩, rfl, ?_⟩
      exact UInt32.toNat_ofNat_of_lt' hlen
    · have hlen := congrArg List.length hj
      rw [List.length_append] at hlen
      dsimp only
      omega

end

theorem replay_sample_torn :
    ∃ r, replay .none 1 (.ofBytes (samplePage ++ [84, 87])) = .ok r ∧
      r.records.length = 1 ∧ r.validEnd = 26 ∧ r.warning ≠ none := by
  have hfile : (samplePage ++ [84, 87]).length < UInt32.size := by decide
  obtain ⟨r, hr, -, h⟩ := replay_eq_longest_parse .none Nat.one_pos (samplePage ++ [84, 87]) hfile
  have hp : IsParse .none (samplePage ++ [84, 87]) [samplePage] [84, 87] := by
    refine ⟨rfl, fun p hp => ?_, .inr fun p id object hp hv => ?_⟩
    · rw [List.mem_singleton.1 hp]
      exact ⟨_, _, isPage_sample⟩
    · have hle := Nat.le_trans (headerSize_le_length hv) hp.length_le
      exact absurd hle (by decide)
  obtain ⟨hlen, -, hend, hw⟩ := h _ _ hp
  exact ⟨r, hr, hlen, hend, fun hnone => absurd (hw.1 hnone) (by decide)⟩

end WriteAhead.Page
