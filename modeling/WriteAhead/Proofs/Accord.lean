import Mathlib.Data.List.Flatten
import WriteAhead.Proofs.Buffers
import WriteAhead.Proofs.Isolation

/-!
What a replay lists against what look-up reads. Main statements: at one place at most one record can be read
(`eq_of_readAt`), and where a listed page begins, or the replay ended, look-up reads exactly what is listed
(`accord_of_short`).
-/

namespace WriteAhead.Page

section

variable [Codecs] {e : Encoding}

/-- All that can be read at a place goes by one record. -/
theorem eq_of_readAt {s : Source} {r r' : Record} {page page' : Bytes × Bytes} (hstart : r'.start = r.start)
    (h : readAt e s r = .ok page) (h' : readAt e s r' = .ok page') : r' = r := by
  obtain ⟨-, hid, hpage, hlength⟩ := readAt_eq_ok_iff.1 h
  obtain ⟨-, hid', hpage', hlength'⟩ := readAt_eq_ok_iff.1 h'
  have hrest : r'.slice s.bytes ++ (s.bytes.drop r.start).drop r'.length.toNat =
      r.slice s.bytes ++ (s.bytes.drop r.start).drop r.length.toNat := by
    rw [Record.slice, Record.slice, hstart, List.take_append_drop, List.take_append_drop]
  obtain ⟨hslice, -, hsame, -⟩ := eq_of_isPage_append hpage' hpage hrest
  have hsize : r'.length = r.length := UInt32.toNat_inj.1 (by rw [← hlength', hslice, hlength])
  obtain ⟨id, start, length⟩ := r
  obtain ⟨id', start', length'⟩ := r'
  cases hstart
  cases hsize
  cases hid.symm.trans (hsame.symm.trans hid')
  rfl

/-- The records of some pages can be read if the file begins with these. -/
theorem exists_readAt_of_mem {xs : List Entry} (hx : ∀ x ∈ xs, x.IsValid e ∧ x.page.length < UInt32.size)
    (hs : (joined xs).length ≤ maxSeek) (rest : Bytes) {r : Record} (hr : r ∈ layout 0 xs) :
    ∃ object, readAt e (.ofBytes (joined xs ++ rest)) r = .ok (r.id, object) := by
  obtain ⟨i, hi⟩ := List.mem_iff_getElem?.1 hr
  rw [getElem?_layout, Option.map_eq_some_iff, Nat.zero_add] at hi
  obtain ⟨x, hxi, rfl⟩ := hi
  have hle : (joined (xs.take i)).length ≤ (joined xs).length :=
    ((List.take_sublist i xs).flatMap Entry.page).length_le
  exact ⟨x.object, readAt_getElem? hx hxi (Nat.le_trans hle hs) rest⟩

/-- What a replay through a buffer of `capacity` bytes gives, and what look-up reads then. -/
structure Accord (e : Encoding) (capacity : Nat) (file : Bytes) (r : Replay) : Prop where
  replay : replay e capacity (.ofBytes file) = .ok r
  indexed : ∀ record ∈ r.records, ∃ object, readAt e (.ofBytes file) record = .ok (record.id, object)
  known : ∀ record, ∀ other ∈ r.records, record.start = other.start → ∀ page,
    readAt e (.ofBytes file) record = .ok page → record = other
  ended : 0 < capacity → ∀ record, record.start = r.validEnd → ∃ fault, readAt e (.ofBytes file) record = .error fault
  accepted : 0 < capacity → ∀ record, (record.start = r.validEnd ∨ ∃ other ∈ r.records, record.start = other.start) →
    ((∃ page, readAt e (.ofBytes file) record = .ok page) ↔ record ∈ r.records)
  buffered_replay : ∀ portions, Buffered.replay e capacity portions (.ofBytes file) = .ok r
  buffered_readAt : ∀ portions record,
    Buffered.readAt e capacity portions (.ofBytes file) record = readAt e (.ofBytes file) record

/-- Of any file that is short enough, replay and look-up accept the same pages. -/
theorem accord_of_short (e : Encoding) (capacity : Nat) {file : Bytes} (hf : file.length < UInt32.size) :
    ∃ r, Accord e capacity file r := by
  obtain ⟨r, hr⟩ := replayFrom_eq_ok (e := e) capacity (.ofBytes file) rfl file 0 []
  obtain ⟨xs, tail, hfound⟩ := found_of_replayFrom hr
  have hfile : file = joined xs ++ tail := hfound.split
  have hrecords : r.records = layout 0 xs := hfound.records_eq
  have hend : r.validEnd = (joined xs).length := hfound.valid_end.trans (Nat.zero_add _)
  have hle : (joined xs).length ≤ file.length := by
    rw [hfile, List.length_append]
    exact Nat.le_add_right _ _
  have hx : ∀ x ∈ xs, x.IsValid e ∧ x.page.length < UInt32.size := fun x hmem =>
    ⟨hfound.valid x hmem, Nat.lt_of_le_of_lt (Nat.le_trans (length_page_le hmem) hle) hf⟩
  have hseek : (joined xs).length ≤ maxSeek := Nat.le_trans hle (Nat.le_trans (Nat.le_of_lt hf) (by decide))
  have hindexed : ∀ record ∈ r.records, ∃ object, readAt e (.ofBytes file) record = .ok (record.id, object) := by
    intro record hmem
    rw [hfile]
    exact exists_readAt_of_mem hx hseek tail (hrecords ▸ hmem)
  have hknown : ∀ record, ∀ other ∈ r.records, record.start = other.start → ∀ page,
      readAt e (.ofBytes file) record = .ok page → record = other := by
    intro record other hmem hstart page hread
    obtain ⟨object, hother⟩ := hindexed other hmem
    exact eq_of_readAt hstart hother hread
  have hended : 0 < capacity → ∀ record, record.start = r.validEnd →
      ∃ fault, readAt e (.ofBytes file) record = .error fault := by
    intro hb record hstart
    have htail : NoPage e tail := hfound.ended hb (Nat.le_of_eq (Nat.zero_add _))
    apply exists_error_readAt
    rwa [hstart, hend, hfile, List.drop_left]
  refine ⟨r, hr, hindexed, hknown, hended, fun hb record hplace => ⟨?_, ?_⟩, fun portions => ?_,
    fun portions record => ?_⟩
  · rintro ⟨page, hread⟩
    obtain hstart | ⟨other, hmem, hstart⟩ := hplace
    · obtain ⟨fault, hfault⟩ := hended hb record hstart
      cases hread.symm.trans hfault
    · rw [hknown record other hmem hstart page hread]
      exact hmem
  · intro hmem
    obtain ⟨object, hread⟩ := hindexed record hmem
    exact ⟨_, hread⟩
  · exact (Buffered.replay_eq e capacity portions _).trans hr
  · exact Buffered.readAt_eq e capacity portions _ record

end

/-- Behind the page that is listed, in front of what is no page, look-up reads nothing either. -/
theorem accord_of_torn : ∃ r, Accord .none 1 (samplePage ++ [84, 87]) r ∧ r.records = [⟨[7], 0, 26⟩] ∧
    ∃ fault, readAt .none (.ofBytes (samplePage ++ [84, 87])) ⟨[7], 26, 26⟩ = .error fault := by
  have hfile : (samplePage ++ [84, 87]).length < UInt32.size := by decide
  obtain ⟨r, h⟩ := accord_of_short .none 1 hfile
  have htorn : NoPage .none [84, 87] := fun p id object hp hv =>
    absurd (Nat.le_trans (headerSize_le_length hv) hp.length_le) (by decide)
  obtain ⟨warning, -, hreplay⟩ := replay_joined Nat.one_pos
    (List.forall_mem_singleton.2 (show Entry.IsValid .none ⟨[7], [8], samplePage⟩ from isPage_sample)) htorn
  obtain rfl := Except.ok.inj (h.replay.symm.trans hreplay)
  exact ⟨_, h, rfl, h.ended Nat.one_pos _ rfl⟩

end WriteAhead.Page
