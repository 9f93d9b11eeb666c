import WriteAhead.Encoding
import WriteAhead.Uuid

/-!
The bookkeeping of one block, which is only kept in memory. Main statement: extending the time
range in another order gives the same range.
-/

namespace WriteAhead

structure BlockMeta where
  id : Uuid
  tenant : String
  encoding : Encoding
  dataEncoding : String
  /-- In seconds since 1970, as is `stop`; both are unset until an object is added. -/
  start : Option UInt32 := none
  stop : Option UInt32 := none
  size : Nat := 0
  objects : Nat := 0

namespace BlockMeta

def extend (m : BlockMeta) (start stop : UInt32) : BlockMeta :=
  { m with
    start := some (m.start.elim start (min · start))
    stop := some (m.stop.elim stop (max · stop)) }

def add (m : BlockMeta) (start stop : UInt32) (pageLength : Nat) : BlockMeta :=
  let m := m.extend start stop
  { m with size := m.size + pageLength, objects := m.objects + 1 }

theorem toNat_min (a b : UInt32) : (min a b).toNat = min a.toNat b.toNat := by
  rw [show min a b = if a ≤ b then a else b from rfl]
  split <;> simp only [UInt32.le_iff_toNat_le] at * <;> omega

theorem toNat_max (a b : UInt32) : (max a b).toNat = max a.toNat b.toNat := by
  rw [show max a b = if a ≤ b then b else a from rfl]
  split <;> simp only [UInt32.le_iff_toNat_le] at * <;> omega

theorem extend_comm (m : BlockMeta) (a b c d : UInt32) :
    (m.extend a b).extend c d = (m.extend c d).extend a b := by
  obtain ⟨id, tenant, encoding, dataEncoding, start, stop, size, objects⟩ := m
  cases start <;> cases stop <;>
    simp only [extend, Option.elim, mk.injEq, Option.some.injEq, ← UInt32.toNat_inj, toNat_min, toNat_max,
      true_and, and_true] <;> omega

end BlockMeta

end WriteAhead
