import WriteAhead.Bytes

/-!
Reading bytes bit by bit, each byte from its lowest bit up. Main statement: a bit that is read is
gone (`next?_left`), which is why every reader here comes to an end.
-/

namespace WriteAhead

/-- Bytes to come, of whose first the lowest `used` bits are read. -/
structure BitStream where
  bytes : Bytes
  used : Fin 8

namespace BitStream

def ofBytes (bytes : Bytes) : BitStream := ⟨bytes, 0⟩

def left (s : BitStream) : Nat := 8 * s.bytes.length - s.used

def next? (s : BitStream) : Option (Bool × BitStream) :=
  match s.bytes with
  | [] => none
  | b :: rest =>
    some ((b >>> s.used.val.toUInt8) &&& 1 == 1,
      if h : s.used.val < 7 then ⟨b :: rest, ⟨s.used.val + 1, Nat.succ_lt_succ h⟩⟩ else ⟨rest, 0⟩)

def number? : Nat → BitStream → Option (Nat × BitStream)
  | 0, s => some (0, s)
  | n + 1, s => do
    let (bit, s) ← s.next?
    let (high, s) ← number? n s
    some (bit.toNat + 2 * high, s)

def aligned (s : BitStream) : Bytes :=
  if s.used = 0 then s.bytes else s.bytes.tail

theorem next?_left {s t : BitStream} {bit : Bool} (h : s.next? = some (bit, t)) : t.left < s.left := by
  obtain ⟨bytes, used⟩ := s
  cases bytes with
  | nil => simp [next?] at h
  | cons b rest =>
    simp only [next?, Option.some.injEq, Prod.mk.injEq] at h
    obtain ⟨-, rfl⟩ := h
    have hu := used.isLt
    split <;> simp [left] <;> omega

theorem number?_left {n : Nat} {s t : BitStream} {v : Nat} (h : s.number? n = some (v, t)) :
    t.left ≤ s.left := by
  induction n generalizing s v with
  | zero =>
    simp only [number?, Option.some.injEq, Prod.mk.injEq] at h
    exact h.2 ▸ Nat.le_refl _
  | succ n ih =>
    simp only [number?, Option.bind_eq_bind, Option.bind_eq_some_iff, Prod.exists, Option.some.injEq,
      Prod.mk.injEq] at h
    obtain ⟨bit, u, hu, high, w, hw, -, rfl⟩ := h
    exact Nat.le_trans (ih hw) (Nat.le_of_lt (next?_left hu))

theorem number?_left_lt {n : Nat} {s t : BitStream} {v : Nat} (hn : 0 < n)
    (h : s.number? n = some (v, t)) : t.left < s.left := by
  obtain ⟨n, rfl⟩ := Nat.exists_eq_succ_of_ne_zero (Nat.ne_of_gt hn)
  simp only [number?, Option.bind_eq_bind, Option.bind_eq_some_iff, Prod.exists, Option.some.injEq,
    Prod.mk.injEq] at h
  obtain ⟨bit, u, hu, high, w, hw, -, rfl⟩ := h
  exact Nat.lt_of_le_of_lt (number?_left hw) (next?_left hu)

end BitStream

end WriteAhead
