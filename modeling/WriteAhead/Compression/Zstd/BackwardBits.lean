import WriteAhead.Bytes

/-!
Bit streams that are read from the end: from the last byte's highest set bit, which only marks the
start, down to the first byte's lowest bit.
-/

namespace WriteAhead.Zstd

/-- The bits still to come, next one first. -/
abbrev BackwardBits := List Bool

namespace BackwardBits

def ofByte (b : UInt8) : List Bool :=
  [b &&& 128 != 0, b &&& 64 != 0, b &&& 32 != 0, b &&& 16 != 0,
   b &&& 8 != 0, b &&& 4 != 0, b &&& 2 != 0, b &&& 1 != 0]

/-- The last byte must have a bit set. -/
def ofBytes? (bytes : Bytes) : Option BackwardBits :=
  match bytes.getLast? with
  | none => none
  | some b => if b = 0 then none else some (((bytes.reverse.flatMap ofByte).dropWhile (!·)).drop 1)

/-- Reads a number of `n` bits, highest first, behind those already in `high`. -/
def number? : Nat → Nat → BackwardBits → Option (Nat × BackwardBits)
  | 0, high, bits => some (high, bits)
  | _ + 1, _, [] => none
  | n + 1, high, bit :: bits => number? n (2 * high + bit.toNat) bits

/-- The number that the next `n` bits write, with zeros where there are none. -/
def peek : Nat → Nat → BackwardBits → Nat
  | 0, high, _ => high
  | n + 1, high, [] => peek n (2 * high) []
  | n + 1, high, bit :: bits => peek n (2 * high + bit.toNat) bits

def skip? : Nat → BackwardBits → Option BackwardBits
  | 0, bits => some bits
  | _ + 1, [] => none
  | n + 1, _ :: bits => skip? n bits

end BackwardBits

end WriteAhead.Zstd
