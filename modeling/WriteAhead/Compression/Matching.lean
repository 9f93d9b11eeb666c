import WriteAhead.Bytes

/-!
Finding repetitions: a plan of literals and back-references that stands for given bytes. A plan is
only a proposal; main statement: `readingBack` uses what was made of it only if that reads back.
-/

namespace WriteAhead

/-- Bytes as they are, then a copy of `length` bytes from `distance` back. -/
structure Match where
  literals : Bytes
  distance : Nat
  length : Nat

structure Plan where
  steps : List Match
  rest : Bytes

namespace Plan

structure Bounds where
  maxDistance : Nat
  maxLength : Nat

def minLength : Nat := 4

/-- So many bytes at the end are never the start of a copy, and a few of these are never copied. -/
def margin : Nat := 12

def uncopied : Nat := 5

/-- The last place of each class of four bytes, plus one. -/
abbrev Places := Array Nat

def placesLog : Nat := 14

def classOf (data : Array UInt8) (i : Nat) : Nat :=
  let byte := fun k => (data.getD (i + k) 0).toUInt32
  let word := byte 0 ||| (byte 1 <<< 8) ||| (byte 2 <<< 16) ||| (byte 3 <<< 24)
  ((word * 0x9E3779B1) >>> (32 - placesLog.toUInt32)).toNat

/-- Adds to `length` how many bytes from `i` on equal those from `j` on, at most `n`. -/
def common (data : Array UInt8) (i j length : Nat) : Nat → Nat
  | 0 => length
  | n + 1 => if data.getD i 0 == data.getD j 0 then common data (i + 1) (j + 1) (length + 1) n else length

/-- Looks for a copy at each place in turn; `start` is where the literals begin that are not yet
part of a step. -/
def search (bounds : Bounds) (data : Array UInt8) (i start : Nat) (places : Places) (steps : Array Match) : Plan :=
  if i + margin < data.size then
    let key := classOf data i
    let candidate := places.getD key 0
    let places := places.setIfInBounds key (i + 1)
    let distance := i + 1 - candidate
    let length := if candidate = 0 ∨ bounds.maxDistance < distance then 0
      else common data i (i - distance) 0 (min bounds.maxLength (data.size - uncopied - i))
    if minLength ≤ length then
      search bounds data (i + (length - 1) + 1) (i + length) places
        (steps.push ⟨(data.extract start i).toList, distance, length⟩)
    else search bounds data (i + 1) start places steps
  else ⟨steps.toList, (data.extract start data.size).toList⟩
termination_by data.size - i

def ofBytes (bounds : Bounds) (bytes : Bytes) : Plan :=
  search bounds bytes.toArray 0 0 (Array.replicate (1 <<< placesLog) 0) #[]

end Plan

/-- The shorter form `squeezed`, provided that it reads back as `raw`; else `stored`. -/
def readingBack (decompress : Bytes → Option Bytes) (raw squeezed stored : Bytes) : Bytes :=
  if squeezed.length < stored.length ∧ decompress squeezed = some raw then squeezed else stored

theorem decompress_readingBack {decompress : Bytes → Option Bytes} {raw squeezed stored : Bytes}
    (h : decompress stored = some raw) : decompress (readingBack decompress raw squeezed stored) = some raw := by
  unfold readingBack
  split
  · next hs => exact hs.2
  · exact h

end WriteAhead
