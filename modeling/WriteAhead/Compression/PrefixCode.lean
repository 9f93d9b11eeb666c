import WriteAhead.Compression.BitStream

/-!
Canonical prefix codes given by the lengths of their codewords. Main statement: reading a symbol
uses up at least one bit (`read?_left`).
-/

namespace WriteAhead

/-- `counts` lists how many codewords have 1, 2, … bits; `symbols` lists what they stand for, in
the order of the codewords. -/
structure PrefixCode where
  counts : List Nat
  symbols : Array Nat

namespace PrefixCode

def maxLength : Nat := 15

def symbolsOfLength (lengths : List Nat) (n : Nat) : List Nat :=
  (lengths.zipIdx.filter (·.1 == n)).map (·.2)

/-- The code in which symbol `i` has `lengths[i]` bits, or none if that is zero. -/
def ofLengths (lengths : List Nat) : PrefixCode :=
  let sizes := (List.range maxLength).map (· + 1)
  ⟨sizes.map (lengths.count ·), (sizes.flatMap (symbolsOfLength lengths)).toArray⟩

/-- The codewords used, weighed by the share of all words of full length that begin with them. -/
def weight (code : PrefixCode) : Nat :=
  code.counts.foldl (fun total count => 2 * total + count) 0

/-- Whether every sequence of bits begins with a codeword. -/
def isComplete (code : PrefixCode) : Bool :=
  code.weight == 1 <<< code.counts.length

def isUsable (code : PrefixCode) : Bool :=
  code.isComplete || code.counts.foldl (fun total count => total + count) 0 ≤ 1

/-- Extends the word read so far, which comes `first` or later among those of its length, bit by
bit until it is a codeword; `index` counts the shorter codewords. -/
def descend (symbols : Array Nat) : List Nat → (word first index : Nat) → BitStream → Option (Nat × BitStream)
  | [], _, _, _, _ => none
  | count :: counts, word, first, index, s => do
    let (bit, s) ← s.next?
    let word := 2 * word + bit.toNat
    let first := 2 * first
    if word < first + count then
      let symbol ← symbols[index + (word - first)]?
      some (symbol, s)
    else
      descend symbols counts word (first + count) (index + count) s

def read? (code : PrefixCode) (s : BitStream) : Option (Nat × BitStream) :=
  descend code.symbols code.counts 0 0 0 s

theorem descend_left {symbols : Array Nat} {counts : List Nat} {word first index symbol : Nat}
    {s t : BitStream} (h : descend symbols counts word first index s = some (symbol, t)) :
    t.left < s.left := by
  induction counts generalizing word first index s with
  | nil => simp [descend] at h
  | cons count counts ih =>
    simp only [descend, Option.bind_eq_bind, Option.bind_eq_some_iff, Prod.exists] at h
    obtain ⟨bit, u, hu, h⟩ := h
    have hlt := BitStream.next?_left hu
    split at h
    · simp only [Option.bind_eq_some_iff, Option.some.injEq, Prod.mk.injEq] at h
      obtain ⟨_, _, _, rfl⟩ := h
      exact hlt
    · exact Nat.lt_trans (ih h) hlt

theorem read?_left {code : PrefixCode} {symbol : Nat} {s t : BitStream}
    (h : code.read? s = some (symbol, t)) : t.left < s.left :=
  descend_left h

end PrefixCode

end WriteAhead
