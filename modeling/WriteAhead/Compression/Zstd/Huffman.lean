import WriteAhead.Compression.History
import WriteAhead.Compression.Zstd.StateTable

/-!
Prefix codes for literals. A code is written as one weight per symbol: a symbol of weight `w` has
`2 ^ (w - 1)` of the `2 ^ log` words of full length, and the last weight is what the others leave. Long literals
stand in four streams, whose ends are only checked when they are short.
-/

namespace WriteAhead.Zstd

/-- `words` lists, for each word of `log` bits, the symbol it begins with and that symbol's bits. -/
structure Huffman where
  log : Nat
  words : Array (UInt8 × Nat)

namespace Huffman

def maxLog : Nat := 12

def maxWeights : Nat := 255

/-- Takes symbols from two states in turn, until one cannot go on; then the other has one more. -/
def alternate (table : StateTable) : Nat → State → State → BackwardBits → List Nat → Option (List Nat)
  | 0, _, _, _, _ => none
  | fuel + 1, this, other, bits, weights =>
    match table.next? this bits with
    | none => some (other.symbol :: this.symbol :: weights).reverse
    | some (after, bits) => alternate table fuel other after bits (this.symbol :: weights)

def packedWeights? (bytes : Bytes) : Option (List Nat) := do
  let (table, rest) ← StateTable.read? 255 6 bytes
  let bits ← BackwardBits.ofBytes? rest
  let (first, bits) ← table.start? bits
  let (second, bits) ← table.start? bits
  alternate table (maxWeights - 1) first second bits []

def weights? (bytes : Bytes) : Option (List Nat × Bytes) :=
  match bytes with
  | [] => none
  | b :: rest =>
    if b < 128 then do
      let (packed, rest) ← Bytes.cut? b.toNat rest
      let weights ← packedWeights? packed
      some (weights, rest)
    else do
      let n := b.toNat - 127
      let (packed, rest) ← Bytes.cut? ((n + 1) / 2) rest
      some ((packed.flatMap fun b => [b.toNat / 16, b.toNat % 16]).take n, rest)

def share (w : Nat) : Nat := if w = 0 then 0 else 1 <<< (w - 1)

/-- Adds the weight that makes the shares a power of two, which must itself be a share. -/
def complete? (weights : List Nat) : Option (Nat × List Nat) :=
  let total := weights.foldl (fun total w => total + share w) 0
  let log := Nat.log2 total + 1
  let rest := (1 <<< log) - total
  if weights.all (· ≤ maxLog) ∧ total ≠ 0 ∧ log ≤ maxLog ∧ rest = 1 <<< Nat.log2 rest then
    some (log, weights ++ [Nat.log2 rest + 1])
  else none

/-- Deals the words: to the longest codewords first, and among these to the lowest symbols. -/
def ofWeights? (weights : List Nat) : Option Huffman := do
  let (log, weights) ← complete? weights
  let longest := weights.count 1
  if 2 ≤ longest ∧ longest % 2 = 0 then
    let words := (List.range log).flatMap fun w =>
      weights.zipIdx.flatMap fun (weight, symbol) =>
        if weight = w + 1 then List.replicate (share weight) (UInt8.ofNat symbol, log - w) else []
    some ⟨log, words.toArray⟩
  else none

def read? (bytes : Bytes) : Option (Huffman × Bytes) := do
  let (weights, rest) ← weights? bytes
  let code ← ofWeights? weights
  some (code, rest)

def symbols (code : Huffman) : Nat → BackwardBits → History → Option (History × BackwardBits)
  | 0, bits, out => some (out, bits)
  | n + 1, bits, out =>
    match code.words[bits.peek code.log 0]? with
    | none => none
    | some (symbol, length) =>
      match bits.skip? length with
      | none => none
      | some bits => symbols code n bits (out.push symbol)

def unpack (code : Huffman) (n : Nat) (bytes : Bytes) (out : History) : Option History := do
  let bits ← BackwardBits.ofBytes? bytes
  let (out, bits) ← code.symbols n bits out
  if bits.isEmpty then some out else none

/-- The most bytes in front of a stream that serve where it runs out. -/
def overrun : Nat := 8

/-- Unpacks `n` symbols without a check that they use up the stream. Where it runs out the bytes
`before` it go on, and its last byte need not have a bit set. -/
def unpackLoose (code : Huffman) (n : Nat) (before bytes : Bytes) (out : History) : Option History := do
  let own := (BackwardBits.ofBytes? bytes).getD (bytes.reverse.flatMap BackwardBits.ofByte)
  let borrowed := (before.reverse.take overrun).flatMap BackwardBits.ofByte
  let (out, _) ← code.symbols n (own ++ borrowed) out
  some out

/-- Four streams, of at least so many bytes each and under codewords of at most so many bits, are
unpacked without a check of their ends. -/
def looseBounds : Nat × Nat := (8, 11)

def unpackFour (code : Huffman) (n : Nat) (bytes : Bytes) : Option History := do
  let (a, rest) ← Bytes.number? 2 bytes
  let (b, rest) ← Bytes.number? 2 rest
  let (c, rest) ← Bytes.number? 2 rest
  let (first, rest) ← Bytes.cut? a rest
  let (second, rest) ← Bytes.cut? b rest
  let (third, fourth) ← Bytes.cut? c rest
  let quarter := (n + 3) / 4
  let last := n - 3 * quarter
  let isLoose := code.log ≤ looseBounds.2 && [first, second, third, fourth].all (looseBounds.1 ≤ ·.length)
  if n < 3 * quarter then none
  else if isLoose && 0 < last then do
    let lengths := bytes.take 6
    let out ← code.unpackLoose quarter lengths first #[]
    let out ← code.unpackLoose quarter first second out
    let out ← code.unpackLoose quarter second third out
    code.unpackLoose last third fourth out
  else do
    let out ← code.unpack quarter first #[]
    let out ← code.unpack quarter second out
    let out ← code.unpack quarter third out
    code.unpack last fourth out

end Huffman

end WriteAhead.Zstd
