import WriteAhead.Compression.BitStream
import WriteAhead.Compression.Zstd.BackwardBits

/-!
Tables of states for finite state entropy: each state stands for a symbol and says how many bits
lead to the next state. A table is made from how often each symbol comes, where -1 stands for a
symbol that is rarer than any count.
-/

namespace WriteAhead.Zstd

structure State where
  symbol : Nat
  bits : Nat
  base : Nat
  deriving Inhabited

/-- `2 ^ log` states. -/
structure StateTable where
  log : Nat
  states : Array State

namespace StateTable

/-- The table whose only symbol takes no bits. -/
def constant (symbol : Nat) : StateTable := ⟨0, #[⟨symbol, 0, 0⟩]⟩

def weighted (counts : List Int) : List (Nat × Int) :=
  counts.zipIdx.map fun (count, symbol) => (symbol, count)

/-- The order in which states are dealt to symbols: in steps of about five eighths of the table,
leaving out the last `rare` ones. -/
def dealt (log rare : Nat) : List Nat :=
  let size := 1 <<< log
  let step := size / 2 + size / 8 + 3
  ((List.range size).map fun i => i * step % size).filter (· < size - rare)

/-- Which symbol each state stands for: rare ones have one state each, from the last downward. -/
def symbolsOf (log : Nat) (counts : List Int) : Array Nat :=
  let rare := (weighted counts).filter (·.2 == -1)
  let common := (weighted counts).flatMap fun (symbol, count) => List.replicate count.toNat symbol
  let blank := Array.replicate (1 <<< log) 0
  let table := ((dealt log rare.length).zip common).foldl (fun t (i, symbol) => t.setIfInBounds i symbol) blank
  rare.zipIdx.foldl (fun t ((symbol, _), i) => t.setIfInBounds ((1 <<< log) - 1 - i) symbol) table

/-- Numbers the states of each symbol, from its count on; the number fixes where a state leads. -/
def ofCounts (log : Nat) (counts : List Int) : StateTable :=
  let first := (counts.map fun count => if count = -1 then 1 else count.toNat).toArray
  let deal := fun (acc : Array State × Array Nat) symbol =>
    let n := acc.2.getD symbol 0
    let bits := log - Nat.log2 n
    (acc.1.push ⟨symbol, bits, (n <<< bits) - (1 <<< log)⟩, acc.2.setIfInBounds symbol (n + 1))
  ⟨log, ((symbolsOf log counts).foldl deal (#[], first)).1⟩

/-- Reads how many symbols are left out after one that does not come: pairs of bits, added up to
and with the first that is not 3. -/
def gap? : Nat → BitStream → Option (Nat × BitStream)
  | 0, _ => none
  | fuel + 1, s => do
    let (n, s) ← s.number? 2
    if n = 3 then
      let (more, s) ← gap? fuel s
      some (n + more, s)
    else some (n, s)

/-- Reads a count: a number up to `remaining`, of as many bits as that needs, where the small ones
are spared one bit; it is written one higher than it is. -/
def count? (remaining : Nat) (s : BitStream) : Option (Int × BitStream) := do
  let bits := Nat.log2 remaining
  let threshold := 1 <<< bits
  let spared := 2 * threshold - 1 - remaining
  let (low, s) ← s.number? bits
  if low < spared then some (low - 1, s)
  else
    let (high, s) ← s.number? 1
    let n := low + high * threshold
    some ((if n < threshold then (n : Int) else n - spared) - 1, s)

/-- Reads counts for at most `left` more symbols, until their sum is reached; `remaining` is one
more than what is missing of it. -/
def readCounts? : Nat → Nat → BitStream → List Int → Option (List Int × BitStream)
  | 0, _, _, _ => none
  | left + 1, remaining, s, counts => do
    let (count, s) ← count? remaining s
    let remaining := remaining - count.natAbs
    if remaining ≤ 1 then some ((count :: counts).reverse, s)
    else if count = 0 then
      let (gap, s) ← gap? (left + 1) s
      if gap < left then readCounts? (left - gap) remaining s (List.replicate gap 0 ++ count :: counts)
      else none
    else readCounts? left remaining s (count :: counts)
termination_by left => left
decreasing_by
  · exact Nat.lt_succ_of_le (Nat.sub_le _ _)
  · exact Nat.lt_succ_self _

def read? (maxSymbol maxLog : Nat) (bytes : Bytes) : Option (StateTable × Bytes) := do
  let (log, s) ← (BitStream.ofBytes bytes).number? 4
  let log := log + 5
  if log ≤ maxLog then
    let (counts, s) ← readCounts? (maxSymbol + 1) ((1 <<< log) + 1) s []
    some (ofCounts log counts, s.aligned)
  else none

def start? (table : StateTable) (bits : BackwardBits) : Option (State × BackwardBits) := do
  let (n, bits) ← bits.number? table.log 0
  let state ← table.states[n]?
  some (state, bits)

def next? (table : StateTable) (state : State) (bits : BackwardBits) : Option (State × BackwardBits) := do
  let (n, bits) ← bits.number? state.bits 0
  let state ← table.states[state.base + n]?
  some (state, bits)

end StateTable

end WriteAhead.Zstd
