import WriteAhead.Compression.History
import WriteAhead.Compression.Zstd.StateTable

/-!
The second section of a packed block: sequences of literals and back-references, each of three
numbers whose classes come from three tables of states.
-/

namespace WriteAhead.Zstd

structure Tables where
  literals : StateTable
  offsets : StateTable
  lengths : StateTable

namespace Tables

def default : Tables where
  literals := .ofCounts 6 [4, 3, 2, 2, 2, 2, 2, 2, 2, 2, 2, 2, 2, 1, 1, 1, 2, 2, 2, 2, 2, 2, 2, 2, 2, 3, 2,
    1, 1, 1, 1, 1, -1, -1, -1, -1]
  offsets := .ofCounts 5 [1, 1, 1, 1, 1, 1, 2, 2, 2, 1, 1, 1, 1, 1, 1, 1, 1, 1, 1, 1, 1, 1, 1, 1,
    -1, -1, -1, -1, -1]
  lengths := .ofCounts 6 ([1, 4, 3, 2, 2, 2, 2, 2, 2] ++ List.replicate 37 1 ++ List.replicate 7 (-1))

/-- Reads a table in the way that `mode` says: the default one, one with a single symbol, one that
is written out, or `last`, the one used before. -/
def table? (mode maxSymbol maxLog : Nat) (default : StateTable) (last : Option StateTable) (bytes : Bytes) :
    Option (StateTable × Bytes) :=
  match mode with
  | 0 => some (default, bytes)
  | 1 => do
    let (symbol, rest) ← Bytes.number? 1 bytes
    if symbol ≤ maxSymbol then some (.constant symbol, rest) else none
  | 2 => StateTable.read? maxSymbol maxLog bytes
  | _ => last.map (·, bytes)

def read? (last : Option Tables) (bytes : Bytes) : Option (Tables × Bytes) := do
  let (modes, rest) ← Bytes.number? 1 bytes
  if modes % 4 = 0 then
    let (literals, rest) ← table? (modes / 64) 35 9 default.literals (last.map (·.literals)) rest
    let (offsets, rest) ← table? (modes / 16 % 4) 31 8 default.offsets (last.map (·.offsets)) rest
    let (lengths, rest) ← table? (modes / 4 % 4) 52 9 default.lengths (last.map (·.lengths)) rest
    some (⟨literals, offsets, lengths⟩, rest)
  else none

end Tables

def literalClasses : Array (Nat × Nat) :=
  ((List.range 16).map (·, 0) ++
    [(16, 1), (18, 1), (20, 1), (22, 1), (24, 2), (28, 2), (32, 3), (40, 3), (48, 4), (64, 6), (128, 7),
     (256, 8), (512, 9), (1024, 10), (2048, 11), (4096, 12), (8192, 13), (16384, 14), (32768, 15),
     (65536, 16)]).toArray

def lengthClasses : Array (Nat × Nat) :=
  ((List.range 32).map (fun n => (n + 3, 0)) ++
    [(35, 1), (37, 1), (39, 1), (41, 1), (43, 2), (47, 2), (51, 3), (59, 3), (67, 4), (83, 4), (99, 5),
     (131, 7), (259, 8), (515, 9), (1027, 10), (2051, 11), (4099, 12), (8195, 13), (16387, 14),
     (32771, 15), (65539, 16)]).toArray

/-- The three distances used last, latest first. -/
structure Recent where
  first : Nat := 1
  second : Nat := 4
  third : Nat := 8

namespace Recent

/-- What a written distance means: above 3 it is new; up to 3 it is a recent one, or one less than
the latest, and without literals the choice begins with the second. -/
def resolve? (r : Recent) (written : Nat) (noLiterals : Bool) : Option (Nat × Recent) :=
  if 3 < written then some (written - 3, ⟨written - 3, r.first, r.second⟩)
  else match written + noLiterals.toNat with
    | 1 => some (r.first, r)
    | 2 => some (r.second, ⟨r.second, r.first, r.third⟩)
    | 3 => some (r.third, ⟨r.third, r.first, r.second⟩)
    | _ => if r.first = 1 then none else some (r.first - 1, ⟨r.first - 1, r.first, r.second⟩)

end Recent

structure Sequence where
  literals : Nat
  distance : Nat
  length : Nat

namespace Sequence

structure Reader where
  literals : State
  offsets : State
  lengths : State
  bits : BackwardBits

def Reader.start? (tables : Tables) (bits : BackwardBits) : Option Reader := do
  let (literals, bits) ← tables.literals.start? bits
  let (offsets, bits) ← tables.offsets.start? bits
  let (lengths, bits) ← tables.lengths.start? bits
  some ⟨literals, offsets, lengths, bits⟩

def Reader.next? (tables : Tables) (r : Reader) : Option Reader := do
  let (literals, bits) ← tables.literals.next? r.literals r.bits
  let (lengths, bits) ← tables.lengths.next? r.lengths bits
  let (offsets, bits) ← tables.offsets.next? r.offsets bits
  some ⟨literals, offsets, lengths, bits⟩

def read? (r : Reader) (recent : Recent) : Option (Sequence × Recent × BackwardBits) := do
  let (written, bits) ← BackwardBits.number? r.offsets.symbol 1 r.bits
  let (least, more) ← lengthClasses[r.lengths.symbol]?
  let (length, bits) ← BackwardBits.number? more 0 bits
  let (fewest, further) ← literalClasses[r.literals.symbol]?
  let (literals, bits) ← BackwardBits.number? further 0 bits
  let (distance, recent) ← recent.resolve? written (fewest = 0)
  some (⟨fewest + literals, distance, least + length⟩, recent, bits)

/-- Reads `n + 1` sequences; the bits must then be used up. -/
def readAll? (tables : Tables) : Nat → Reader → Recent → List Sequence → Option (List Sequence × Recent)
  | 0, r, recent, acc => do
    let (sequence, recent, bits) ← read? r recent
    if bits.isEmpty then some ((sequence :: acc).reverse, recent) else none
  | n + 1, r, recent, acc =>
    match read? r recent with
    | none => none
    | some (sequence, recent, bits) =>
      match Reader.next? tables { r with bits } with
      | none => none
      | some r => readAll? tables n r recent (sequence :: acc)

def count? (bytes : Bytes) : Option (Nat × Bytes) :=
  match bytes with
  | [] => none
  | b :: rest =>
    if b < 128 then some (b.toNat, rest)
    else if b < 255 then (Bytes.number? 1 rest).map fun (low, rest) => ((b.toNat - 128) * 256 + low, rest)
    else (Bytes.number? 2 rest).map fun (n, rest) => (n + 0x7F00, rest)

/-- Carries out sequences behind `out`, which may not grow beyond `limit`; literals that are left
come last. -/
def perform? (limit : Nat) : List Sequence → Bytes → History → Option History
  | [], literals, out => if out.size + literals.length ≤ limit then some (out ++ literals) else none
  | sequence :: sequences, literals, out =>
    match Bytes.cut? sequence.literals literals with
    | none => none
    | some (head, literals) =>
      if out.size + head.length + sequence.length ≤ limit then
        match History.copy? (out ++ head) sequence.distance sequence.length with
        | none => none
        | some out => perform? limit sequences literals out
      else none

end Sequence

end WriteAhead.Zstd
