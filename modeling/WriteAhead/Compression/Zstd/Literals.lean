import WriteAhead.Compression.Zstd.Huffman

/-!
The first section of a packed block: its literals, as they are, as one repeated byte, or under a
prefix code, which may be the one used last.
-/

namespace WriteAhead.Zstd

structure Literals where
  bytes : Bytes
  code : Option Huffman

namespace Literals

/-- Reads a number of `width` bytes whose lowest `shift` bits mean something else. -/
def size? (width shift : Nat) (bytes : Bytes) : Option (Nat × Bytes) :=
  (Bytes.number? width bytes).map fun (n, rest) => (n >>> shift, rest)

def plainSize? (format : Nat) (bytes : Bytes) : Option (Nat × Bytes) :=
  match format with
  | 1 => size? 2 4 bytes
  | 3 => size? 3 4 bytes
  | _ => size? 1 3 bytes

/-- The size of packed literals, unpacked and packed, and whether they stand in four streams. -/
def packedSizes? (format : Nat) (bytes : Bytes) : Option ((Nat × Nat × Bool) × Bytes) :=
  let split := fun (width bits : Nat) (four : Bool) =>
    (size? width 4 bytes).map fun (n, rest) => ((n % (1 <<< bits), n >>> bits, four), rest)
  if bytes.length < 5 then none
  else match format with
    | 0 => split 3 10 false
    | 1 => split 3 10 true
    | 2 => split 4 14 true
    | _ => split 5 18 true

/-- The least sizes, unpacked and packed, for which there may be four streams. -/
def leastFour : Nat × Nat := (6, 10)

def unpack? (code : Huffman) (size : Nat) (four : Bool) (packed : Bytes) : Option Bytes :=
  if four then
    if leastFour.1 ≤ size ∧ leastFour.2 ≤ packed.length then (code.unpackFour size packed).map (·.toList)
    else none
  else if size = 0 then none
  else (code.unpack size packed #[]).map (·.toList)

/-- Reads literals of at most `maxSize` bytes; `code` is the prefix code used last. -/
def read? (maxSize : Nat) (code : Option Huffman) (bytes : Bytes) : Option (Literals × Bytes) :=
  match bytes with
  | [] => none
  | b :: _ =>
    let format := b.toNat / 4 % 4
    match b.toNat % 4 with
    | 0 => do
      let (size, rest) ← plainSize? format bytes
      let (content, rest) ← Bytes.cut? size rest
      if size ≤ maxSize then some (⟨content, code⟩, rest) else none
    | 1 => do
      let (size, rest) ← plainSize? format bytes
      let (content, rest) ← Bytes.cut? 1 rest
      if size ≤ maxSize then some (⟨content.flatMap (List.replicate size), code⟩, rest) else none
    | kind => do
      let ((size, length, four), rest) ← packedSizes? format bytes
      let (packed, rest) ← Bytes.cut? length rest
      if size ≤ maxSize then
        let (code, packed) ← if kind = 2 then Huffman.read? packed else code.map (·, packed)
        let content ← unpack? code size four packed
        some (⟨content, some code⟩, rest)
      else none

end Literals

end WriteAhead.Zstd
