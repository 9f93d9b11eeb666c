import WriteAhead.Checksum.XxHash
import WriteAhead.Compression.Lz4.Block

/-!
LZ4 frames: a header that fixes the largest block and which checksums are there, then blocks up to
an end mark. Input may also end where a block would begin.
-/

namespace WriteAhead.Lz4

def magic : Nat := 0x184D2204

/-- Frames of the old form have no header behind this number. -/
def oldMagic : Nat := 0x184C2102

structure Header where
  maxBlock : Nat
  linked : Bool := false
  blockChecksums : Bool := false
  contentChecksum : Bool := false
  contentSize : Option Nat := none

namespace Header

def maxBlock? (code : Nat) : Option Nat :=
  match code with
  | 4 => some (64 * 1024)
  | 5 => some (256 * 1024)
  | 6 => some (1024 * 1024)
  | 7 => some (4 * 1024 * 1024)
  | _ => none

def old : Header where maxBlock := 8 * 1024 * 1024

def checksumByte (fields : Bytes) : UInt8 :=
  (xxHash32 fields >>> 8).toUInt8

/-- Reads the fields behind the magic number and the checksum over them. A dictionary is refused. -/
def read? (bytes : Bytes) : Option (Header × Bytes) :=
  match bytes with
  | flags :: sizes :: rest => do
    let maxBlock ← maxBlock? (sizes.toNat / 16 % 8)
    if flags &&& 0xC3 = 0x40 ∧ sizes &&& 0x8F = 0 then
      let sized := flags &&& 0x08 ≠ 0
      let (size, rest) ← Bytes.cut? (if sized then 8 else 0) rest
      let (checksum, rest) ← Bytes.cut? 1 rest
      if checksum = [checksumByte (flags :: sizes :: size)] then
        some ({ maxBlock
                linked := flags &&& 0x20 = 0
                blockChecksums := flags &&& 0x10 ≠ 0
                contentChecksum := flags &&& 0x04 ≠ 0
                contentSize := if sized then some (Bytes.number size) else none }, rest)
      else none
    else none
  | _ => none

end Header

def windowSize : Nat := 64 * 1024

/-- Where blocks that refer to each other are unpacked to: a ring with room for two blocks and a
window. Once it is full, the next block starts over, and the window before it stays where it is. -/
structure Ring where
  start : Nat := 0
  windowStart : Nat := 0
  windowLength : Nat := 0

namespace Ring

def turn (maxBlock : Nat) (r : Ring) : Ring :=
  if r.start + maxBlock > 2 * maxBlock + windowSize then ⟨0, r.start - windowSize, windowSize⟩
  else
    let spare := min r.windowLength (r.start + r.windowLength - windowSize)
    ⟨r.start, r.windowStart + spare, r.windowLength - spare⟩

/-- How much a block may unpack to without overwriting the window. -/
def room (maxBlock : Nat) (r : Ring) : Nat :=
  if r.windowLength = 0 then maxBlock else r.windowStart - r.start

def advance (n : Nat) (r : Ring) : Ring := { r with start := r.start + n }

end Ring

def checked? (called : Bool) (content rest : Bytes) : Option Bytes :=
  if called then do
    let (checksum, rest) ← Bytes.number? 4 rest
    if (xxHash32 content).toNat = checksum then some rest else none
  else some rest

inductive BlockHeader
  | endMark
  | content (length : Nat) (packed : Bool)

/-- What is added to the length of a block that is not packed. -/
def storedFlag : Nat := 0x80000000

def BlockHeader.ofNumber (n : Nat) : BlockHeader :=
  if n = 0 then .endMark else if n < storedFlag then .content n true else .content (n - storedFlag) false

/-- Reads the bytes of a block, which may not be longer than the header allows. -/
def payload? (header : Header) (length : Nat) (bytes : Bytes) : Option (Bytes × Bytes) :=
  if length ≤ header.maxBlock then do
    let (payload, rest) ← Bytes.cut? length bytes
    let rest ← checked? header.blockChecksums payload rest
    some (payload, rest)
  else none

def unpack? (header : Header) (room : Nat) (packed : Bool) (payload : Bytes) (out : History) : Option History :=
  if ¬ packed then some (out ++ payload)
  else if header.linked then Block.decompress (out.size + room) payload out
  else (Block.decompress header.maxBlock payload #[]).map (out ++ ·)

def finish? (header : Header) (bytes : Bytes) (out : History) : Option Bytes :=
  if header.contentSize.all (· == out.size) then
    (checked? header.contentChecksum out.toList bytes).map fun _ => out.toList
  else none

theorem checked?_length {called : Bool} {content rest after : Bytes}
    (h : checked? called content rest = some after) : after.length ≤ rest.length := by
  unfold checked? at h
  split at h
  · simp only [Option.bind_eq_bind, Option.bind_eq_some_iff, Prod.exists] at h
    obtain ⟨_, _, hn, h⟩ := h
    have := Bytes.length_of_number? hn
    split at h
    · cases h
      omega
    · cases h
  · cases h
    exact Nat.le_refl _

theorem payload?_length {header : Header} {length : Nat} {bytes payload rest : Bytes}
    (h : payload? header length bytes = some (payload, rest)) : rest.length ≤ bytes.length := by
  unfold payload? at h
  split at h
  · simp only [Option.bind_eq_bind, Option.bind_eq_some_iff, Prod.exists, Option.some.injEq,
      Prod.mk.injEq] at h
    obtain ⟨_, _, h1, _, h2, rfl, rfl⟩ := h
    have := Bytes.length_of_cut? h1
    have := checked?_length h2
    omega
  · simp at h

/-- Unpacks blocks up to the end mark, the end of the input, or a block that holds nothing. -/
def blocks (header : Header) (bytes : Bytes) (ring : Ring) (out : History) : Option Bytes :=
  match hc : Bytes.cut? 4 bytes with
  | none => some out.toList
  | some (head, rest) =>
    match BlockHeader.ofNumber (Bytes.number head) with
    | .endMark => finish? header rest out
    | .content length packed =>
      match hp : payload? header length rest with
      | none => none
      | some (payload, after) =>
        have : after.length < bytes.length := by
          have := payload?_length hp
          have := Bytes.length_of_cut? hc
          omega
        let ring := ring.turn header.maxBlock
        match unpack? header (ring.room header.maxBlock) packed payload out with
        | none => none
        | some grown =>
          if grown.size = out.size then some out.toList
          else blocks header after (ring.advance (grown.size - out.size)) grown
termination_by bytes.length

/-- The magic number alone is an empty frame, and so is no input at all. -/
def decompress (bytes : Bytes) : Option Bytes :=
  if bytes.isEmpty then some []
  else do
    let (number, rest) ← Bytes.number? 4 bytes
    if number = oldMagic then blocks .old rest {} #[]
    else if rest.isEmpty then some []
    else if number = magic then
      let (header, rest) ← Header.read? rest
      blocks header rest {} #[]
    else none

end WriteAhead.Lz4
