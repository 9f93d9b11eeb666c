import WriteAhead.Checksum.XxHash
import WriteAhead.Compression.Zstd.Literals
import WriteAhead.Compression.Zstd.Sequences

/-!
Zstandard frames: a header, blocks that are stored, one repeated byte, or packed, and a checksum.
Frames follow each other, and frames meant to be skipped may stand between them.
-/

namespace WriteAhead.Zstd

def magic : Nat := 0xFD2FB528

/-- Frames to skip have one of sixteen numbers from this on. -/
def skipMagic : Nat := 0x184D2A50

def maxWindow : Nat := (1 <<< 27) + 1

/-- Content of a known size up to this is unpacked in one go, without a window. -/
def maxWhole : Nat := 8192

structure Header where
  window : Nat
  contentSize : Option Nat
  checksum : Bool

namespace Header

/-- Reads the size of the window; a `single` segment has none. -/
def readWindow? (single : Bool) (bytes : Bytes) : Option (Nat × Bytes) :=
  if single then some (0, bytes)
  else do
    let (b, rest) ← Bytes.number? 1 bytes
    let base := 1 <<< (10 + b / 8)
    if b / 8 ≤ 21 then some (base + base / 8 * (b % 8), rest) else none

/-- Reads the size of the content, of which only two bytes count from 256. -/
def readSize? (width : Nat) (bytes : Bytes) : Option (Option Nat × Bytes) :=
  if width = 0 then some (none, bytes)
  else (Bytes.number? width bytes).map fun (n, rest) => (some (if width = 2 then n + 256 else n), rest)

def dictionaryWidth (flags : Nat) : Nat :=
  match flags % 4 with
  | 0 => 0
  | 1 => 1
  | 2 => 2
  | _ => 4

def sizeWidth (flags : Nat) : Nat :=
  match flags / 64 with
  | 0 => if flags / 32 % 2 = 1 then 1 else 0
  | 1 => 2
  | 2 => 4
  | _ => 8

/-- A dictionary is refused, and so is the reserved bit. -/
def read? (bytes : Bytes) : Option (Header × Bytes) := do
  let (flags, rest) ← Bytes.number? 1 bytes
  let single := flags / 32 % 2 == 1
  let (window, rest) ← readWindow? single rest
  let (dictionary, rest) ← Bytes.number? (dictionaryWidth flags) rest
  let (contentSize, rest) ← readSize? (sizeWidth flags) rest
  if flags / 8 % 2 = 0 ∧ dictionary = 0 then
    some (⟨if single then contentSize.getD 0 else window, contentSize, flags / 4 % 2 = 1⟩, rest)
  else none

def maxBlock (header : Header) : Nat := min header.window (128 * 1024)

def isWhole (header : Header) : Bool := header.contentSize.any (· ≤ maxWhole)

end Header

structure Carry where
  code : Option Huffman := none
  tables : Option Tables := none
  recent : Recent := {}

/-- Unpacks a packed block behind `out`, which may not grow beyond `limit`. -/
def packed? (maxBlock limit : Nat) (carry : Carry) (bytes : Bytes) (out : History) :
    Option (History × Carry) := do
  let (literals, rest) ← Literals.read? maxBlock carry.code bytes
  let (count, rest) ← Sequence.count? rest
  match count with
  | 0 =>
    if rest.isEmpty then
      let out ← Sequence.perform? limit [] literals.bytes out
      some (out, { carry with code := literals.code })
    else none
  | n + 1 =>
    let (tables, rest) ← Tables.read? carry.tables rest
    let bits ← BackwardBits.ofBytes? rest
    let reader ← Sequence.Reader.start? tables bits
    let (sequences, recent) ← Sequence.readAll? tables n reader carry.recent []
    let out ← Sequence.perform? limit sequences literals.bytes out
    some (out, ⟨literals.code, some tables, recent⟩)

structure BlockHeader where
  last : Bool
  kind : Nat
  size : Nat

def BlockHeader.read? (bytes : Bytes) : Option (BlockHeader × Bytes) :=
  (Bytes.number? 3 bytes).map fun (n, rest) => (⟨n % 2 = 1, n / 2 % 4, n / 8⟩, rest)

def BlockHeader.length (block : BlockHeader) : Nat :=
  if block.kind = 1 then 1 else block.size

/-- Unpacks one block. Content that is unpacked in one go is bounded as a whole, and a block of it
is never empty of bytes if it is packed. -/
def block? (header : Header) (block : BlockHeader) (carry : Carry) (payload : Bytes) (out : History) :
    Option (History × Carry) :=
  let limit := if header.isWhole then maxWhole else out.size + header.maxBlock
  match block.kind with
  | 0 => if out.size + block.size ≤ limit then some (out ++ payload, carry) else none
  | 1 =>
    if out.size + block.size ≤ limit then some (out ++ payload.flatMap (List.replicate block.size), carry) else none
  | 2 =>
    if payload.isEmpty ∧ ¬ header.isWhole then some (out, carry)
    else if payload.length ≤ header.maxBlock then packed? header.maxBlock limit carry payload out
    else none
  | _ => none

theorem BlockHeader.read?_length {bytes rest : Bytes} {block : BlockHeader}
    (h : BlockHeader.read? bytes = some (block, rest)) : bytes.length = 3 + rest.length := by
  simp only [BlockHeader.read?, Option.map_eq_some_iff, Prod.mk.injEq, Prod.exists] at h
  obtain ⟨_, _, hn, _, rfl⟩ := h
  exact Bytes.length_of_number? hn

/-- Unpacks blocks up to the last one; says whether that one had any bytes. -/
def blocks (header : Header) (carry : Carry) (bytes : Bytes) (out : History) : Option (History × Bool × Bytes) :=
  match hb : BlockHeader.read? bytes with
  | none => none
  | some (block, rest) =>
    match hc : Bytes.cut? block.length rest with
    | none => none
    | some (payload, after) =>
      have : after.length < bytes.length := by
        have := BlockHeader.read?_length hb
        have := Bytes.length_of_cut? hc
        omega
      match block? header block carry payload out with
      | none => none
      | some (out, carry) =>
        if block.last then some (out, !payload.isEmpty, after) else blocks header carry after out
termination_by bytes.length

/-- Checks the size that the header promised; content that is unpacked piece by piece is only
measured when a block with bytes ends it. -/
def sized (header : Header) (ended : Bool) (size : Nat) : Bool :=
  !(ended || header.isWhole) || header.contentSize.all (· == size)

def frame? (bytes : Bytes) : Option (Bytes × Bytes) := do
  let (header, rest) ← Header.read? bytes
  if header.isWhole ∨ header.window ≤ maxWindow then
    let (out, ended, rest) ← blocks header {} rest #[]
    let content := out.toList
    if sized header ended out.size then
      if header.checksum then
        let (checksum, rest) ← Bytes.number? 4 rest
        if (xxHash64 content).toNat % UInt32.size = checksum then some (content, rest) else none
      else some (content, rest)
    else none
  else none

def skipped? (bytes : Bytes) : Option Bytes := do
  let (size, rest) ← Bytes.number? 4 bytes
  let (_, rest) ← Bytes.cut? size rest
  some rest

def next? (bytes : Bytes) : Option (Bytes × Bytes) := do
  let (number, rest) ← Bytes.number? 4 bytes
  if number = magic then frame? rest
  else if number / 16 = skipMagic / 16 then (skipped? rest).map fun rest => ([], rest)
  else none

theorem skipped?_length {bytes rest : Bytes} (h : skipped? bytes = some rest) :
    rest.length ≤ bytes.length := by
  simp only [skipped?, Option.bind_eq_bind, Option.bind_eq_some_iff, Prod.exists, Option.some.injEq] at h
  obtain ⟨_, _, h1, _, _, h2, rfl⟩ := h
  have := Bytes.length_of_number? h1
  have := Bytes.length_of_cut? h2
  omega

theorem blocks_length {header : Header} {carry : Carry} {bytes rest : Bytes} {out v : History} {ended : Bool}
    (h : blocks header carry bytes out = some (v, ended, rest)) : rest.length ≤ bytes.length := by
  fun_induction blocks header carry bytes out with
  | case1 => simp at h
  | case2 => simp at h
  | case3 => simp at h
  | case4 =>
    simp only [Option.some.injEq, Prod.mk.injEq] at h
    obtain ⟨_, _, rfl⟩ := h
    omega
  | case5 _ _ _ _ _ _ _ _ _ _ _ _ _ _ ih =>
    have := ih h
    omega

theorem readWindow?_length {single : Bool} {n : Nat} {bytes rest : Bytes}
    (h : Header.readWindow? single bytes = some (n, rest)) : rest.length ≤ bytes.length := by
  unfold Header.readWindow? at h
  split at h
  · simp_all
  · simp only [Option.bind_eq_bind, Option.bind_eq_some_iff, Prod.exists] at h
    obtain ⟨_, _, h1, h⟩ := h
    have := Bytes.length_of_number? h1
    split at h
    · simp only [Option.some.injEq, Prod.mk.injEq] at h
      obtain ⟨_, rfl⟩ := h
      omega
    · simp at h

theorem readSize?_length {width : Nat} {n : Option Nat} {bytes rest : Bytes}
    (h : Header.readSize? width bytes = some (n, rest)) : rest.length ≤ bytes.length := by
  unfold Header.readSize? at h
  split at h
  · simp_all
  · simp only [Option.map_eq_some_iff, Prod.mk.injEq, Prod.exists] at h
    obtain ⟨_, _, hn, _, rfl⟩ := h
    have := Bytes.length_of_number? hn
    omega

theorem header_length {header : Header} {bytes rest : Bytes} (h : Header.read? bytes = some (header, rest)) :
    rest.length ≤ bytes.length := by
  simp only [Header.read?, Option.bind_eq_bind, Option.bind_eq_some_iff, Prod.exists] at h
  obtain ⟨_, _, h1, _, _, h2, _, _, h3, _, _, h4, h⟩ := h
  have := Bytes.length_of_number? h1
  have := readWindow?_length h2
  have := Bytes.length_of_number? h3
  have := readSize?_length h4
  split at h
  · simp only [Option.some.injEq, Prod.mk.injEq] at h
    obtain ⟨_, rfl⟩ := h
    omega
  · simp at h

theorem frame?_length {bytes content rest : Bytes} (h : frame? bytes = some (content, rest)) :
    rest.length ≤ bytes.length := by
  simp only [frame?, Option.bind_eq_bind, Option.bind_eq_some_iff, Prod.exists] at h
  obtain ⟨_, _, h1, h⟩ := h
  have := header_length h1
  split at h
  · simp only [Option.bind_eq_some_iff, Prod.exists] at h
    obtain ⟨_, _, _, h2, h⟩ := h
    have := blocks_length h2
    split at h
    · split at h
      · simp only [Option.bind_eq_some_iff, Prod.exists] at h
        obtain ⟨_, _, h3, h⟩ := h
        have := Bytes.length_of_number? h3
        split at h <;> simp_all
        omega
      · simp_all
        omega
    · simp at h
  · simp at h

theorem next?_length {bytes content rest : Bytes} (h : next? bytes = some (content, rest)) :
    rest.length < bytes.length := by
  simp only [next?, Option.bind_eq_bind, Option.bind_eq_some_iff, Prod.exists] at h
  obtain ⟨_, _, h1, h⟩ := h
  have := Bytes.length_of_number? h1
  split at h
  · have := frame?_length h
    omega
  · split at h
    · simp only [Option.map_eq_some_iff, Prod.mk.injEq] at h
      obtain ⟨_, hs, _, rfl⟩ := h
      have := skipped?_length hs
      omega
    · simp at h

def frames (bytes : Bytes) (out : History) : Option History :=
  match h : next? bytes with
  | none => none
  | some (content, rest) =>
    have := next?_length h
    if rest.isEmpty then some (out ++ content) else frames rest (out ++ content)
termination_by bytes.length

def decompress (bytes : Bytes) : Option Bytes :=
  (frames bytes #[]).map (·.toList)

end WriteAhead.Zstd
