import WriteAhead.Compression.Codec
import WriteAhead.Compression.Lz4.Frame
import WriteAhead.Compression.Matching

/-!
Writing LZ4 frames: independent blocks without checksums, packed or stored.
-/

namespace WriteAhead.Lz4

inductive BlockSize
  | max64Kb
  | max256Kb
  | max1Mb
  | max4Mb
  deriving DecidableEq

def BlockSize.code : BlockSize → Nat
  | max64Kb => 4
  | max256Kb => 5
  | max1Mb => 6
  | max4Mb => 7

def BlockSize.bytes (size : BlockSize) : Nat := 256 <<< (2 * size.code)

def Header.fields (size : BlockSize) : Bytes := [0x60, UInt8.ofNat (16 * size.code)]

def Header.written (size : BlockSize) : Bytes :=
  Bytes.littleEndian 4 magic ++ fields size ++ [checksumByte (fields size)]

namespace Block

/-- What is beyond the highest four-bit length, as bytes that add up to it. -/
def extension (n : Nat) : Bytes :=
  if n < 15 then [] else List.replicate ((n - 15) / 255) 255 ++ [UInt8.ofNat ((n - 15) % 255)]

def token (literals copied : Nat) : UInt8 := UInt8.ofNat (16 * min literals 15 + min copied 15)

def ofMatch (m : Match) : Bytes :=
  token m.literals.length (m.length - 4) :: extension m.literals.length ++ m.literals ++
    Bytes.littleEndian 2 m.distance ++ extension (m.length - 4)

def ofPlan (plan : Plan) : Bytes :=
  plan.steps.flatMap ofMatch ++ token plan.rest.length 0 :: extension plan.rest.length ++ plan.rest

def bounds : Plan.Bounds := ⟨65535, storedFlag⟩

end Block

def storedBlock (raw : Bytes) : Bytes :=
  Bytes.littleEndian 4 (storedFlag + raw.length) ++ raw

def packedBlock (raw : Bytes) : Bytes :=
  let packed := Block.ofPlan (Plan.ofBytes Block.bounds raw)
  if packed.length < raw.length then Bytes.littleEndian 4 packed.length ++ packed else storedBlock raw

/-- Cuts `raw` into blocks of `size`, the last one perhaps shorter, and writes each. -/
def inBlocks (write : Bytes → Bytes) (size : Nat) (raw : Bytes) : Bytes :=
  if raw = [] ∨ size = 0 then []
  else write (raw.take size) ++ inBlocks write size (raw.drop size)
termination_by raw.length
decreasing_by
  obtain ⟨hr, hs⟩ := not_or.1 ‹_›
  have := List.length_pos_iff.2 hr
  simp only [List.length_drop]
  omega

def frame (write : Bytes → Bytes) (size : BlockSize) (raw : Bytes) : Bytes :=
  Header.written size ++ inBlocks write size.bytes raw ++ Bytes.littleEndian 4 0

def compress (size : BlockSize) (raw : Bytes) : Bytes :=
  readingBack decompress raw (frame packedBlock size raw) (frame storedBlock size raw)

theorem read?_written (size : BlockSize) (rest : Bytes) :
    Header.read? (Header.fields size ++ [Header.checksumByte (Header.fields size)] ++ rest) =
      some ({ maxBlock := size.bytes }, rest) := by
  cases size <;>
    simp +decide [Header.read?, Header.fields, BlockSize.code, Header.maxBlock?, Bytes.cut?, BlockSize.bytes]

theorem blocks_endMark (header : Header) (hs : header.contentSize = none) (hc : header.contentChecksum = false)
    (ring : Ring) (out : History) : blocks header (Bytes.littleEndian 4 0) ring out = some out.toList := by
  have hcut : Bytes.cut? 4 (Bytes.littleEndian 4 0) = some (Bytes.littleEndian 4 0, []) := rfl
  rw [blocks]
  split
  · rfl
  · next head rest hx =>
    rw [hcut] at hx
    cases hx
    simp [BlockHeader.ofNumber, Bytes.number_littleEndian, finish?, hs, hc, checked?]

theorem blocks_storedBlock {header : Header} (hb : header.blockChecksums = false) {raw : Bytes} (hne : raw ≠ [])
    (hlen : raw.length ≤ header.maxBlock) (hmax : header.maxBlock < storedFlag) (rest : Bytes) (ring : Ring)
    (out : History) :
    ∃ ring', blocks header (storedBlock raw ++ rest) ring out = blocks header rest ring' (out ++ raw) := by
  have hcut := Bytes.cut?_append (Bytes.littleEndian 4 (storedFlag + raw.length)) (raw ++ rest)
  rw [Bytes.length_littleEndian, ← List.append_assoc] at hcut
  have hnum : Bytes.number (Bytes.littleEndian 4 (storedFlag + raw.length)) = storedFlag + raw.length := by
    have hflag : storedFlag + storedFlag = UInt32.size := rfl
    rw [Bytes.number_littleEndian, Bytes.limit_four]
    exact Nat.mod_eq_of_lt (by omega)
  have hof : BlockHeader.ofNumber (storedFlag + raw.length) = .content raw.length false := by
    have h0 : ¬ storedFlag + raw.length = 0 := by omega
    have h1 : ¬ storedFlag + raw.length < storedFlag := by omega
    rw [BlockHeader.ofNumber, if_neg h0, if_neg h1, Nat.add_sub_cancel_left]
  have hpay : payload? header raw.length (raw ++ rest) = some (raw, rest) := by
    simp [payload?, hlen, checked?, hb]
  have hgrown : ¬ (out ++ raw).size = out.size := by
    have := List.length_pos_iff.2 hne
    rw [History.size_append]
    omega
  refine ⟨(ring.turn header.maxBlock).advance ((out ++ raw).size - out.size), ?_⟩
  rw [blocks]
  split
  · next hx =>
    rw [storedBlock, hcut] at hx
    cases hx
  · next head after hx =>
    rw [storedBlock, hcut] at hx
    cases hx
    rw [hnum, hof]
    dsimp only
    split
    · next hx =>
      rw [hpay] at hx
      cases hx
    · next payload tail hx =>
      rw [hpay] at hx
      cases hx
      simp only [unpack?, Bool.false_eq_true, not_false_eq_true, if_true]
      rw [if_neg hgrown]

theorem blocks_inBlocks (header : Header) (hb : header.blockChecksums = false) (hs : header.contentSize = none)
    (hc : header.contentChecksum = false) (hmax : header.maxBlock < storedFlag) {size : Nat} (hsize : 0 < size)
    (hle : size ≤ header.maxBlock) (raw : Bytes) (ring : Ring) (out : History) :
    blocks header (inBlocks storedBlock size raw ++ Bytes.littleEndian 4 0) ring out = some (out ++ raw).toList := by
  fun_induction inBlocks storedBlock size raw generalizing ring out with
  | case1 raw h =>
    have hnil : raw = [] := h.resolve_right (Nat.ne_of_gt hsize)
    subst hnil
    simp [blocks_endMark header hs hc]
  | case2 raw h ih =>
    obtain ⟨hne, -⟩ := not_or.1 h
    have hlen : (raw.take size).length ≤ header.maxBlock := Nat.le_trans (List.length_take_le _ _) hle
    have htake : raw.take size ≠ [] := by
      simp [hne, Nat.ne_of_gt hsize]
    obtain ⟨ring', hr⟩ := blocks_storedBlock hb htake hlen hmax
      (inBlocks storedBlock size (raw.drop size) ++ Bytes.littleEndian 4 0) ring out
    rw [List.append_assoc, hr, ih, History.append_append, List.take_append_drop]

theorem decompress_frame (size : BlockSize) (raw : Bytes) : decompress (frame storedBlock size raw) = some raw := by
  have hn := Bytes.number?_append 4 (n := magic) (by decide)
    (Header.fields size ++ [Header.checksumByte (Header.fields size)] ++
      (inBlocks storedBlock size.bytes raw ++ Bytes.littleEndian 4 0))
  have hsize : 0 < size.bytes ∧ size.bytes < storedFlag := by cases size <;> decide
  have hb := blocks_inBlocks { maxBlock := size.bytes } rfl rfl rfl hsize.2 hsize.1
    (Nat.le_refl _) raw {} #[]
  have hold : magic ≠ oldMagic := by decide
  have hframe : frame storedBlock size raw = Bytes.littleEndian 4 magic ++
      (Header.fields size ++ [Header.checksumByte (Header.fields size)] ++
        (inBlocks storedBlock size.bytes raw ++ Bytes.littleEndian 4 0)) := by
    simp [frame, Header.written]
  have he : (frame storedBlock size raw).isEmpty = false := by
    simp [hframe, Bytes.littleEndian]
  rw [decompress, he, hframe]
  simp only [Bool.false_eq_true, if_false, hn, Option.bind_eq_bind, Option.bind_some, hold, read?_written, if_true, hb]
  simp [Header.fields]

/-- The size of the blocks does not matter for reading. -/
def codec (size : BlockSize) : Codec where
  compress raw := some (compress size raw)
  decompress := decompress
  decompress_compress h := by
    cases h
    exact decompress_readingBack (decompress_frame size _)

end WriteAhead.Lz4
