import WriteAhead.Compression.Codec
import WriteAhead.Compression.Matching
import WriteAhead.Compression.Zstd.Frame

/-!
Writing Zstandard frames: blocks that are stored, or one repeated byte.
-/

namespace WriteAhead.Zstd

def maxStored : Nat := 128 * 1024

/-- A frame of unknown size, with a window of two megabytes and no checksum. -/
def frameHeader : Bytes := Bytes.littleEndian 4 magic ++ [0, 0x58]

def blockHeader (last : Bool) (kind size : Nat) : Bytes :=
  Bytes.littleEndian 3 (last.toNat + 2 * kind + 8 * size)

def storedBlock (last : Bool) (raw : Bytes) : Bytes :=
  blockHeader last 0 raw.length ++ raw

/-- A block of one repeated byte, if `raw` is that and not short. -/
def repeatedBlock (last : Bool) (raw : Bytes) : Bytes :=
  match raw with
  | a :: b :: rest =>
    if b = a ∧ rest.all (· == a) then blockHeader last 1 raw.length ++ [a] else storedBlock last raw
  | raw => storedBlock last raw

/-- Cuts `raw` into blocks, of which there is at least one, and writes each. -/
def inBlocks (write : Bool → Bytes → Bytes) (raw : Bytes) : Bytes :=
  if raw.length ≤ maxStored then write true raw
  else write false (raw.take maxStored) ++ inBlocks write (raw.drop maxStored)
termination_by raw.length
decreasing_by
  simp only [maxStored, List.length_drop] at *
  omega

def compress (raw : Bytes) : Bytes :=
  readingBack decompress raw (frameHeader ++ inBlocks repeatedBlock raw) (frameHeader ++ inBlocks storedBlock raw)

theorem read?_frameHeader (rest : Bytes) :
    Header.read? ([0, 0x58] ++ rest) = some (⟨1 <<< 21, none, false⟩, rest) := by
  have hflags : Bytes.number? 1 (0 :: 0x58 :: rest) = some (0, 0x58 :: rest) := rfl
  have hexponent : Bytes.number? 1 (0x58 :: rest) = some (88, rest) := by
    simp [Bytes.number?, Bytes.cut?, Bytes.number]
  have hdictionary : Bytes.number? 0 rest = some (0, rest) := Bytes.number?_littleEndian 0 0 rest
  have hwindow : Header.readWindow? false (0x58 :: rest) = some (1 <<< 21, rest) := by
    have hfraction : 88 % 8 = 0 := rfl
    have hbase : 10 + 88 / 8 = 21 := rfl
    simp only [Header.readWindow?, if_neg Bool.false_ne_true, hexponent, Option.bind_eq_bind, Option.bind_some,
      hfraction, Nat.mul_zero, Nat.add_zero, hbase]
    exact if_pos (by decide)
  change Header.read? (0 :: 0x58 :: rest) = _
  rw [Header.read?, hflags]
  simp only [Option.bind_eq_bind, Option.bind_some]
  have hsingle : (0 / 32 % 2 == 1) = false := rfl
  have hsize : Header.readSize? (Header.sizeWidth 0) rest = some (none, rest) := rfl
  rw [hsingle, hwindow, Option.bind_some, Header.dictionaryWidth]
  have hchecksum : decide (0 / 4 % 2 = 1) = false := by decide
  simp only [hdictionary, hsize, Option.bind_some, and_self, if_true, hchecksum, if_neg Bool.false_ne_true]

theorem read?_blockHeader (last : Bool) {raw : Bytes} (h : raw.length ≤ maxStored) (rest : Bytes) :
    BlockHeader.read? (storedBlock last raw ++ rest) = some (⟨last, 0, raw.length⟩, raw ++ rest) := by
  have hb : last.toNat ≤ 1 := Bool.toNat_le last
  have hn : last.toNat + 2 * 0 + 8 * raw.length < Bytes.limit 3 := by
    have hlimit : Bytes.limit 3 = 16777216 := rfl
    simp only [maxStored] at h
    omega
  have hlast : (last.toNat + 2 * 0 + 8 * raw.length) % 2 = last.toNat := by omega
  have hkind : (last.toNat + 2 * 0 + 8 * raw.length) / 2 % 4 = 0 := by omega
  have hsize : (last.toNat + 2 * 0 + 8 * raw.length) / 8 = raw.length := by omega
  rw [storedBlock, blockHeader, List.append_assoc, BlockHeader.read?, Bytes.number?_append 3 hn, Option.map_some]
  simp only [hlast, hkind, hsize]
  cases last <;> rfl

theorem blocks_storedBlock {header : Header} (hw : maxStored ≤ header.window) (hu : header.isWhole = false)
    {raw : Bytes} (h : raw.length ≤ maxStored) (last : Bool) (carry : Carry) (rest : Bytes) (out : History) :
    blocks header carry (storedBlock last raw ++ rest) out =
      if last then some (out ++ raw, !raw.isEmpty, rest) else blocks header carry rest (out ++ raw) := by
  have hcut := Bytes.cut?_append raw rest
  have hblock : block? header ⟨last, 0, raw.length⟩ carry raw out = some (out ++ raw, carry) := by
    have hmax : out.size + raw.length ≤ out.size + header.maxBlock := by
      simp only [maxStored] at h hw
      rw [Header.maxBlock]
      omega
    simp [block?, hu, hmax]
  rw [blocks]
  split
  · next hx =>
    rw [read?_blockHeader last h] at hx
    cases hx
  · next hx =>
    rw [read?_blockHeader last h] at hx
    cases hx
    have hl : (⟨last, 0, raw.length⟩ : BlockHeader).length = raw.length := rfl
    split
    · next hx =>
      rw [hl, hcut] at hx
      cases hx
    · next hx =>
      rw [hl, hcut] at hx
      cases hx
      rw [hblock]

theorem blocks_inBlocks (header : Header) (hw : maxStored ≤ header.window) (hu : header.isWhole = false)
    (raw : Bytes) (carry : Carry) (out : History) :
    ∃ ended, blocks header carry (inBlocks storedBlock raw) out = some (out ++ raw, ended, []) := by
  fun_induction inBlocks storedBlock raw generalizing out with
  | case1 raw h =>
    have hb := blocks_storedBlock hw hu h true carry [] out
    rw [List.append_nil, if_pos rfl] at hb
    exact ⟨_, hb⟩
  | case2 raw h ih =>
    have ht : (raw.take maxStored).length ≤ maxStored := List.length_take_le _ _
    obtain ⟨ended, hr⟩ := ih (out ++ raw.take maxStored)
    refine ⟨ended, ?_⟩
    rw [blocks_storedBlock hw hu ht, if_neg Bool.false_ne_true, hr, History.append_append, List.take_append_drop]

theorem decompress_store (raw : Bytes) : decompress (frameHeader ++ inBlocks storedBlock raw) = some raw := by
  obtain ⟨ended, hb⟩ := blocks_inBlocks ⟨1 <<< 21, none, false⟩ (by decide) rfl raw {} #[]
  have hf : frame? ([0, 0x58] ++ inBlocks storedBlock raw) = some (raw, []) := by
    have hw : 1 <<< 21 ≤ maxWindow := by decide
    simp only [frame?, read?_frameHeader, Option.bind_eq_bind, Option.bind_some, hb, hw, or_true, if_true]
    simp [sized]
  have hn : next? (frameHeader ++ inBlocks storedBlock raw) = some (raw, []) := by
    have hm := Bytes.number?_append 4 (n := magic) (by decide) ([0, 0x58] ++ inBlocks storedBlock raw)
    rw [frameHeader, List.append_assoc]
    simp only [next?, hm, Option.bind_eq_bind, Option.bind_some, if_true, hf]
  rw [decompress, frames]
  split
  · next hx =>
    rw [hn] at hx
    cases hx
  · next hx =>
    rw [hn] at hx
    cases hx
    simp

def codec : Codec where
  compress raw := some (compress raw)
  decompress := decompress
  decompress_compress h := by
    cases h
    exact decompress_readingBack (decompress_store _)

end WriteAhead.Zstd
