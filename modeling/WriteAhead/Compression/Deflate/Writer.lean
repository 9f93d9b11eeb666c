import WriteAhead.Compression.Deflate
import WriteAhead.Compression.Matching

/-!
Writing deflate streams: blocks that are stored, or one block under the fixed codes.
-/

namespace WriteAhead.Deflate

def maxStored : Nat := 65535

/-- A stored block behind a byte that says whether it is the last one. -/
def storedBlock (last : Bool) (bytes : Bytes) : Bytes :=
  (if last then 1 else 0) :: Bytes.littleEndian 2 bytes.length ++
    Bytes.littleEndian 2 (maxStored - bytes.length) ++ bytes

def store (raw : Bytes) : Bytes :=
  if raw.length ≤ maxStored then storedBlock true raw
  else storedBlock false (raw.take maxStored) ++ store (raw.drop maxStored)
termination_by raw.length
decreasing_by
  simp only [maxStored, List.length_drop] at *
  omega

def lowBits : Nat → Nat → List Bool
  | 0, _ => []
  | n + 1, v => (v % 2 == 1) :: lowBits n (v / 2)

def fixedWord (symbol : Nat) : List Bool :=
  if symbol < 144 then (lowBits 8 (symbol + 48)).reverse
  else if symbol < 256 then (lowBits 9 (symbol + 256)).reverse
  else if symbol < 280 then (lowBits 7 (symbol - 256)).reverse
  else (lowBits 8 (symbol - 88)).reverse

/-- The last class whose least number is at most `n`, and the bits that tell `n` from it. -/
def classOf (classes : Array (Nat × Nat)) (n : Nat) : Nat × List Bool :=
  let symbol := (classes.toList.filter (·.1 ≤ n)).length - 1
  let (least, bits) := classes.getD symbol (0, 0)
  (symbol, lowBits bits (n - least))

def matchBits (m : Match) : List Bool :=
  let (length, lengthBits) := classOf lengthClasses m.length
  let (distance, distanceBits) := classOf distanceClasses m.distance
  m.literals.flatMap (fun b => fixedWord b.toNat) ++ fixedWord (length + 257) ++ lengthBits ++
    (lowBits 5 distance).reverse ++ distanceBits

def pack : List Bool → Array UInt8 → Array UInt8
  | [], out => out
  | a :: bits, out =>
    let digits := a :: bits.take 7
    pack (bits.drop 7) (out.push (UInt8.ofNat (digits.foldr (fun bit n => bit.toNat + 2 * n) 0)))
termination_by bits => bits.length
decreasing_by
  simp only [List.length_drop, List.length_cons]
  omega

def bounds : Plan.Bounds := ⟨32768, 258⟩

def squeeze (raw : Bytes) : Bytes :=
  let plan := Plan.ofBytes bounds raw
  let bits := lowBits 3 3 ++ plan.steps.flatMap matchBits ++
    plan.rest.flatMap (fun b => fixedWord b.toNat) ++ fixedWord 256
  (pack bits #[]).toList

theorem stored?_append {raw : Bytes} (h : raw.length ≤ maxStored) {s : BitStream} {rest : Bytes}
    (hs : s.aligned = Bytes.littleEndian 2 raw.length ++ Bytes.littleEndian 2 (maxStored - raw.length) ++ raw ++ rest)
    (out : History) : stored? s out = some (.ofBytes rest, out ++ raw) := by
  simp only [maxStored] at h hs
  have hlimit : Bytes.limit 2 = 65536 := rfl
  have hl := Bytes.number?_append 2 (n := raw.length) (by omega)
    (Bytes.littleEndian 2 (65535 - raw.length) ++ raw ++ rest)
  have hc := Bytes.number?_append 2 (n := 65535 - raw.length) (by omega) (raw ++ rest)
  have hsum : raw.length + (65535 - raw.length) = 65535 := by omega
  simp only [List.append_assoc] at hl hc hs
  simp only [stored?, hs, hl, hc, Option.bind_eq_bind, Option.bind_some, hsum, if_true, Bytes.cut?_append]

theorem number?_storedBlock (last : Bool) (raw rest : Bytes) :
    (BitStream.ofBytes (storedBlock last raw ++ rest)).number? 3 =
      some (last.toNat, ⟨storedBlock last raw ++ rest, 3⟩) := by
  have h1 : ((1 : UInt8) >>> 1 &&& 1 == 1) = false := by decide
  have h2 : ((1 : UInt8) >>> 2 &&& 1 == 1) = false := by decide
  cases last <;> simp [BitStream.number?, BitStream.next?, BitStream.ofBytes, storedBlock, h1, h2]

theorem blocks_storedBlock {raw : Bytes} (h : raw.length ≤ maxStored) (last : Bool) (rest : Bytes) (out : History) :
    blocks (.ofBytes (storedBlock last raw ++ rest)) out =
      if last then some (out ++ raw, rest) else blocks (.ofBytes rest) (out ++ raw) := by
  have ha : (⟨storedBlock last raw ++ rest, 3⟩ : BitStream).aligned =
      Bytes.littleEndian 2 raw.length ++ Bytes.littleEndian 2 (maxStored - raw.length) ++ raw ++ rest := by
    simp [storedBlock, BitStream.aligned]
  have hs := stored?_append h ha out
  have hk : content? (last.toNat / 2) ⟨storedBlock last raw ++ rest, 3⟩ out = some (.ofBytes rest, out ++ raw) := by
    cases last <;> exact hs
  rw [blocks]
  split
  · next hx =>
    rw [number?_storedBlock] at hx
    cases hx
  · next header t hx =>
    rw [number?_storedBlock] at hx
    cases hx
    split
    · next hx =>
      rw [hk] at hx
      cases hx
    · next u v hx =>
      rw [hk] at hx
      cases hx
      cases last <;> rfl

theorem blocks_store (raw rest : Bytes) (out : History) :
    blocks (.ofBytes (store raw ++ rest)) out = some (out ++ raw, rest) := by
  fun_induction store raw generalizing out with
  | case1 raw h => rw [blocks_storedBlock h, if_pos rfl]
  | case2 raw h ih =>
    have ht : (raw.take maxStored).length ≤ maxStored := List.length_take_le _ _
    rw [List.append_assoc, blocks_storedBlock ht, if_neg Bool.false_ne_true, ih, History.append_append,
      List.take_append_drop]

theorem inflate_store (raw rest : Bytes) : inflate (store raw ++ rest) = some (raw, rest) := by
  rw [inflate, blocks_store, Option.map_some]
  simp

end WriteAhead.Deflate
