import WriteAhead.Compression.Codec
import WriteAhead.Compression.History
import WriteAhead.Compression.Matching

/-!
Raw Snappy: the length of the content as a varint, then literals and copies. The length must be
met exactly.
-/

namespace WriteAhead.Snappy

def maxLength : Nat := UInt32.size - 1

/-- Reads a number of seven bits per byte, lowest first, of which 64 bits are kept. -/
def varint? : Nat → Nat → Bytes → Option (Nat × Bytes)
  | 0, _, _ => none
  | _ + 1, _, [] => none
  | more + 1, shift, b :: rest =>
    if b < 128 then some ((b.toNat <<< shift) % UInt64.size, rest)
    else (varint? more (shift + 7) rest).map fun (high, rest) =>
      (((b.toNat - 128) <<< shift) + high, rest)

def length? (bytes : Bytes) : Option (Nat × Bytes) :=
  (varint? 10 0 bytes).filter (·.1 ≤ maxLength)

inductive Element
  | literal (bytes : Bytes)
  | copy (distance length : Nat)

/-- The length of a literal behind its first byte: 60 and above announce a number of up to four
bytes, and four bytes must be there even if fewer are meant. -/
def literalLength? (code : Nat) (bytes : Bytes) : Option (Nat × Bytes) :=
  if code < 60 then some (code + 1, bytes)
  else do
    let (word, _) ← bytes.cut? 4
    some (Bytes.number (word.take (code - 59)) + 1, bytes.drop (code - 59))

def element? : Bytes → Option (Element × Bytes)
  | [] => none
  | b :: rest =>
    let code := b.toNat / 4
    match b.toNat % 4 with
    | 0 => do
      let (length, rest) ← literalLength? code rest
      let (content, rest) ← rest.cut? length
      some (.literal content, rest)
    | 1 => do
      let (low, rest) ← Bytes.number? 1 rest
      some (.copy (code / 8 * 256 + low) (code % 8 + 4), rest)
    | 2 => do
      let (distance, rest) ← Bytes.number? 2 rest
      some (.copy distance (code + 1), rest)
    | _ => do
      let (distance, rest) ← Bytes.number? 4 rest
      some (.copy distance (code + 1), rest)

theorem literalLength?_length {code v : Nat} {bytes rest : Bytes}
    (h : literalLength? code bytes = some (v, rest)) : rest.length ≤ bytes.length := by
  unfold literalLength? at h
  split at h
  · simp_all
  · simp only [Option.bind_eq_bind, Option.bind_eq_some_iff, Option.some.injEq, Prod.mk.injEq] at h
    obtain ⟨_, _, _, rfl⟩ := h
    simp

theorem element?_length {bytes rest : Bytes} {e : Element} (h : element? bytes = some (e, rest)) :
    rest.length < bytes.length := by
  cases bytes with
  | nil => simp [element?] at h
  | cons b tail =>
    simp only [element?] at h
    split at h
    all_goals
      simp only [Option.bind_eq_bind, Option.bind_eq_some_iff, Prod.exists, Option.some.injEq,
        Prod.mk.injEq] at h
    · obtain ⟨_, _, h1, _, _, h2, _, rfl⟩ := h
      have := literalLength?_length h1
      have := Bytes.length_of_cut? h2
      simp only [List.length_cons]
      omega
    all_goals
      obtain ⟨_, _, h1, _, rfl⟩ := h
      have := Bytes.length_of_number? h1
      simp only [List.length_cons]
      omega

/-- Appends what an element stands for, if the content stays within `length`. -/
def Element.perform? (length : Nat) (out : History) (e : Element) : Option History :=
  match e with
  | .literal bytes => if out.size + bytes.length ≤ length then some (out ++ bytes) else none
  | .copy distance n => if out.size + n ≤ length then out.copy? distance n else none

/-- Unpacks all elements; the content must then have the length announced. -/
def elements (length : Nat) (bytes : Bytes) (out : History) : Option History :=
  if bytes.isEmpty then
    if out.size = length then some out else none
  else match h : element? bytes with
    | none => none
    | some (e, rest) =>
      have := element?_length h
      match e.perform? length out with
      | none => none
      | some out => elements length rest out
termination_by bytes.length

def decompress (bytes : Bytes) : Option Bytes := do
  let (length, rest) ← length? bytes
  let out ← elements length rest #[]
  some out.toList

def varint (n : Nat) : Bytes :=
  if n < 128 then [UInt8.ofNat n] else UInt8.ofNat (n % 128 + 128) :: varint (n / 128)

def literal (bytes : Bytes) : Bytes :=
  if bytes.length ≤ 60 then UInt8.ofNat (4 * (bytes.length - 1)) :: bytes
  else 252 :: Bytes.littleEndian 4 (bytes.length - 1) ++ bytes

def literals (bytes : Bytes) : Bytes :=
  if bytes.isEmpty then [] else literal bytes

def copy (distance length : Nat) : Bytes :=
  UInt8.ofNat (4 * (length - 1) + 2) :: Bytes.littleEndian 2 distance

def bounds : Plan.Bounds := ⟨65535, 64⟩

def squeeze (raw : Bytes) : Bytes :=
  let plan := Plan.ofBytes bounds raw
  varint raw.length ++ plan.steps.flatMap (fun m => literals m.literals ++ copy m.distance m.length) ++
    literals plan.rest

def store (raw : Bytes) : Bytes :=
  varint raw.length ++ literals raw

/-- The longest content: what it may grow to must still have a length of 32 bits. -/
def canHold (length : Nat) : Bool :=
  32 + length + length / 6 ≤ maxLength

def compress (raw : Bytes) : Option Bytes :=
  if canHold raw.length then some (readingBack decompress raw (squeeze raw) (store raw)) else none

theorem shiftLeft_seven (n k : Nat) : n <<< (k + 7) = 128 * (n <<< k) := by
  simp only [Nat.shiftLeft_succ]
  omega

theorem varint?_last {n : Nat} (hn : n < 128) {shift : Nat} (hs : n <<< shift < UInt64.size) (more : Nat)
    (rest : Bytes) : varint? (more + 1) shift (varint n ++ rest) = some (n <<< shift, rest) := by
  have ht : (UInt8.ofNat n).toNat = n := by
    rw [UInt8.toNat_ofNat']
    omega
  have hb : UInt8.ofNat n < 128 := by
    rw [UInt8.lt_iff_toNat_lt, ht]
    exact hn
  rw [varint, if_pos hn, List.singleton_append, varint?, if_pos hb, ht, Nat.mod_eq_of_lt hs]

theorem varint?_varint {n shift : Nat} (more : Nat) (hn : n < 1 <<< (7 * (more + 1)))
    (hs : n <<< shift < UInt64.size) (rest : Bytes) :
    varint? (more + 1) shift (varint n ++ rest) = some (n <<< shift, rest) := by
  induction more generalizing n shift with
  | zero => exact varint?_last hn hs 0 rest
  | succ more ih =>
    by_cases hlt : n < 128
    · exact varint?_last hlt hs (more + 1) rest
    · have ht : (UInt8.ofNat (n % 128 + 128)).toNat = n % 128 + 128 := by
        rw [UInt8.toNat_ofNat']
        omega
      have hb : ¬ UInt8.ofNat (n % 128 + 128) < 128 := by
        rw [UInt8.lt_iff_toNat_lt, ht]
        simp
      have hdiv : n / 128 < 1 <<< (7 * (more + 1)) := by
        apply Nat.div_lt_of_lt_mul
        rw [← shiftLeft_seven]
        exact hn
      have hsum : (n % 128) <<< shift + (n / 128) <<< (shift + 7) = n <<< shift := by
        rw [shiftLeft_seven]
        simp only [Nat.shiftLeft_eq]
        rw [← Nat.mul_assoc, ← Nat.add_mul, Nat.mod_add_div]
      have hhigh : (n / 128) <<< (shift + 7) < UInt64.size :=
        Nat.lt_of_le_of_lt (Nat.le_add_left _ _) (Nat.lt_of_le_of_lt (Nat.le_of_eq hsum) hs)
      rw [varint, if_neg hlt, List.cons_append, varint?, if_neg hb, ih hdiv hhigh, Option.map_some, ht,
        Nat.add_sub_cancel]
      dsimp only
      rw [hsum]

theorem element?_literal {raw : Bytes} (hne : raw ≠ []) (h : raw.length ≤ maxLength) :
    element? (literal raw) = some (.literal raw, []) := by
  have hpos := List.length_pos_iff.2 hne
  have hcut := Bytes.cut?_append raw []
  rw [List.append_nil] at hcut
  rw [literal]
  split
  · next hle =>
    have ht : (UInt8.ofNat (4 * (raw.length - 1))).toNat = 4 * (raw.length - 1) := by
      rw [UInt8.toNat_ofNat']
      omega
    have hmod : 4 * (raw.length - 1) % 4 = 0 := by omega
    have hdiv : 4 * (raw.length - 1) / 4 = raw.length - 1 := by omega
    have hlt : raw.length - 1 < 60 := by omega
    have hlen : raw.length - 1 + 1 = raw.length := by omega
    simp only [element?, ht, hmod, hdiv, literalLength?, if_pos hlt, hlen, hcut, Option.bind_eq_bind, Option.bind_some]
  · next hgt =>
    have hlen : (raw.length - 1) % Bytes.limit 4 + 1 = raw.length := by
      simp only [maxLength] at h
      rw [Bytes.limit_four, Nat.mod_eq_of_lt (by omega), Nat.sub_add_cancel hpos]
    have hword := Bytes.cut?_append (Bytes.littleEndian 4 (raw.length - 1)) raw
    rw [Bytes.length_littleEndian] at hword
    have htake : (Bytes.littleEndian 4 (raw.length - 1)).take 4 = Bytes.littleEndian 4 (raw.length - 1) :=
      List.take_of_length_le (by simp)
    have hdrop : (Bytes.littleEndian 4 (raw.length - 1) ++ raw).drop 4 = raw :=
      List.drop_left' (Bytes.length_littleEndian 4 _)
    simp [element?, literalLength?, hword, htake, Bytes.number_littleEndian, hdrop, hlen, hcut]

theorem elements_literals (raw : Bytes) (h : raw.length ≤ maxLength) :
    elements raw.length (literals raw) #[] = some raw.toArray := by
  cases raw with
  | nil =>
    rw [elements]
    rfl
  | cons b tail =>
    have he := element?_literal (List.cons_ne_nil b tail) h
    have hl : literals (b :: tail) = literal (b :: tail) := rfl
    have hempty : (literal (b :: tail)).isEmpty = false := by
      rw [literal]
      split <;> rfl
    rw [hl, elements, hempty, if_neg Bool.false_ne_true]
    split
    · next hx =>
      rw [he] at hx
      cases hx
    · next e rest hx =>
      rw [he] at hx
      cases hx
      have hp : Element.perform? (b :: tail).length #[] (.literal (b :: tail)) = some (b :: tail).toArray := by
        simp [Element.perform?]
      rw [hp]
      dsimp only
      rw [elements]
      simp

theorem decompress_store {raw : Bytes} (h : raw.length ≤ maxLength) : decompress (store raw) = some raw := by
  have hv : varint? 10 0 (varint raw.length ++ literals raw) = some (raw.length, literals raw) := by
    have hb : UInt32.size - 1 < 1 <<< (7 * (9 + 1)) := by decide
    have hs : raw.length <<< 0 < UInt64.size := Nat.lt_of_le_of_lt h (by decide)
    have hv := varint?_varint 9 (Nat.lt_of_le_of_lt h hb) hs (literals raw)
    rwa [Nat.shiftLeft_zero] at hv
  have hl : length? (store raw) = some (raw.length, literals raw) := by
    rw [length?, store, hv, Option.filter_some, if_pos (by simpa using h)]
  simp only [decompress, hl, Option.bind_eq_bind, Option.bind_some, elements_literals raw h]

theorem length_le_of_canHold {length : Nat} (h : canHold length) : length ≤ maxLength := by
  simp only [canHold, decide_eq_true_eq] at h
  omega

def codec : Codec where
  compress := compress
  decompress := decompress
  decompress_compress h := by
    unfold compress at h
    split at h
    · next hc =>
      cases h
      exact decompress_readingBack (decompress_store (length_le_of_canHold hc))
    · cases h

end WriteAhead.Snappy
