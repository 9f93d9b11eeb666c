import WriteAhead.Compression.History

/-!
LZ4 blocks: literals and back-references in turn, the last one without a back-reference.
-/

namespace WriteAhead.Lz4.Block

/-- Adds up bytes to `n`, up to and with the first that is not 255. -/
def extend? (n : Nat) : Bytes → Option (Nat × Bytes)
  | [] => none
  | b :: rest => if b = 255 then extend? (n + 255) rest else some (n + b.toNat, rest)

/-- A length of four bits, of which the highest value announces more. -/
def length? (code : Nat) (bytes : Bytes) : Option (Nat × Bytes) :=
  if code = 15 then extend? 15 bytes else some (code, bytes)

/-- Reads the token's literals and, unless the block ends with them, where to copy from and how much. -/
def sequence? : Bytes → Option (Bytes × Option (Nat × Nat) × Bytes)
  | [] => none
  | token :: rest => do
    let (length, rest) ← length? (token.toNat / 16) rest
    let (literals, rest) ← rest.cut? length
    if rest.isEmpty then some (literals, none, [])
    else
      let (distance, rest) ← rest.number? 2
      let (length, rest) ← length? (token.toNat % 16) rest
      some (literals, some (distance, length + 4), rest)

theorem extend?_length {n v : Nat} {bytes rest : Bytes} (h : extend? n bytes = some (v, rest)) :
    rest.length ≤ bytes.length := by
  induction bytes generalizing n with
  | nil => simp [extend?] at h
  | cons b tail ih =>
    unfold extend? at h
    split at h
    · exact Nat.le_succ_of_le (ih h)
    · simp_all

theorem length?_length {code v : Nat} {bytes rest : Bytes} (h : length? code bytes = some (v, rest)) :
    rest.length ≤ bytes.length := by
  unfold length? at h
  split at h
  · exact extend?_length h
  · simp_all

theorem sequence?_length {bytes literals rest : Bytes} {copy : Option (Nat × Nat)}
    (h : sequence? bytes = some (literals, copy, rest)) : rest.length < bytes.length := by
  cases bytes with
  | nil => simp [sequence?] at h
  | cons token tail =>
    simp only [sequence?, Option.bind_eq_bind, Option.bind_eq_some_iff, Prod.exists] at h
    obtain ⟨_, _, h1, _, _, h2, h⟩ := h
    have := length?_length h1
    have := Bytes.length_of_cut? h2
    split at h
    · simp only [Option.some.injEq, Prod.mk.injEq] at h
      obtain ⟨_, _, rfl⟩ := h
      simp
    · simp only [Option.bind_eq_some_iff, Prod.exists, Option.some.injEq, Prod.mk.injEq] at h
      obtain ⟨_, _, h3, _, _, h4, _, _, rfl⟩ := h
      have := Bytes.length_of_number? h3
      have := length?_length h4
      simp only [List.length_cons]
      omega

/-- Unpacks a block behind `out`, which may not grow beyond `limit`. -/
def decompress (limit : Nat) (bytes : Bytes) (out : History) : Option History :=
  match h : sequence? bytes with
  | none => none
  | some (literals, copy, rest) =>
    have := sequence?_length h
    if out.size + literals.length ≤ limit then
      let out : History := out ++ literals
      match copy with
      | none => some out
      | some (distance, length) =>
        if out.size + length ≤ limit then
          match out.copy? distance length with
          | none => none
          | some out => decompress limit rest out
        else none
    else none
termination_by bytes.length

end WriteAhead.Lz4.Block
