import WriteAhead.Error

/-!
The uncompressed body of a page: the length of the id, the id, and the object. Main statements:
a body that is written is read back (`decode_encode`), and nothing else is read (`encode_of_decode`), since there are
only so many ways in which reading can end (`outcome_decode`).
-/

namespace WriteAhead.Page

/-- Every length in a file is a number of 32 bits. -/
def checkedLength (length : Nat) (what : String) : Except Error UInt32 :=
  if length < UInt32.size then .ok (UInt32.ofNat length) else .error (.config (.tooLong what length))

theorem eq_of_checkedLength {length : Nat} {what : String} {n : UInt32} (h : checkedLength length what = .ok n) :
    n.toNat = length ∧ length < UInt32.size := by
  unfold checkedLength at h
  split at h
  · next hlt =>
    cases h
    exact ⟨UInt32.toNat_ofNat_of_lt' hlt, hlt⟩
  · cases h

namespace Body

def encode (id object : Bytes) : Except Error Bytes := do
  let length ← checkedLength id.length "Object id"
  return Bytes.littleEndian 4 length.toNat ++ id ++ object

def decode (body : Bytes) : Except Error (Bytes × Bytes) :=
  match Bytes.number? 4 body with
  | none => .error .io
  | some (length, rest) =>
    match Bytes.cut? length rest with
    | none => .error (.corruption (.idTooLong length rest.length))
    | some (id, object) => .ok (id, object)

theorem encode_of_lt {id : Bytes} (h : id.length < UInt32.size) (object : Bytes) :
    encode id object = .ok (Bytes.littleEndian 4 id.length ++ (id ++ object)) := by
  rw [encode, checkedLength, if_pos h]
  change Except.ok (Bytes.littleEndian 4 (UInt32.ofNat id.length).toNat ++ id ++ object) = _
  rw [UInt32.toNat_ofNat_of_lt' h, List.append_assoc]

theorem encode_of_le {id : Bytes} (h : UInt32.size ≤ id.length) (object : Bytes) :
    encode id object = .error (.config (.tooLong "Object id" id.length)) := by
  rw [encode, checkedLength, if_neg (Nat.not_lt.2 h)]
  rfl

/-- What reading some bytes as a body comes to. -/
inductive Outcome : (body : Bytes) → Except Error (Bytes × Bytes) → Prop
  | content {id : Bytes} (length : id.length < UInt32.size) (object : Bytes) :
      Outcome (Bytes.littleEndian 4 id.length ++ (id ++ object)) (.ok (id, object))
  | noLength {body : Bytes} (short : body.length < 4) : Outcome body (.error .io)
  | idTooLong {n : Nat} {rest : Bytes} (length : n < UInt32.size) (short : rest.length < n) :
      Outcome (Bytes.littleEndian 4 n ++ rest) (.error (.corruption (.idTooLong n rest.length)))

theorem outcome_decode (body : Bytes) : Outcome body (decode body) := by
  rw [decode]
  cases hnumber : Bytes.number? 4 body with
  | none => exact .noLength (Bytes.number?_eq_none_iff.1 hnumber)
  | some found =>
    obtain ⟨n, rest⟩ := found
    obtain ⟨hlt, rfl⟩ := Bytes.number?_eq_some_iff.1 hnumber
    dsimp only
    cases hcut : Bytes.cut? n rest with
    | none => exact .idTooLong hlt (Bytes.cut?_eq_none_iff.1 hcut)
    | some content =>
      obtain ⟨id, object⟩ := content
      obtain ⟨rfl, rfl⟩ := Bytes.cut?_eq_some_iff.1 hcut
      exact .content hlt object

theorem decode_encode {id object body : Bytes} (h : encode id object = .ok body) :
    decode body = .ok (id, object) := by
  obtain hlt | hle := Nat.lt_or_ge id.length UInt32.size
  · cases (encode_of_lt hlt object).symm.trans h
    rw [decode, Bytes.number?_append 4 hlt]
    dsimp only
    rw [Bytes.cut?_append]
  · cases (encode_of_le hle object).symm.trans h

/-- A body is what is written for what it holds. -/
theorem encode_of_decode {id object body : Bytes} (h : decode body = .ok (id, object)) :
    encode id object = .ok body := by
  have houtcome := outcome_decode body
  rw [h] at houtcome
  cases houtcome with
  | content hlt => exact encode_of_lt hlt object

end Body

end WriteAhead.Page
