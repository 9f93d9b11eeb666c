import WriteAhead.Page.Body

/-!
Taking a body apart by slices, none of which may go beyond what it is taken from. Main statement: none does, whatever
the body is (`decodeSliced_eq`).
-/

namespace WriteAhead

/-- The bytes from `start` up to `stop`. This is out of range unless the two are in this order and there are as many
bytes. -/
def Bytes.slice? (start stop : Nat) (bytes : Bytes) : Option Bytes :=
  if start ≤ stop ∧ stop ≤ bytes.length then some ((bytes.take stop).drop start) else none

theorem Bytes.slice?_eq {start stop : Nat} {bytes : Bytes} (h : start ≤ stop) (hstop : stop ≤ bytes.length) :
    bytes.slice? start stop = some ((bytes.take stop).drop start) :=
  if_pos ⟨h, hstop⟩

namespace Page.Body

/-- Reads a body as `decode` does, by slices. Nothing comes of it if one of them is out of range. -/
def decodeSliced (body : Bytes) : Option (Except Error (Bytes × Bytes)) :=
  match Bytes.number? 4 body with
  | none => some (.error .io)
  | some (length, _) => do
    let available ← body.slice? 4 body.length
    if available.length < length then
      return .error (.corruption (.idTooLong length available.length))
    let id ← available.slice? 0 length
    let object ← available.slice? length available.length
    return .ok (id, object)

theorem decodeSliced_eq (body : Bytes) : decodeSliced body = some (decode body) := by
  rw [decodeSliced, decode]
  cases hnumber : Bytes.number? 4 body with
  | none => rfl
  | some found =>
    obtain ⟨n, rest⟩ := found
    obtain ⟨-, rfl⟩ := Bytes.number?_eq_some_iff.1 hnumber
    have hfour := Bytes.length_littleEndian 4 n
    have hrest : Bytes.slice? 4 (Bytes.littleEndian 4 n ++ rest).length (Bytes.littleEndian 4 n ++ rest) =
        some rest := by
      rw [Bytes.slice?_eq (by rw [List.length_append]; omega) (Nat.le_refl _), List.take_length, List.drop_left' hfour]
    dsimp only
    rw [hrest, Option.bind_eq_bind, Option.bind_some]
    by_cases hlt : rest.length < n
    · rw [if_pos hlt, Bytes.cut?_eq_none_iff.2 hlt]
      rfl
    · have hle := Nat.not_lt.1 hlt
      have hid : Bytes.slice? 0 n rest = some (rest.take n) := Bytes.slice?_eq (Nat.zero_le n) hle
      have hobject : Bytes.slice? n rest.length rest = some (rest.drop n) := by
        rw [Bytes.slice?_eq hle (Nat.le_refl _), List.take_length]
      rw [if_neg hlt, hid, hobject, Bytes.cut?_of_le hle]
      rfl

end Page.Body

end WriteAhead
