import WriteAhead.Page.Sliced
import WriteAhead.Proofs.Rewriting

/-!
Which bytes are a body and which begin with a header, and how reading ends on all others. Main statements: bodies
correspond one to one to what they hold (`decode_encode_verdict`), and headers to the twenty bytes that they take up,
but for the reserved ones (`read_toBytes_verdict`).
-/

namespace WriteAhead.Page

namespace Body

/-- The length that a body says its id has. -/
def idLength (body : Bytes) : Nat := Bytes.number (body.take 4)

theorem idLength_append {n : Nat} (h : n < UInt32.size) (rest : Bytes) :
    idLength (Bytes.littleEndian 4 n ++ rest) = n := by
  rw [idLength, List.take_left' (Bytes.length_littleEndian 4 n), Bytes.number_littleEndian]
  exact Nat.mod_eq_of_lt h

/-- What reading a body comes to, told from its first four bytes and how many follow them. What is read is what would be
written so, and it is found without a slice that goes out of range. -/
structure Verdict (body : Bytes) : Prop where
  accepted : (∃ id object, decode body = .ok (id, object)) ↔ 4 ≤ body.length ∧ idLength body ≤ body.length - 4
  content : ∀ id object, decode body = .ok (id, object) ↔
    4 ≤ body.length ∧ idLength body = id.length ∧ body.drop 4 = id ++ object
  again : ∀ id object, decode body = .ok (id, object) ↔ encode id object = .ok body
  noLength : decode body = .error .io ↔ body.length < 4
  idTooLong : ∀ n available, decode body = .error (.corruption (.idTooLong n available)) ↔
    4 ≤ body.length ∧ idLength body = n ∧ body.length - 4 = available ∧ available < n
  sliced : decodeSliced body = some (decode body)

variable {body id object : Bytes}

theorem decode_eq_ok_iff : decode body = .ok (id, object) ↔ encode id object = .ok body :=
  ⟨encode_of_decode, decode_encode⟩

theorem decode_eq_ok_iff_idLength : decode body = .ok (id, object) ↔
    4 ≤ body.length ∧ idLength body = id.length ∧ body.drop 4 = id ++ object := by
  constructor
  · intro h
    have houtcome := outcome_decode body
    rw [h] at houtcome
    cases houtcome with
    | content hlt object =>
      have hfour := Bytes.length_littleEndian 4 id.length
      exact ⟨by rw [List.length_append]; omega, idLength_append hlt _, List.drop_left' hfour⟩
  · rintro ⟨hle, hlength, hdrop⟩
    have htake := List.length_take_of_le hle
    have hlt := Bytes.number_lt (body.take 4)
    rw [htake, Bytes.limit_four, ← idLength, hlength] at hlt
    have hhead := Bytes.littleEndian_number (body.take 4)
    rw [htake, ← idLength, hlength] at hhead
    rw [decode_eq_ok_iff, encode_of_lt hlt, hhead, ← hdrop, List.take_append_drop]

theorem exists_decode_iff : (∃ id object, decode body = .ok (id, object)) ↔
    4 ≤ body.length ∧ idLength body ≤ body.length - 4 := by
  constructor
  · rintro ⟨id, object, h⟩
    obtain ⟨hle, hlength, hdrop⟩ := decode_eq_ok_iff_idLength.1 h
    have hsum := congrArg List.length hdrop
    rw [List.length_drop, List.length_append] at hsum
    exact ⟨hle, by omega⟩
  · rintro ⟨hle, hfits⟩
    have hlength : ((body.drop 4).take (idLength body)).length = idLength body :=
      List.length_take_of_le (by rwa [List.length_drop])
    have hdrop := List.take_append_drop (idLength body) (body.drop 4)
    exact ⟨_, _, decode_eq_ok_iff_idLength.2 ⟨hle, hlength.symm, hdrop.symm⟩⟩

theorem decode_eq_io_iff : decode body = .error .io ↔ body.length < 4 := by
  have houtcome := outcome_decode body
  generalize decode body = result at houtcome ⊢
  cases houtcome with
  | content | idTooLong => simp
  | noLength hshort => exact iff_of_true rfl hshort

theorem decode_eq_idTooLong_iff {n available : Nat} :
    decode body = .error (.corruption (.idTooLong n available)) ↔
      4 ≤ body.length ∧ idLength body = n ∧ body.length - 4 = available ∧ available < n := by
  have houtcome := outcome_decode body
  generalize decode body = result at houtcome ⊢
  cases houtcome with
  | content hlt object =>
    rw [idLength_append hlt, List.length_append, Bytes.length_littleEndian, List.length_append]
    exact iff_of_false (by rintro ⟨⟩) (by omega)
  | noLength hshort => exact iff_of_false (by rintro ⟨⟩) fun hc => Nat.not_lt.2 hc.1 hshort
  | idTooLong hlt hshort =>
    rw [idLength_append hlt, List.length_append, Bytes.length_littleEndian, Nat.add_sub_cancel_left]
    simp only [Except.error.injEq, Error.corruption.injEq, Damage.idTooLong.injEq]
    omega

theorem encode_bind_decode_iff : (encode id object >>= decode) = .ok (id, object) ↔ id.length < UInt32.size := by
  obtain hlt | hle := Nat.lt_or_ge id.length UInt32.size
  · have hencode := encode_of_lt hlt object
    rw [hencode]
    exact iff_of_true (decode_encode hencode) hlt
  · rw [encode_of_le hle object]
    exact iff_of_false (by rintro ⟨⟩) (Nat.not_lt.2 hle)

/-- Writing and reading are inverse to each other, between the ids and objects of which the id is not too long and the
bodies that begin with the length of an id that they can hold. -/
theorem decode_encode_verdict :
    (∀ id object : Bytes, (encode id object >>= decode) = .ok (id, object) ↔ id.length < UInt32.size) ∧
    ∀ body : Bytes, Verdict body := by
  refine ⟨fun id object => encode_bind_decode_iff, fun body => ?_⟩
  exact {
    accepted := exists_decode_iff
    content := fun id object => decode_eq_ok_iff_idLength
    again := fun id object => decode_eq_ok_iff
    noLength := decode_eq_io_iff
    idTooLong := fun n available => decode_eq_idTooLong_iff
    sliced := decodeSliced_eq body }

/-- The length of the id is one too large for what follows it. -/
example : decode [2, 0, 0, 0, 7] = .error (.corruption (.idTooLong 2 1)) := rfl

end Body

namespace Header

/-- The bytes begin with the magic. -/
def HasMagic (input : Bytes) : Prop := input.take 4 = ofWord magic

/-- The byte in the place of the tag is the tag of an encoding. -/
def HasTag (input : Bytes) : Prop := ∃ e : Encoding, input[8]? = some e.tag

/-- How reading a header ends, told from how many bytes there are and what stands in the places of the magic and the
tag. What is left is what follows the last field that was read, and nothing if a field is cut short. -/
structure Verdict (input : Bytes) (result : Except Error Header × Bytes) : Prop where
  accepted : (∃ h rest, result = (.ok h, rest)) ↔ headerSize ≤ input.length ∧ HasMagic input ∧ HasTag input
  badMagic : ∀ found rest, result = (.error (.corruption (.badMagic found)), rest) ↔
    4 ≤ input.length ∧ ¬ HasMagic input ∧ Bytes.number (input.take 4) = found ∧ input.drop 4 = rest
  unknownTag : ∀ tag rest, result = (.error (.corruption (.unknownTag tag)), rest) ↔
    9 ≤ input.length ∧ HasMagic input ∧ ¬ HasTag input ∧ input[8]? = some tag ∧ input.drop 9 = rest
  cut : ∀ rest, result = (.error .io, rest) ↔ input.length < headerSize ∧ (4 ≤ input.length → HasMagic input) ∧
    (9 ≤ input.length → HasTag input) ∧ [] = rest

section

variable {input : Bytes}

-- Each end excludes the other three by the conditions alone, so that it is enough to know which one it is.

theorem verdict_of_accepted (hl : headerSize ≤ input.length) (hm : HasMagic input) (ht : HasTag input) (h : Header)
    (rest : Bytes) : Verdict input (.ok h, rest) where
  accepted := iff_of_true ⟨h, rest, rfl⟩ ⟨hl, hm, ht⟩
  badMagic _ _ := iff_of_false (by rintro ⟨⟩) fun hc => hc.2.1 hm
  unknownTag _ _ := iff_of_false (by rintro ⟨⟩) fun hc => hc.2.2.1 ht
  cut _ := iff_of_false (by rintro ⟨⟩) fun hc => Nat.not_lt.2 hl hc.1

theorem verdict_of_badMagic (hl : 4 ≤ input.length) (hm : ¬ HasMagic input) :
    Verdict input (.error (.corruption (.badMagic (Bytes.number (input.take 4)))), input.drop 4) where
  accepted := iff_of_false (by rintro ⟨h, rest, ⟨⟩⟩) fun hc => hm hc.2.1
  badMagic found rest := by simp [hl, hm]
  unknownTag _ _ := iff_of_false (by rintro ⟨⟩) fun hc => hm hc.2.1
  cut _ := iff_of_false (by rintro ⟨⟩) fun hc => hm (hc.2.1 hl)

theorem verdict_of_unknownTag (hl : 9 ≤ input.length) (hm : HasMagic input) (ht : ¬ HasTag input) {tag : UInt8}
    (htag : input[8]? = some tag) :
    Verdict input (.error (.corruption (.unknownTag tag)), input.drop 9) where
  accepted := iff_of_false (by rintro ⟨h, rest, ⟨⟩⟩) fun hc => ht hc.2.2
  badMagic _ _ := iff_of_false (by rintro ⟨⟩) fun hc => hc.2.1 hm
  unknownTag other rest := by simp [hl, hm, ht, htag]
  cut _ := iff_of_false (by rintro ⟨⟩) fun hc => ht (hc.2.2.1 hl)

theorem verdict_of_cut (hl : input.length < headerSize) (hm : 4 ≤ input.length → HasMagic input)
    (ht : 9 ≤ input.length → HasTag input) : Verdict input (.error .io, []) where
  accepted := iff_of_false (by rintro ⟨h, rest, ⟨⟩⟩) fun hc => Nat.not_lt.2 hc.1 hl
  badMagic _ _ := iff_of_false (by rintro ⟨⟩) fun hc => hc.2.1 (hm hc.1)
  unknownTag _ _ := iff_of_false (by rintro ⟨⟩) fun hc => hc.2.2.1 (ht hc.1)
  cut rest := by rw [and_iff_right hl, and_iff_right hm, and_iff_right ht, Prod.mk.injEq, and_iff_right rfl]

end

section

variable (found crc : UInt32) (tag : UInt8) (rest : Bytes)

theorem take_magic : (ofWord found ++ rest).take 4 = ofWord found := List.take_left' (length_ofWord found)

theorem drop_magic : (ofWord found ++ rest).drop 4 = rest := List.drop_left' (length_ofWord found)

theorem length_behind_magic : (ofWord found ++ rest).length = 4 + rest.length := by
  rw [List.length_append, length_ofWord]

theorem getElem?_tag : (ofWord found ++ (ofWord crc ++ tag :: rest))[8]? = some tag := by
  simp [List.getElem?_append, length_ofWord]

theorem drop_tag : (ofWord found ++ (ofWord crc ++ tag :: rest)).drop 9 = rest := by
  simp [List.drop_append, List.drop_of_length_le, length_ofWord]

theorem length_behind_tag : (ofWord found ++ (ofWord crc ++ tag :: rest)).length = 9 + rest.length := by
  rw [length_behind_magic, length_behind_magic, List.length_cons]
  omega

theorem hasMagic_append : HasMagic (ofWord found ++ rest) ↔ found = magic := by rw [HasMagic, take_magic, ofWord_inj]

theorem hasTag_append : HasTag (ofWord found ++ (ofWord crc ++ tag :: rest)) ↔ ∃ e : Encoding, e.tag = tag := by
  simp only [HasTag, getElem?_tag, Option.some.injEq, eq_comm]

end

theorem verdict_of_outcome {input : Bytes} {result : Except Error Header × Bytes} (h : Outcome input result) :
    Verdict input result := by
  cases h with
  | @header h reserved hreserved rest =>
    have hlength : headerSize ≤ (h.laidOut reserved ++ rest).length := by
      rw [List.length_append, length_laidOut h hreserved]
      exact Nat.le_add_right _ _
    rw [laidOut_append] at hlength ⊢
    exact verdict_of_accepted hlength ((hasMagic_append _ _).2 rfl) ((hasTag_append _ _ _ _).2 ⟨_, rfl⟩) h rest
  | @badMagic found hwrong rest =>
    have hlength := length_behind_magic found rest
    have hverdict := verdict_of_badMagic (by omega) (mt (hasMagic_append found rest).1 hwrong)
    rwa [take_magic, number_ofWord, drop_magic] at hverdict
  | @unknownTag crc tag hunknown rest =>
    have hlength := length_behind_tag magic crc tag rest
    have hnone : ¬ HasTag (ofWord magic ++ (ofWord crc ++ tag :: rest)) := by
      rw [hasTag_append]
      rintro ⟨e, he⟩
      exact hunknown e he
    have hverdict := verdict_of_unknownTag (by omega) ((hasMagic_append _ _).2 rfl) hnone (getElem?_tag _ _ _ _)
    rwa [drop_tag] at hverdict
  | noMagic hshort =>
    exact verdict_of_cut (by rw [headerSize]; omega) (fun hle => by omega) (fun hle => by omega)
  | @noTag rest hshort =>
    have hlength := length_behind_magic magic rest
    exact verdict_of_cut (by rw [headerSize]; omega) (fun _ => (hasMagic_append _ _).2 rfl) (fun hle => by omega)
  | @noSizes crc e rest hshort =>
    have hlength := length_behind_tag magic crc e.tag rest
    exact verdict_of_cut (by rw [headerSize]; omega) (fun _ => (hasMagic_append _ _).2 rfl)
      (fun _ => (hasTag_append _ _ _ _).2 ⟨e, rfl⟩)

variable {h : Header} {input rest : Bytes}

theorem read_eq_ok_iff :
    read input = (.ok h, rest) ↔ ∃ reserved, reserved.length = 3 ∧ input = h.laidOut reserved ++ rest := by
  constructor
  · exact eq_of_read
  · rintro ⟨reserved, hreserved, rfl⟩
    exact read_laidOut h hreserved rest

/-- Twenty bytes are a header as soon as they are so with the reserved ones zero. -/
theorem exists_laidOut_of_blank {page : Bytes} (hl : page.length = headerSize) (hb : blank page = h.toBytes) :
    ∃ reserved, reserved.length = 3 ∧ page = h.laidOut reserved := by
  have hsplit : page = page.take 9 ++ ((page.drop 9).take 3 ++ (page.drop 9).drop 3) := by
    rw [List.take_append_drop, List.take_append_drop]
  have hfront : (page.take 9).length = 9 := List.length_take_of_le (by rw [hl]; decide)
  have hreserved : ((page.drop 9).take 3).length = 3 := List.length_take_of_le (by rw [List.length_drop, hl]; decide)
  refine ⟨_, hreserved, ?_⟩
  rw [hsplit, blank_append hfront hreserved, toBytes, laidOut, List.append_assoc _ _ (ofWord h.bodySize),
    List.append_assoc _ [0, 0, 0]] at hb
  obtain ⟨hf, hb⟩ := List.append_inj hb (hfront.trans (by simp [length_ofWord]))
  have hbehind := List.append_cancel_left hb
  rw [laidOut, ← hf, List.append_assoc, List.append_assoc, ← hbehind]
  exact hsplit

theorem read_eq_ok_iff_blank : read input = (.ok h, rest) ↔
    headerSize ≤ input.length ∧ blank (input.take headerSize) = h.toBytes ∧ input.drop headerSize = rest := by
  rw [read_eq_ok_iff]
  constructor
  · rintro ⟨reserved, hreserved, rfl⟩
    have hlength := length_laidOut h hreserved
    have hblank := blank_laidOut h hreserved []
    rw [List.append_nil, List.append_nil] at hblank
    rw [List.length_append, List.take_left' hlength, List.drop_left' hlength]
    exact ⟨by omega, hblank, rfl⟩
  · rintro ⟨hl, hblank, rfl⟩
    obtain ⟨reserved, hreserved, hlaid⟩ := exists_laidOut_of_blank (List.length_take_of_le hl) hblank
    exact ⟨reserved, hreserved, by rw [← hlaid, List.take_append_drop]⟩

/-- A header is read from the twenty bytes that it is written as and from those that differ from them in the reserved
ones only, and of all other bytes it can be told how reading them ends. -/
theorem read_toBytes_verdict :
    (∀ (h : Header) (rest : Bytes), read (h.toBytes ++ rest) = (.ok h, rest)) ∧
    (∀ (input : Bytes) (h : Header) (rest : Bytes), read input = (.ok h, rest) ↔
      headerSize ≤ input.length ∧ blank (input.take headerSize) = h.toBytes ∧ input.drop headerSize = rest) ∧
    ∀ input : Bytes, Verdict input (read input) := by
  refine ⟨fun h rest => ?_, fun input h rest => read_eq_ok_iff_blank, fun input => ?_⟩
  · exact read_laidOut h rfl rest
  · exact verdict_of_outcome (outcome_read input)

/-- As long as it is cut short, a wrong magic is not told from the right one. -/
example : read [1, 1, 1] = (.error .io, []) := rfl

end Header

end WriteAhead.Page
