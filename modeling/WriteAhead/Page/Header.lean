import WriteAhead.Error

/-!
The header in front of every page: twenty bytes, read field by field. A field that is cut short
uses up all that is left. Main statements: a header that stands in front of some bytes is read, with
nothing of what follows it used up (`read_laidOut`), and nothing else is read (`eq_of_read`), since
there are only so many ways in which reading can end (`outcome_read`).
-/

namespace WriteAhead

/-- Reads from the front of some bytes; what is left is kept, also after an error. -/
def Take (α : Type) := Bytes → Except Error α × Bytes

namespace Take

instance : Monad Take where
  pure a := fun input => (.ok a, input)
  bind m f := fun input =>
    match m input with
    | (.ok a, rest) => f a rest
    | (.error e, rest) => (.error e, rest)

/-- Decides without reading. -/
def lift {α : Type} (result : Except Error α) : Take α := fun input => (result, input)

def bytes (n : Nat) : Take Bytes := fun input =>
  match Bytes.cut? n input with
  | some (head, rest) => (.ok head, rest)
  | none => (.error .io, [])

def word : Take UInt32 := do
  return UInt32.ofNat (Bytes.number (← bytes 4))

variable {α β : Type} {m : Take α} {f : α → Take β} {input rest : Bytes}

theorem bind_ok {a : α} (h : m input = (.ok a, rest)) : (m >>= f) input = f a rest := by
  simp only [bind, h]

theorem bind_error {e : Error} (h : m input = (.error e, rest)) : (m >>= f) input = (.error e, rest) := by
  simp only [bind, h]

theorem bind_eq_ok_iff {b : β} :
    (m >>= f) input = (.ok b, rest) ↔ ∃ a mid, m input = (.ok a, mid) ∧ f a mid = (.ok b, rest) := by
  match hm : m input with
  | (.ok a, mid) =>
    rw [bind_ok hm]
    constructor
    · exact fun h => ⟨a, mid, rfl, h⟩
    · rintro ⟨_, _, h, h'⟩
      cases h
      exact h'
  | (.error e, mid) => simp [bind_error hm]

theorem bytes_eq_ok_iff {n : Nat} {head : Bytes} :
    bytes n input = (.ok head, rest) ↔ input = head ++ rest ∧ head.length = n := by
  rw [← Bytes.cut?_eq_some_iff]
  unfold bytes
  split <;> simp_all

/-- There are as many bytes as asked for, or too few, and then these are used up. -/
theorem bytes_cases (n : Nat) (input : Bytes) :
    (input.length < n ∧ bytes n input = (.error .io, [])) ∨
      ∃ head rest : Bytes, head.length = n ∧ input = head ++ rest := by
  cases hcut : Bytes.cut? n input with
  | none => exact .inl ⟨Bytes.cut?_eq_none_iff.1 hcut, by rw [bytes, hcut]⟩
  | some found =>
    obtain ⟨hsplit, hlength⟩ := Bytes.cut?_eq_some_iff.1 hcut
    exact .inr ⟨found.1, found.2, hlength, hsplit⟩

theorem bytes_append {n : Nat} {head : Bytes} (h : head.length = n) (rest : Bytes) :
    bytes n (head ++ rest) = (.ok head, rest) := by
  subst h
  simp [bytes]

end Take

namespace Page

def magic : UInt32 := 0x4C415754

structure Header where
  crc : UInt32
  encoding : Encoding
  diskSize : UInt32
  /-- How many bytes these unpack to. -/
  bodySize : UInt32
  deriving DecidableEq

def headerSize : Nat := 20

def ofWord (w : UInt32) : Bytes := Bytes.littleEndian 4 w.toNat

namespace Header

def pageLength (h : Header) : Nat := headerSize + h.diskSize.toNat

/-- The bytes of a header; the three behind the tag are reserved. -/
def laidOut (h : Header) (reserved : Bytes) : Bytes :=
  ofWord magic ++ ofWord h.crc ++ [h.encoding.tag] ++ reserved ++ ofWord h.diskSize ++ ofWord h.bodySize

def toBytes (h : Header) : Bytes := h.laidOut [0, 0, 0]

def checkMagic (found : UInt32) : Except Error Unit :=
  if found = magic then .ok () else .error (.corruption (.badMagic found.toNat))

def taken : Take Header := do
  let found ← Take.word
  Take.lift (checkMagic found)
  let crc ← Take.word
  let tag ← Take.bytes 1
  let encoding ← Take.lift (Encoding.read (UInt8.ofNat (Bytes.number tag)))
  let _ ← Take.bytes 3
  let diskSize ← Take.word
  let bodySize ← Take.word
  return ⟨crc, encoding, diskSize, bodySize⟩

def read (input : Bytes) : Except Error Header × Bytes := taken input

end Header

theorem length_ofWord (w : UInt32) : (ofWord w).length = 4 :=
  Bytes.length_littleEndian 4 _

theorem number_ofWord (w : UInt32) : Bytes.number (ofWord w) = w.toNat := by
  rw [ofWord, Bytes.number_littleEndian]
  exact Nat.mod_eq_of_lt w.toNat_lt

theorem ofWord_number {head : Bytes} (h : head.length = 4) : ofWord (UInt32.ofNat (Bytes.number head)) = head := by
  have hlt := Bytes.number_lt head
  rw [h] at hlt
  have hn : (UInt32.ofNat (Bytes.number head)).toNat = Bytes.number head := by
    rw [UInt32.toNat_ofNat']
    exact Nat.mod_eq_of_lt hlt
  rw [ofWord, hn, ← h, Bytes.littleEndian_number]

theorem ofWord_inj {v w : UInt32} : ofWord v = ofWord w ↔ v = w := by
  constructor
  · intro h
    rw [← UInt32.toNat_inj, ← number_ofWord, h, number_ofWord]
  · rintro rfl
    rfl

theorem word_ofWord (w : UInt32) (rest : Bytes) : Take.word (ofWord w ++ rest) = (.ok w, rest) := by
  rw [Take.word, Take.bind_ok (Take.bytes_append (length_ofWord w) rest), number_ofWord, UInt32.ofNat_toNat]
  rfl

/-- Any four bytes are a word. -/
theorem word_cases (input : Bytes) :
    (input.length < 4 ∧ Take.word input = (.error .io, [])) ∨ ∃ w rest, input = ofWord w ++ rest := by
  obtain ⟨hshort, hbytes⟩ | ⟨head, rest, hlength, rfl⟩ := Take.bytes_cases 4 input
  · exact .inl ⟨hshort, Take.bind_error hbytes⟩
  · exact .inr ⟨UInt32.ofNat (Bytes.number head), rest, by rw [ofWord_number hlength]⟩

namespace Header

theorem length_laidOut (h : Header) {reserved : Bytes} (hr : reserved.length = 3) :
    (h.laidOut reserved).length = headerSize := by
  simp [laidOut, length_ofWord, hr, headerSize]

theorem laidOut_append (h : Header) (reserved rest : Bytes) : h.laidOut reserved ++ rest = ofWord magic ++
    (ofWord h.crc ++ h.encoding.tag :: (reserved ++ (ofWord h.diskSize ++ (ofWord h.bodySize ++ rest)))) := by
  simp [laidOut]

theorem ofNat_number_singleton (b : UInt8) : UInt8.ofNat (Bytes.number [b]) = b := by
  simp [Bytes.number]

theorem encoding_read_tag (e : Encoding) : Encoding.read (UInt8.ofNat (Bytes.number [e.tag])) = .ok e := by
  rw [ofNat_number_singleton, Encoding.read, Encoding.ofTag?_eq_some_iff.2 rfl]

theorem read_laidOut (h : Header) {reserved : Bytes} (hr : reserved.length = 3) (rest : Bytes) :
    read (h.laidOut reserved ++ rest) = (.ok h, rest) := by
  simp only [read, taken, laidOut, List.append_assoc]
  rw [Take.bind_ok (word_ofWord magic _), Take.bind_ok (a := ()) (by rfl), Take.bind_ok (word_ofWord h.crc _),
    Take.bind_ok (Take.bytes_append (by rfl) _), Take.bind_ok (a := h.encoding) (by rw [Take.lift, encoding_read_tag]),
    Take.bind_ok (Take.bytes_append hr _), Take.bind_ok (word_ofWord h.diskSize _),
    Take.bind_ok (word_ofWord h.bodySize _)]
  rfl

/-- What reading some bytes as a header comes to. The fields that are read are used up. -/
inductive Outcome : (input : Bytes) → Except Error Header × Bytes → Prop
  | header (h : Header) {reserved : Bytes} (length : reserved.length = 3) (rest : Bytes) :
      Outcome (h.laidOut reserved ++ rest) (.ok h, rest)
  | badMagic {found : UInt32} (wrong : found ≠ magic) (rest : Bytes) :
      Outcome (ofWord found ++ rest) (.error (.corruption (.badMagic found.toNat)), rest)
  | unknownTag (crc : UInt32) {tag : UInt8} (unknown : ∀ e : Encoding, e.tag ≠ tag) (rest : Bytes) :
      Outcome (ofWord magic ++ (ofWord crc ++ tag :: rest)) (.error (.corruption (.unknownTag tag)), rest)
  /-- The input ends before the magic does. -/
  | noMagic {input : Bytes} (short : input.length < 4) : Outcome input (.error .io, [])
  /-- The input ends behind the magic, in front of the tag. -/
  | noTag {rest : Bytes} (short : rest.length < 5) : Outcome (ofWord magic ++ rest) (.error .io, [])
  /-- The input ends behind the tag. -/
  | noSizes (crc : UInt32) (e : Encoding) {rest : Bytes} (short : rest.length < 11) :
      Outcome (ofWord magic ++ (ofWord crc ++ e.tag :: rest)) (.error .io, [])

/-- What `taken` reads behind the tag. -/
def behindTag (crc : UInt32) (e : Encoding) : Take Header := do
  let _ ← Take.bytes 3
  let diskSize ← Take.word
  let bodySize ← Take.word
  return ⟨crc, e, diskSize, bodySize⟩

theorem outcome_behindTag (crc : UInt32) (e : Encoding) (input : Bytes) :
    Outcome (ofWord magic ++ (ofWord crc ++ e.tag :: input)) (behindTag crc e input) := by
  rw [behindTag]
  obtain ⟨hshort, hbytes⟩ | ⟨reserved, input, hreserved, rfl⟩ := Take.bytes_cases 3 input
  · rw [Take.bind_error hbytes]
    exact .noSizes crc e (by omega)
  rw [Take.bind_ok (Take.bytes_append hreserved input)]
  obtain ⟨hshort, hword⟩ | ⟨diskSize, input, rfl⟩ := word_cases input
  · rw [Take.bind_error hword]
    exact .noSizes crc e (by rw [List.length_append]; omega)
  rw [Take.bind_ok (word_ofWord diskSize input)]
  obtain ⟨hshort, hword⟩ | ⟨bodySize, input, rfl⟩ := word_cases input
  · rw [Take.bind_error hword]
    exact .noSizes crc e (by rw [List.length_append, List.length_append, length_ofWord]; omega)
  rw [Take.bind_ok (word_ofWord bodySize input), ← laidOut_append ⟨crc, e, diskSize, bodySize⟩]
  exact .header _ hreserved input

/-- The fields in their order: each is there and read, or the reading ends with it. -/
theorem outcome_read (input : Bytes) : Outcome input (read input) := by
  simp only [read, taken]
  obtain ⟨hshort, hword⟩ | ⟨found, input, rfl⟩ := word_cases input
  · rw [Take.bind_error hword]
    exact .noMagic hshort
  rw [Take.bind_ok (word_ofWord found input)]
  by_cases hmagic : found = magic
  case neg =>
    have hlift : Take.lift (checkMagic found) input = (.error (.corruption (.badMagic found.toNat)), input) := by
      rw [Take.lift, checkMagic, if_neg hmagic]
    rw [Take.bind_error hlift]
    exact .badMagic hmagic input
  subst hmagic
  rw [Take.bind_ok (a := ()) (by rfl)]
  obtain ⟨hshort, hword⟩ | ⟨crc, input, rfl⟩ := word_cases input
  · rw [Take.bind_error hword]
    exact .noTag (by omega)
  rw [Take.bind_ok (word_ofWord crc input)]
  obtain ⟨hshort, hbytes⟩ | ⟨tag, input, htag, rfl⟩ := Take.bytes_cases 1 input
  · rw [Take.bind_error hbytes]
    exact .noTag (by rw [List.length_append, length_ofWord]; omega)
  obtain ⟨tag, rfl⟩ := List.length_eq_one_iff.1 htag
  rw [Take.bind_ok (Take.bytes_append htag input), ofNat_number_singleton, List.singleton_append]
  cases hread : Encoding.ofTag? tag with
  | none =>
    have hlift : Take.lift (Encoding.read tag) input = (.error (.corruption (.unknownTag tag)), input) := by
      rw [Take.lift, Encoding.read, hread]
    rw [Take.bind_error hlift]
    exact .unknownTag crc (Encoding.ofTag?_eq_none_iff.1 hread) input
  | some e =>
    obtain rfl := Encoding.ofTag?_eq_some_iff.1 hread
    have hlift : Take.lift (Encoding.read e.tag) input = (.ok e, input) := by rw [Take.lift, Encoding.read, hread]
    rw [Take.bind_ok hlift]
    exact outcome_behindTag crc e input

theorem eq_of_read {h : Header} {input rest : Bytes} (hr : read input = (.ok h, rest)) :
    ∃ reserved, reserved.length = 3 ∧ input = h.laidOut reserved ++ rest := by
  have houtcome := outcome_read input
  rw [hr] at houtcome
  cases houtcome with
  | header h length rest => exact ⟨_, length, rfl⟩

theorem length_of_read {h : Header} {input rest : Bytes} (hr : read input = (.ok h, rest)) :
    input.length = headerSize + rest.length := by
  obtain ⟨reserved, hlen, rfl⟩ := eq_of_read hr
  rw [List.length_append, length_laidOut h hlen]

end Header

end Page

end WriteAhead
