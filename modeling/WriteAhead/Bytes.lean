/-!
Byte strings, their hexadecimal text, and numbers written lowest byte first. Main statements: a
number that fits is read back from its bytes (`number_littleEndian`), and bytes are determined by
the number they write (`littleEndian_number`).
-/

namespace WriteAhead

abbrev Bytes := List UInt8

namespace Bytes

def hexDigit (n : Nat) : Char :=
  if n < 10 then Char.ofNat (48 + n) else Char.ofNat (87 + n)

/-- Two lowercase digits per byte. -/
def hex (bytes : Bytes) : String :=
  String.ofList (bytes.flatMap fun b => [hexDigit (b.toNat / 16), hexDigit (b.toNat % 16)])

/-- The lowest `width` bytes of `n`, lowest first. -/
def littleEndian : Nat → Nat → Bytes
  | 0, _ => []
  | width + 1, n => UInt8.ofNat n :: littleEndian width (n / 256)

/-- The number that the bytes write, lowest first. -/
def number : Bytes → Nat
  | [] => 0
  | b :: rest => b.toNat + 256 * number rest

def limit : Nat → Nat
  | 0 => 1
  | width + 1 => 256 * limit width

def cut? (n : Nat) (bytes : Bytes) : Option (Bytes × Bytes) :=
  let (head, rest) := bytes.splitAt n
  if head.length = n then some (head, rest) else none

def number? (width : Nat) (bytes : Bytes) : Option (Nat × Bytes) :=
  (bytes.cut? width).map fun (head, rest) => (head.number, rest)

/-- Cuts off what is beyond `n` bytes, or fills up with zeros. -/
def resize (n : Nat) (bytes : Bytes) : Bytes :=
  bytes.take n ++ List.replicate (n - bytes.length) 0

@[simp] theorem length_littleEndian (width n : Nat) : (littleEndian width n).length = width := by
  induction width generalizing n with
  | zero => rfl
  | succ width ih => simp [littleEndian, ih]

theorem limit_four : limit 4 = UInt32.size := rfl

theorem number_lt (bytes : Bytes) : number bytes < limit bytes.length := by
  induction bytes with
  | nil => exact Nat.one_pos
  | cons b rest ih =>
    have := b.toNat_lt
    simp only [number, List.length_cons, limit]
    omega

theorem number_littleEndian (width n : Nat) : number (littleEndian width n) = n % limit width := by
  induction width generalizing n with
  | zero => simp [littleEndian, number, limit, Nat.mod_one]
  | succ width ih =>
    rw [littleEndian, number, ih, limit, UInt8.toNat_ofNat', Nat.mod_mul]

theorem littleEndian_number (bytes : Bytes) : littleEndian bytes.length (number bytes) = bytes := by
  induction bytes with
  | nil => rfl
  | cons b rest ih =>
    have hb := b.toNat_lt
    have hdiv : (b.toNat + 256 * number rest) / 256 = number rest := by omega
    simp only [List.length_cons, littleEndian, number, hdiv, ih, List.cons.injEq, and_true]
    apply UInt8.toNat_inj.1
    rw [UInt8.toNat_ofNat']
    omega

theorem cut?_eq_some_iff {n : Nat} {bytes head rest : Bytes} :
    cut? n bytes = some (head, rest) ↔ bytes = head ++ rest ∧ head.length = n := by
  simp only [cut?, List.splitAt_eq]
  constructor
  · intro h
    split at h
    · next hn =>
      simp only [Option.some.injEq, Prod.mk.injEq] at h
      obtain ⟨rfl, rfl⟩ := h
      exact ⟨(List.take_append_drop n bytes).symm, hn⟩
    · simp at h
  · rintro ⟨rfl, rfl⟩
    simp

theorem cut?_of_le {n : Nat} {bytes : Bytes} (h : n ≤ bytes.length) :
    cut? n bytes = some (bytes.take n, bytes.drop n) :=
  cut?_eq_some_iff.2 ⟨(List.take_append_drop n bytes).symm, List.length_take_of_le h⟩

theorem cut?_eq_none_iff {n : Nat} {bytes : Bytes} : cut? n bytes = none ↔ bytes.length < n := by
  simp only [cut?, List.splitAt_eq, List.length_take, ite_eq_right_iff, reduceCtorEq, imp_false]
  omega

theorem length_of_cut? {n : Nat} {bytes head rest : Bytes} (h : cut? n bytes = some (head, rest)) :
    bytes.length = n + rest.length := by
  obtain ⟨rfl, rfl⟩ := cut?_eq_some_iff.1 h
  exact List.length_append

@[simp] theorem cut?_append (head rest : Bytes) : cut? head.length (head ++ rest) = some (head, rest) :=
  cut?_eq_some_iff.2 ⟨rfl, rfl⟩

theorem number?_littleEndian (width n : Nat) (rest : Bytes) :
    number? width (littleEndian width n ++ rest) = some (n % limit width, rest) := by
  have hc := cut?_append (littleEndian width n) rest
  rw [length_littleEndian] at hc
  simp only [number?, hc, Option.map_some, number_littleEndian]

theorem number?_append (width : Nat) {n : Nat} (h : n < limit width) (rest : Bytes) :
    number? width (littleEndian width n ++ rest) = some (n, rest) := by
  rw [number?_littleEndian, Nat.mod_eq_of_lt h]

theorem number?_eq_none_iff {width : Nat} {bytes : Bytes} : number? width bytes = none ↔ bytes.length < width := by
  rw [number?, Option.map_eq_none_iff, cut?_eq_none_iff]

theorem number?_eq_some_iff {width n : Nat} {bytes rest : Bytes} :
    number? width bytes = some (n, rest) ↔ n < limit width ∧ bytes = littleEndian width n ++ rest := by
  constructor
  · intro h
    simp only [number?, Option.map_eq_some_iff, Prod.mk.injEq, Prod.exists] at h
    obtain ⟨head, _, hc, rfl, rfl⟩ := h
    obtain ⟨rfl, rfl⟩ := cut?_eq_some_iff.1 hc
    exact ⟨number_lt head, by rw [littleEndian_number]⟩
  · rintro ⟨hn, rfl⟩
    exact number?_append width hn rest

theorem length_of_number? {n v : Nat} {bytes rest : Bytes} (h : number? n bytes = some (v, rest)) :
    bytes.length = n + rest.length := by
  rw [(number?_eq_some_iff.1 h).2, List.length_append, length_littleEndian]

end Bytes

end WriteAhead
