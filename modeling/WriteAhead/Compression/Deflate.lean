import WriteAhead.Compression.History
import WriteAhead.Compression.PrefixCode

/-!
Deflate streams: blocks of literals and back-references, stored or under prefix codes.
-/

namespace WriteAhead.Deflate

/-- Least length and number of further bits, for each symbol from 257 on. -/
def lengthClasses : Array (Nat × Nat) := #[
  (3, 0), (4, 0), (5, 0), (6, 0), (7, 0), (8, 0), (9, 0), (10, 0), (11, 1), (13, 1), (15, 1), (17, 1),
  (19, 2), (23, 2), (27, 2), (31, 2), (35, 3), (43, 3), (51, 3), (59, 3), (67, 4), (83, 4), (99, 4),
  (115, 4), (131, 5), (163, 5), (195, 5), (227, 5), (258, 0)]

def distanceClasses : Array (Nat × Nat) := #[
  (1, 0), (2, 0), (3, 0), (4, 0), (5, 1), (7, 1), (9, 2), (13, 2), (17, 3), (25, 3), (33, 4), (49, 4),
  (65, 5), (97, 5), (129, 6), (193, 6), (257, 7), (385, 7), (513, 8), (769, 8), (1025, 9), (1537, 9),
  (2049, 10), (3073, 10), (4097, 11), (6145, 11), (8193, 12), (12289, 12), (16385, 13), (24577, 13)]

/-- The order in which the lengths of the code for code lengths are written. -/
def lengthOrder : List Nat :=
  [16, 17, 18, 0, 8, 7, 9, 6, 10, 5, 11, 4, 12, 3, 13, 2, 14, 1, 15]

structure Codes where
  literals : PrefixCode
  distances : PrefixCode

def fixedCodes : Codes where
  literals := .ofLengths (List.replicate 144 8 ++ List.replicate 112 9 ++ List.replicate 24 7 ++ List.replicate 8 8)
  distances := .ofLengths (List.replicate 32 5)

/-- Reads a number of the class that `symbol` stands for. -/
def classNumber? (classes : Array (Nat × Nat)) (symbol : Nat) (s : BitStream) : Option (Nat × BitStream) := do
  let (least, bits) ← classes[symbol]?
  let (more, s) ← s.number? bits
  some (least + more, s)

inductive Item
  | literal (b : UInt8)
  | endOfBlock
  | reference (length distance : Nat)

def item? (codes : Codes) (s : BitStream) : Option (Item × BitStream) := do
  let (symbol, s) ← codes.literals.read? s
  if symbol < 256 then some (.literal (UInt8.ofNat symbol), s)
  else if symbol = 256 then some (.endOfBlock, s)
  else
    let (length, s) ← classNumber? lengthClasses (symbol - 257) s
    let (symbol, s) ← codes.distances.read? s
    let (distance, s) ← classNumber? distanceClasses symbol s
    some (.reference length distance, s)

theorem classNumber?_left {classes : Array (Nat × Nat)} {symbol v : Nat} {s t : BitStream}
    (h : classNumber? classes symbol s = some (v, t)) : t.left ≤ s.left := by
  simp only [classNumber?, Option.bind_eq_bind, Option.bind_eq_some_iff, Prod.exists, Option.some.injEq,
    Prod.mk.injEq] at h
  obtain ⟨_, _, _, _, _, hn, _, rfl⟩ := h
  exact BitStream.number?_left hn

theorem item?_left {codes : Codes} {v : Item} {s t : BitStream} (h : item? codes s = some (v, t)) :
    t.left < s.left := by
  simp only [item?, Option.bind_eq_bind, Option.bind_eq_some_iff, Prod.exists] at h
  obtain ⟨_, _, h0, h⟩ := h
  have := PrefixCode.read?_left h0
  split at h
  · simp_all
  · split at h
    · simp_all
    · simp only [Option.bind_eq_some_iff, Prod.exists, Option.some.injEq, Prod.mk.injEq] at h
      obtain ⟨_, _, h1, _, _, h2, _, _, h3, _, rfl⟩ := h
      have := classNumber?_left h1
      have := PrefixCode.read?_left h2
      have := classNumber?_left h3
      omega

def items (codes : Codes) (s : BitStream) (out : History) : Option (BitStream × History) :=
  match h : item? codes s with
  | none => none
  | some (.literal b, t) =>
    have := item?_left h
    items codes t (out.push b)
  | some (.endOfBlock, t) => some (t, out)
  | some (.reference length distance, t) =>
    have := item?_left h
    match out.copy? distance length with
    | none => none
    | some out => items codes t out
termination_by s.left

theorem items_left {codes : Codes} {s t : BitStream} {out v : History}
    (h : items codes s out = some (t, v)) : t.left < s.left := by
  fun_induction items codes s out with
  | case1 => simp at h
  | case2 s out b u hu _ ih => exact Nat.lt_trans (ih h) (item?_left hu)
  | case3 s out u hu =>
    simp only [Option.some.injEq, Prod.mk.injEq] at h
    exact h.1 ▸ item?_left hu
  | case4 => simp at h
  | case5 s out length distance u hu _ out' hc ih => exact Nat.lt_trans (ih h) (item?_left hu)

/-- The symbols 16, 17 and 18 repeat the length before or zero. -/
def repetition? (symbol : Nat) (lengths : Array Nat) (s : BitStream) : Option (Array Nat × BitStream) :=
  match symbol with
  | 16 => do
    let length ← lengths.back?
    let (more, s) ← s.number? 2
    some (lengths ++ Array.replicate (3 + more) length, s)
  | 17 => do
    let (more, s) ← s.number? 3
    some (lengths ++ Array.replicate (3 + more) 0, s)
  | 18 => do
    let (more, s) ← s.number? 7
    some (lengths ++ Array.replicate (11 + more) 0, s)
  | length => some (lengths.push length, s)

theorem repetition?_left {symbol : Nat} {lengths v : Array Nat} {s t : BitStream}
    (h : repetition? symbol lengths s = some (v, t)) : t.left ≤ s.left := by
  unfold repetition? at h
  split at h
  all_goals
    simp only [Option.bind_eq_bind, Option.bind_eq_some_iff, Prod.exists, Option.some.injEq,
      Prod.mk.injEq] at h
  · obtain ⟨_, _, _, _, hn, _, rfl⟩ := h
    exact BitStream.number?_left hn
  · obtain ⟨_, _, hn, _, rfl⟩ := h
    exact BitStream.number?_left hn
  · obtain ⟨_, _, hn, _, rfl⟩ := h
    exact BitStream.number?_left hn
  · obtain ⟨_, rfl⟩ := h
    exact Nat.le_refl _

def codeLengths (code : PrefixCode) (n : Nat) (s : BitStream) (lengths : Array Nat) :
    Option (Array Nat × BitStream) :=
  if lengths.size < n then
    match h : code.read? s with
    | none => none
    | some (symbol, t) =>
      have := PrefixCode.read?_left h
      match h' : repetition? symbol lengths t with
      | none => none
      | some (lengths, u) =>
        have := repetition?_left h'
        codeLengths code n u lengths
  else if lengths.size = n then some (lengths, s)
  else none
termination_by s.left

theorem codeLengths_left {code : PrefixCode} {n : Nat} {s t : BitStream} {lengths v : Array Nat}
    (h : codeLengths code n s lengths = some (v, t)) : t.left ≤ s.left := by
  fun_induction codeLengths code n s lengths with
  | case1 => simp at h
  | case2 => simp at h
  | case3 s lengths hn symbol u hu hlt lengths' w hw hle ih =>
    have := ih h
    omega
  | case4 =>
    simp only [Option.some.injEq, Prod.mk.injEq] at h
    exact h.2 ▸ Nat.le_refl _
  | case5 => simp at h

def triples? : Nat → BitStream → Option (List Nat × BitStream)
  | 0, s => some ([], s)
  | n + 1, s => do
    let (v, s) ← s.number? 3
    let (vs, s) ← triples? n s
    some (v :: vs, s)

theorem triples?_left {n : Nat} {s t : BitStream} {vs : List Nat} (h : triples? n s = some (vs, t)) :
    t.left ≤ s.left := by
  induction n generalizing s vs with
  | zero =>
    simp only [triples?, Option.some.injEq, Prod.mk.injEq] at h
    exact h.2 ▸ Nat.le_refl _
  | succ n ih =>
    simp only [triples?, Option.bind_eq_bind, Option.bind_eq_some_iff, Prod.exists, Option.some.injEq,
      Prod.mk.injEq] at h
    obtain ⟨_, _, h1, _, _, h2, _, rfl⟩ := h
    exact Nat.le_trans (ih h2) (BitStream.number?_left h1)

def lengthCode (written : List Nat) : PrefixCode :=
  let assigned := lengthOrder.zip written
  .ofLengths ((List.range 19).map fun symbol => (assigned.lookup symbol).getD 0)

def codes? (s : BitStream) : Option (Codes × BitStream) := do
  let (literals, s) ← s.number? 5
  let (distances, s) ← s.number? 5
  let (written, s) ← s.number? 4
  let (written, s) ← triples? (written + 4) s
  let literals := literals + 257
  let distances := distances + 1
  let code := lengthCode written
  if literals ≤ 286 ∧ distances ≤ 30 ∧ code.isComplete then
    let (lengths, s) ← codeLengths code (literals + distances) s #[]
    let codes : Codes := ⟨.ofLengths (lengths.toList.take literals), .ofLengths (lengths.toList.drop literals)⟩
    if codes.literals.isUsable ∧ codes.distances.isUsable then some (codes, s) else none
  else none

theorem codes?_left {s t : BitStream} {codes : Codes} (h : codes? s = some (codes, t)) : t.left ≤ s.left := by
  simp only [codes?, Option.bind_eq_bind, Option.bind_eq_some_iff, Prod.exists] at h
  obtain ⟨_, _, h1, _, _, h2, _, _, h3, _, _, h4, h⟩ := h
  split at h
  · simp only [Option.bind_eq_some_iff, Prod.exists] at h
    obtain ⟨_, _, h5, h⟩ := h
    split at h
    · simp only [Option.some.injEq, Prod.mk.injEq] at h
      obtain ⟨_, rfl⟩ := h
      have := BitStream.number?_left h1
      have := BitStream.number?_left h2
      have := BitStream.number?_left h3
      have := triples?_left h4
      have := codeLengths_left h5
      omega
    · simp at h
  · simp at h

/-- Bytes as they are, behind their number and its complement. -/
def stored? (s : BitStream) (out : History) : Option (BitStream × History) := do
  let (length, bytes) ← s.aligned.number? 2
  let (complement, bytes) ← bytes.number? 2
  if length + complement = 65535 then
    let (content, bytes) ← bytes.cut? length
    some (.ofBytes bytes, out ++ content)
  else none

/-- Reads a block behind its first three bits; the last of the three kinds has its codes in front. -/
def content? (kind : Nat) (s : BitStream) (out : History) : Option (BitStream × History) :=
  match kind with
  | 0 => stored? s out
  | 1 => items fixedCodes s out
  | 2 => do
    let (codes, s) ← codes? s
    items codes s out
  | _ => none

theorem aligned_left (s : BitStream) : 8 * s.aligned.length ≤ s.left := by
  obtain ⟨bytes, used⟩ := s
  have hu := used.isLt
  simp only [BitStream.aligned, BitStream.left]
  split
  · next h => simp_all
  · simp only [List.length_tail]
    omega

theorem stored?_left {s t : BitStream} {out v : History} (h : stored? s out = some (t, v)) :
    t.left ≤ s.left := by
  simp only [stored?, Option.bind_eq_bind, Option.bind_eq_some_iff, Prod.exists] at h
  obtain ⟨_, _, h1, _, _, h2, h⟩ := h
  split at h
  · simp only [Option.bind_eq_some_iff, Prod.exists, Option.some.injEq, Prod.mk.injEq] at h
    obtain ⟨_, rest, h3, rfl, _⟩ := h
    have := aligned_left s
    have := Bytes.length_of_number? h1
    have := Bytes.length_of_number? h2
    have := Bytes.length_of_cut? h3
    simp only [BitStream.ofBytes, BitStream.left] at *
    omega
  · simp at h

theorem content?_left {kind : Nat} {s t : BitStream} {out v : History}
    (h : content? kind s out = some (t, v)) : t.left ≤ s.left := by
  unfold content? at h
  split at h
  · exact stored?_left h
  · exact Nat.le_of_lt (items_left h)
  · simp only [Option.bind_eq_bind, Option.bind_eq_some_iff, Prod.exists] at h
    obtain ⟨_, _, h1, h2⟩ := h
    exact Nat.le_trans (Nat.le_of_lt (items_left h2)) (codes?_left h1)
  · simp at h

/-- Reads blocks up to the last one; gives what they unpack to and what follows them. -/
def blocks (s : BitStream) (out : History) : Option (History × Bytes) :=
  match h : s.number? 3 with
  | none => none
  | some (header, t) =>
    have := BitStream.number?_left_lt (by omega) h
    match h' : content? (header / 2) t out with
    | none => none
    | some (u, out) =>
      have := content?_left h'
      if header % 2 = 1 then some (out, u.aligned) else blocks u out
termination_by s.left

def inflate (bytes : Bytes) : Option (Bytes × Bytes) :=
  (blocks (.ofBytes bytes) #[]).map fun (out, rest) => (out.toList, rest)

end WriteAhead.Deflate
