import Mathlib.Data.List.Forall2
import WriteAhead.Proofs.Filename

/-!
Which strings are filenames of blocks. Main statements: an identifier is read from its spellings and nothing else
(`ofChars?_eq_some_iff`), and a filename is accepted exactly if it is of the grammar, be it in the form in which it
would be written or not (`reading`).
-/

namespace WriteAhead

namespace Fields

variable {sep : Char}

theorem join_cons (field : List Char) {fields : List (List Char)} (h : fields ≠ []) :
    join sep (field :: fields) = field ++ sep :: join sep fields := by
  rw [join]
  exact h

theorem split_ne_nil (sep : Char) (cs : List Char) : split sep cs ≠ [] := by
  fun_induction split sep cs <;> simp

theorem join_split (sep : Char) (cs : List Char) : join sep (split sep cs) = cs := by
  fun_induction split sep cs with
  | case1 => rfl
  | case2 cs ih => rw [join_cons [] (split_ne_nil sep cs), ih, List.nil_append]
  | case3 c cs _ hnil _ => exact absurd hnil (split_ne_nil sep cs)
  | case4 c cs _ field fields hcons ih =>
    rw [hcons] at ih
    cases fields with
    | nil => exact congrArg (c :: ·) ih
    | cons other fields => exact congrArg (c :: ·) ih

theorem notMem_of_mem_split {cs field : List Char} (h : field ∈ split sep cs) : sep ∉ field := by
  fun_induction split sep cs generalizing field with
  | case1 => simp_all
  | case2 cs ih =>
    obtain rfl | h := List.mem_cons.1 h
    · exact List.not_mem_nil
    · exact ih h
  | case3 c cs _ hnil _ => exact absurd hnil (split_ne_nil sep cs)
  | case4 c cs hne first fields hcons ih =>
    rw [hcons] at ih
    obtain rfl | h := List.mem_cons.1 h
    · rw [List.mem_cons, not_or]
      exact ⟨Ne.symm hne, ih List.mem_cons_self⟩
    · exact ih (List.mem_cons_of_mem _ h)

theorem split_eq_iff {cs : List Char} {fields : List (List Char)} (hne : fields ≠ []) :
    split sep cs = fields ↔ cs = join sep fields ∧ ∀ field ∈ fields, sep ∉ field := by
  constructor
  · rintro rfl
    exact ⟨(join_split sep cs).symm, fun field => notMem_of_mem_split⟩
  · rintro ⟨rfl, h⟩
    exact split_join hne h

theorem mem_join_of_mem {c : Char} {field : List Char} {fields : List (List Char)} (hf : field ∈ fields)
    (hc : c ∈ field) : c ∈ join sep fields := by
  fun_induction join sep fields with
  | case1 => cases hf
  | case2 other => rwa [List.mem_singleton.1 hf] at hc
  | case3 other fields _ ih =>
    obtain rfl | hf := List.mem_cons.1 hf
    · exact List.mem_append_left _ hc
    · exact List.mem_append_right _ (List.mem_cons_of_mem _ (ih hf))

end Fields

namespace Uuid

/-- The character stands for the digit, in lowercase or in uppercase. -/
def IsDigit (c : Char) (d : Fin 16) : Prop :=
  "0123456789abcdef".toList[d.val]? = some c ∨ "0123456789ABCDEF".toList[d.val]? = some c

/-- Digits in groups of 8, 4, 4, 4 and 12 between hyphens. -/
inductive Hyphenated : List Char → Uuid → Prop
  | intro {a b c d e : List Char} {u : Uuid} (ha : a.length = 8) (hb : b.length = 4) (hc : c.length = 4)
      (hd : d.length = 4) (he : e.length = 12) (digits : List.Forall₂ IsDigit (a ++ b ++ c ++ d ++ e) u.digits) :
      Hyphenated (a ++ '-' :: b ++ '-' :: c ++ '-' :: d ++ '-' :: e) u

/-- The spellings that can be a field of a filename. -/
inductive Spells : List Char → Uuid → Prop
  | simple {cs : List Char} {u : Uuid} (digits : List.Forall₂ IsDigit cs u.digits) : Spells cs u
  | hyphenated {cs : List Char} {u : Uuid} (h : Hyphenated cs u) : Spells cs u
  | braced {cs : List Char} {u : Uuid} (h : Hyphenated cs u) : Spells ('\x7b' :: cs ++ ['\x7d']) u

/-- The spelling as a name in the namespace of identifiers. -/
inductive Urn : List Char → Uuid → Prop
  | intro {scheme cs : List Char} {u : Uuid} (hs : scheme.map Char.toLower = "urn:uuid:".toList)
      (h : Hyphenated cs u) : Urn (scheme ++ cs) u

variable {cs : List Char} {u : Uuid}

theorem digit?_eq_some_iff {c : Char} {d : Fin 16} : digit? c = some d ↔ IsDigit c d := by
  constructor
  · intro h
    have hfound := List.find?_some h
    rw [Bool.or_eq_true, beq_iff_eq, beq_iff_eq] at hfound
    unfold IsDigit
    obtain rfl | rfl := hfound
    · left
      revert d
      decide
    · right
      revert d
      decide
  · have hlower : ∀ d : Fin 16, ("0123456789abcdef".toList[d.val]?).bind digit? = some d := by decide
    have hupper : ∀ d : Fin 16, ("0123456789ABCDEF".toList[d.val]?).bind digit? = some d := by decide
    rintro (h | h)
    · have hd := hlower d
      rwa [h] at hd
    · have hd := hupper d
      rwa [h] at hd

theorem mapM_digit?_eq_some_iff {ds : List (Fin 16)} : cs.mapM digit? = some ds ↔ List.Forall₂ IsDigit cs ds := by
  induction cs generalizing ds with
  | nil => cases ds <;> simp
  | cons c cs ih =>
    cases ds with
    | nil => simp [List.mapM_cons, Option.bind_eq_some_iff]
    | cons d ds => simp [List.mapM_cons, Option.bind_eq_some_iff, digit?_eq_some_iff, ih]

theorem ofDigits?_eq_some_iff : ofDigits? cs = some u ↔ List.Forall₂ IsDigit cs u.digits := by
  rw [← mapM_digit?_eq_some_iff, ofDigits?]
  cases h : cs.mapM digit? with
  | none => simp
  | some ds =>
    constructor
    · intro hu
      simp only [Option.bind_eq_bind, Option.bind_some] at hu
      split at hu
      · cases hu
        rfl
      · cases hu
    · rintro ⟨⟩
      exact dif_pos u.length_digits

theorem joinGroups?_eq_some_iff {ds : List Char} : joinGroups? cs = some ds ↔ ∃ a b c d e : List Char,
    (a.length = 8 ∧ b.length = 4 ∧ c.length = 4 ∧ d.length = 4 ∧ e.length = 12) ∧
      cs = a ++ '-' :: b ++ '-' :: c ++ '-' :: d ++ '-' :: e ∧ ds = a ++ b ++ c ++ d ++ e := by
  constructor
  · intro h
    unfold joinGroups? at h
    split at h
    · next hshape =>
      obtain ⟨hlength, h8, h13, h18, h23⟩ := hshape
      have hgroup : ∀ i n, cs[i]? = some '-' →
          cs.drop i = '-' :: ((cs.drop (i + 1)).take n ++ cs.drop (i + 1 + n)) := by
        intro i n hi
        obtain ⟨hlt, hi⟩ := List.getElem?_eq_some_iff.1 hi
        rw [List.drop_eq_getElem_cons hlt, hi, ← List.drop_drop (i := n), List.take_append_drop]
      have hb : cs.drop 8 = '-' :: ((cs.drop 9).take 4 ++ cs.drop 13) := hgroup 8 4 h8
      have hc : cs.drop 13 = '-' :: ((cs.drop 14).take 4 ++ cs.drop 18) := hgroup 13 4 h13
      have hd : cs.drop 18 = '-' :: ((cs.drop 19).take 4 ++ cs.drop 23) := hgroup 18 4 h18
      have he : cs.drop 23 = '-' :: cs.drop 24 := hgroup 23 0 h23
      cases h
      refine ⟨cs.take 8, (cs.drop 9).take 4, (cs.drop 14).take 4, (cs.drop 19).take 4, cs.drop 24,
        by simp [hlength], ?_, rfl⟩
      calc cs = cs.take 8 ++ cs.drop 8 := (List.take_append_drop 8 cs).symm
        _ = _ := by
          rw [hb, hc, hd, he]
          simp only [List.append_assoc, List.cons_append]
    · cases h
  · rintro ⟨a, b, c, d, e, ⟨ha, hb, hc, hd, he⟩, rfl, rfl⟩
    exact joinGroups?_groups ha hb hc hd he

theorem ofHyphenated?_eq_some_iff : ofHyphenated? cs = some u ↔ Hyphenated cs u := by
  rw [ofHyphenated?, Option.bind_eq_bind, Option.bind_eq_some_iff]
  constructor
  · rintro ⟨ds, hjoin, hds⟩
    obtain ⟨a, b, c, d, e, ⟨ha, hb, hc, hd, he⟩, rfl, rfl⟩ := joinGroups?_eq_some_iff.1 hjoin
    exact .intro ha hb hc hd he (ofDigits?_eq_some_iff.1 hds)
  · rintro ⟨ha, hb, hc, hd, he, digits⟩
    exact ⟨_, joinGroups?_groups ha hb hc hd he, ofDigits?_eq_some_iff.2 digits⟩

theorem length_of_hyphenated (h : Hyphenated cs u) : cs.length = 36 := by
  obtain ⟨ha, hb, hc, hd, he, -⟩ := h
  simp [ha, hb, hc, hd, he]

theorem spells_of_braces (hlength : cs.length = 38) (hhead : cs.head? = some '\x7b') (hlast : cs.getLast? = some '\x7d')
    (h : Hyphenated (cs.tail.take 36) u) : Spells cs u := by
  obtain ⟨front, rfl⟩ := List.getLast?_eq_some_iff.1 hlast
  rw [List.length_append, List.length_singleton] at hlength
  cases front with
  | nil => cases hlength
  | cons c front =>
    cases hhead
    have hfront : front.length = 36 := Nat.succ.inj (Nat.succ.inj hlength)
    rw [List.cons_append, List.tail_cons, List.take_left' hfront] at h
    exact .braced h

theorem ofChars?_braces (h : Hyphenated cs u) : ofChars? ('\x7b' :: cs ++ ['\x7d']) = some u := by
  have hlength := length_of_hyphenated h
  have htake : (cs ++ ['\x7d']).take 36 = cs := List.take_left' hlength
  have hall : ('\x7b' :: cs ++ ['\x7d']).length = 38 := by simp [hlength]
  have hlast : ('\x7b' :: cs ++ ['\x7d']).getLast? = some '\x7d' := List.getLast?_concat
  rw [ofChars?, hall, if_neg (by decide), if_neg (by decide), if_pos ⟨rfl, rfl, hlast⟩, List.cons_append,
    List.tail_cons, htake]
  exact ofHyphenated?_eq_some_iff.2 h

theorem ofChars?_urn {scheme : List Char} (hs : scheme.map Char.toLower = "urn:uuid:".toList) (h : Hyphenated cs u) :
    ofChars? (scheme ++ cs) = some u := by
  have hlength := length_of_hyphenated h
  have hnine : scheme.length = 9 := (List.length_map _).symm.trans (congrArg List.length hs)
  have htake : (scheme ++ cs).take 9 = scheme := List.take_left' hnine
  have hdrop : (scheme ++ cs).drop 9 = cs := List.drop_left' hnine
  have hall : (scheme ++ cs).length = 45 := by rw [List.length_append, hnine, hlength]
  rw [ofChars?, hall, htake, hdrop, if_neg (by decide), if_neg (by decide), if_neg (by simp), if_pos ⟨rfl, hs⟩]
  exact ofHyphenated?_eq_some_iff.2 h

/-- What is read as an identifier, and as which one. -/
theorem ofChars?_eq_some_iff : ofChars? cs = some u ↔ Spells cs u ∨ Urn cs u := by
  constructor
  · intro h
    unfold ofChars? at h
    split at h
    · exact .inl (.simple (ofDigits?_eq_some_iff.1 h))
    · split at h
      · exact .inl (.hyphenated (ofHyphenated?_eq_some_iff.1 h))
      · split at h
        · next hbraces =>
          obtain ⟨hlength, hhead, hlast⟩ := hbraces
          exact .inl (spells_of_braces hlength hhead hlast (ofHyphenated?_eq_some_iff.1 h))
        · split at h
          · next hurn =>
            rw [← List.take_append_drop 9 cs]
            exact .inr (.intro hurn.2 (ofHyphenated?_eq_some_iff.1 h))
          · cases h
  · rintro ((⟨digits⟩ | h | h) | @⟨scheme, cs, _, hs, h⟩)
    · have hlength : cs.length = 32 := digits.length_eq.trans u.length_digits
      rw [ofChars?, if_pos hlength]
      exact ofDigits?_eq_some_iff.2 digits
    · have hlength := length_of_hyphenated h
      rw [ofChars?, if_neg (by omega), if_pos hlength]
      exact ofHyphenated?_eq_some_iff.2 h
    · exact ofChars?_braces h
    · exact ofChars?_urn hs h

theorem isDigit_digitChar (d : Fin 16) : IsDigit (digitChar d) d :=
  digit?_eq_some_iff.1 (digit?_digitChar d)

theorem not_isUpper_digitChar (d : Fin 16) : ¬ (digitChar d).isUpper := by
  revert d
  decide

theorem eq_digitChar_of_isDigit {c : Char} {d : Fin 16} (h : IsDigit c d) (hc : ¬ c.isUpper) : c = digitChar d := by
  have hlower : ∀ d : Fin 16, "0123456789abcdef".toList[d.val]? = some (digitChar d) := by decide
  have hupper : ∀ d : Fin 16, ("0123456789ABCDEF".toList[d.val]?).all fun c => c.isUpper || c == digitChar d := by
    decide
  obtain h | h := h
  · exact Option.some.inj (h.symm.trans (hlower d))
  · have hd := hupper d
    rw [h] at hd
    simpa [hc] using hd

theorem eq_map_of_forall₂ {ds : List (Fin 16)} (h : List.Forall₂ IsDigit cs ds) (hc : ∀ c ∈ cs, ¬ c.isUpper) :
    cs = ds.map digitChar := by
  induction h with
  | nil => rfl
  | @cons c d cs ds hd _ ih =>
    rw [List.map_cons, eq_digitChar_of_isDigit hd (hc c List.mem_cons_self),
      ih fun other ho => hc other (List.mem_cons_of_mem _ ho)]

/-- Of all spellings the one that is written has hyphens and no capital letters. -/
theorem eq_chars_iff : cs = u.chars ↔ Hyphenated cs u ∧ ∀ c ∈ cs, ¬ c.isUpper := by
  constructor
  · rintro rfl
    refine ⟨?_, fun c hc hupper => u.notMem_chars ?_ (fun d hd => ?_) hc⟩
    · have hread := u.joinGroups?_chars
      obtain ⟨a, b, c, d, e, ⟨ha, hb, hc, hd, he⟩, hchars, hdigits⟩ := joinGroups?_eq_some_iff.1 hread
      rw [hchars]
      refine .intro ha hb hc hd he ?_
      rw [← hdigits, List.forall₂_map_left_iff, List.forall₂_same]
      exact fun d _ => isDigit_digitChar d
    · rintro rfl
      cases hupper
    · exact not_isUpper_digitChar d (hd ▸ hupper)
  · rintro ⟨@⟨a, b, c, d, e, u, ha, hb, hc, hd, he, digits⟩, hlower⟩
    have hmap := eq_map_of_forall₂ digits fun c hc => hlower c (by simp at hc ⊢; tauto)
    rw [chars, ← hmap]
    simp [List.drop_append, List.drop_of_length_le, ha, hb, hc, hd]

theorem eq_colon_of_toLower {c : Char} (h : c.toLower = ':') : c = ':' := by
  unfold Char.toLower at h
  split at h
  · next hupper =>
    have hval : (c.val + ('a'.val - 'A'.val)).toNat = 58 := congrArg Char.toNat h
    have hle : 65 ≤ c.val.toNat ∧ c.val.toNat ≤ 90 := hupper
    rw [UInt32.toNat_add] at hval
    change (c.val.toNat + 32) % 4294967296 = 58 at hval
    omega
  · exact h

theorem getElem?_of_urn (h : Urn cs u) : cs[3]? = some ':' := by
  obtain @⟨scheme, cs, _, hs, -⟩ := h
  have hcolon := congrArg (·[3]?) hs
  simp only [List.getElem?_map] at hcolon
  obtain ⟨c, hc, hlower⟩ := Option.map_eq_some_iff.1 (hcolon.trans rfl)
  rw [List.getElem?_append_left (List.getElem?_eq_some_iff.1 hc).1, hc, eq_colon_of_toLower hlower]

theorem length_of_spells (h : Spells cs u) : cs.length = 32 ∨ cs.length = 36 ∨ cs.length = 38 := by
  cases h with
  | simple digits => exact .inl (digits.length_eq.trans u.length_digits)
  | hyphenated h => exact .inr (.inl (length_of_hyphenated h))
  | braced h => simp [length_of_hyphenated h]

end Uuid

namespace Descriptor

/-- The fields of a name, the identifier being spelled as `id`. -/
def spelled (d : Descriptor) (id : List Char) (rest : List (List Char)) : List (List Char) :=
  id :: d.tenant.toList :: "v2".toList :: d.encoding.keyword.toList :: rest

/-- The grammar of filenames: four fields, or five if there is one for the data encoding, which may be empty. -/
structure IsName (s : String) (d : Descriptor) (id : List Char) (rest : List (List Char)) : Prop where
  separator : '/' ∉ s.toList
  joined : s.toList = Fields.join ':' (d.spelled id rest)
  colon : ∀ field ∈ d.spelled id rest, ':' ∉ field
  id : Uuid.Spells id d.id
  tenant : d.tenant ≠ ""
  dataEncoding : rest = [] ∧ d.dataEncoding = "" ∨ rest = [d.dataEncoding.toList]

/-- How a string is read as a filename. It need not be in the form in which it would be written. -/
structure Reading (s : String) : Prop where
  accepted : ∀ d, parse s = .ok d ↔ ∃ id rest, IsName s d id rest
  created : ∀ d, parse s = .ok d → create d.id d.tenant d.encoding d.dataEncoding = .ok d
  again : ∀ d, parse s = .ok d → parse d.filename = .ok d
  written : ∀ d id rest, IsName s d id rest →
    (d.filename = s ↔ (Uuid.Hyphenated id d.id ∧ ∀ c ∈ id, ¬ c.isUpper) ∧ rest ≠ [[]])
  rejected : ∀ fault, parse s = .error fault → ∃ why, fault = .invalidFilename s why
  urn : ∀ name u more, Uuid.Urn name u → s.toList = name ++ more → ∀ d, parse s ≠ .ok d

variable {s : String} {d : Descriptor} {id : List Char} {rest : List (List Char)}

theorem ofFields_eq_ok_iff {tenant ver keyword dataEncoding : List Char} :
    ofFields id tenant ver keyword dataEncoding = .ok d ↔ Uuid.ofChars? id = some d.id ∧ d.tenant ≠ "" ∧
      tenant = d.tenant.toList ∧ ver = version.toList ∧ keyword = d.encoding.keyword.toList ∧
      dataEncoding = d.dataEncoding.toList := by
  constructor
  · intro h
    unfold ofFields at h
    split at h
    · cases h
    · next u hid =>
      split at h
      · cases h
      · next hne =>
        split at h
        · cases h
        · next hver =>
          split at h
          · cases h
          · next encoding hkeyword =>
            cases h
            have hkeyword : encoding.keyword = String.ofList keyword := Encoding.ofKeyword?_eq_some_iff.1 hkeyword
            refine ⟨hid, ?_, ?_, Decidable.not_not.1 hver, ?_, ?_⟩
            · exact fun hempty => hne (String.ofList_eq_empty_iff.1 hempty)
            · rw [String.toList_ofList]
            · rw [hkeyword, String.toList_ofList]
            · rw [String.toList_ofList]
  · rintro ⟨hid, hne, rfl, rfl, rfl, rfl⟩
    have htenant : d.tenant.toList ≠ [] := fun hnil => hne (String.toList_eq_nil_iff.1 hnil)
    have hkeyword : Encoding.ofKeyword? d.encoding.keyword = some d.encoding :=
      Encoding.ofKeyword?_eq_some_iff.2 rfl
    simp [ofFields, hid, htenant, hkeyword]

theorem ofChars_eq_ok_iff {cs : List Char} : ofChars cs = .ok d ↔ '/' ∉ cs ∧ ∃ id rest,
    Fields.split ':' cs = d.spelled id rest ∧ Uuid.ofChars? id = some d.id ∧ d.tenant ≠ "" ∧
      (rest = [] ∧ d.dataEncoding = "" ∨ rest = [d.dataEncoding.toList]) := by
  constructor
  · intro h
    unfold ofChars at h
    split at h
    · cases h
    · next hseparator =>
      refine ⟨hseparator, ?_⟩
      split at h
      · next hsplit =>
        obtain ⟨hid, hne, rfl, rfl, rfl, hde⟩ := ofFields_eq_ok_iff.1 h
        exact ⟨_, [], hsplit, hid, hne, .inl ⟨rfl, String.toList_eq_nil_iff.1 hde.symm⟩⟩
      · next hsplit =>
        obtain ⟨hid, hne, rfl, rfl, rfl, rfl⟩ := ofFields_eq_ok_iff.1 h
        exact ⟨_, _, hsplit, hid, hne, .inr rfl⟩
      · cases h
  · rintro ⟨hseparator, id, rest, hsplit, hid, hne, ⟨rfl, hde⟩ | rfl⟩
    · rw [ofChars, if_neg hseparator, hsplit]
      exact ofFields_eq_ok_iff.2 ⟨hid, hne, rfl, rfl, rfl, by rw [hde]; rfl⟩
    · rw [ofChars, if_neg hseparator, hsplit]
      exact ofFields_eq_ok_iff.2 ⟨hid, hne, rfl, rfl, rfl, rfl⟩

theorem parse_eq_ok_iff : parse s = .ok d ↔ ofChars s.toList = .ok d := by
  rw [parse]
  cases ofChars s.toList <;> simp [Except.mapError]

theorem exists_isName_iff : parse s = .ok d ↔ ∃ id rest, IsName s d id rest := by
  rw [parse_eq_ok_iff, ofChars_eq_ok_iff]
  constructor
  · rintro ⟨hseparator, id, rest, hsplit, hid, hne, hrest⟩
    obtain ⟨hjoined, hcolon⟩ := (Fields.split_eq_iff (List.cons_ne_nil _ _)).1 hsplit
    refine ⟨id, rest, hseparator, hjoined, hcolon, ?_, hne, hrest⟩
    obtain hid | hurn := Uuid.ofChars?_eq_some_iff.1 hid
    · exact hid
    · exact absurd (List.mem_of_getElem? (Uuid.getElem?_of_urn hurn)) (hcolon id List.mem_cons_self)
  · rintro ⟨id, rest, h⟩
    have hsplit := (Fields.split_eq_iff (List.cons_ne_nil _ _)).2 ⟨h.joined, h.colon⟩
    exact ⟨h.separator, id, rest, hsplit, Uuid.ofChars?_eq_some_iff.2 (.inl h.id), h.tenant, h.dataEncoding⟩

theorem isWritable_of_isName (h : IsName s d id rest) : d.IsWritable := by
  have hfield : ∀ field : String, field.toList ∈ d.spelled id rest → Writable field := by
    intro field hf
    refine ⟨h.colon _ hf, fun hc => h.separator ?_⟩
    rw [h.joined]
    exact Fields.mem_join_of_mem hf hc
  refine ⟨h.tenant, hfield _ (by simp [spelled]), ?_⟩
  obtain ⟨-, hempty⟩ | hrest := h.dataEncoding
  · rw [hempty]
    exact ⟨List.not_mem_nil, List.not_mem_nil⟩
  · exact hfield _ (by simp [spelled, hrest])

theorem filename_eq_iff (h : IsName s d id rest) : d.filename = s ↔ id = d.id.chars ∧ rest ≠ [[]] := by
  have hsplit := (Fields.split_eq_iff (List.cons_ne_nil _ _)).2 ⟨h.joined, h.colon⟩
  have hfilename := split_filename (isWritable_of_isName h)
  have hfields : d.fields = d.spelled d.id.chars (if d.dataEncoding = "" then [] else [d.dataEncoding.toList]) := rfl
  have hsame : d.filename = s ↔ d.fields = d.spelled id rest := by
    constructor
    · rintro rfl
      exact hfilename.symm.trans hsplit
    · intro hf
      rw [← String.toList_inj, toList_filename, hf, h.joined]
  rw [hsame, hfields, spelled, spelled, eq_comm (a := id)]
  obtain ⟨rfl, hempty⟩ | rfl := h.dataEncoding
  · simp [hempty]
  · by_cases hempty : d.dataEncoding = "" <;> simp [hempty]

/-- Every string is either a filename by the grammar, which then says all that there is to say about a block, or it is
refused as none. -/
theorem reading (s : String) : Reading s := by
  refine ⟨fun d => exists_isName_iff, fun d hd => ?_, fun d hd => ?_, fun d id rest h => ?_, fun fault hf => ?_, ?_⟩
  · obtain ⟨id, rest, h⟩ := exists_isName_iff.1 hd
    exact create_eq_ok_iff.2 ⟨rfl, isWritable_of_isName h⟩
  · obtain ⟨id, rest, h⟩ := exists_isName_iff.1 hd
    exact parse_filename (isWritable_of_isName h)
  · rw [filename_eq_iff h, Uuid.eq_chars_iff]
  · rw [parse] at hf
    cases hc : ofChars s.toList with
    | error why =>
      rw [hc] at hf
      cases hf
      exact ⟨why, rfl⟩
    | ok d =>
      rw [hc] at hf
      cases hf
  · intro name u more hurn hs d hd
    obtain ⟨id, rest, h⟩ := exists_isName_iff.1 hd
    have hcolon : s.toList[3]? = some ':' := by
      rw [hs, List.getElem?_append_left, Uuid.getElem?_of_urn hurn]
      exact (List.getElem?_eq_some_iff.1 (Uuid.getElem?_of_urn hurn)).1
    -- the first field would end in front of this colon, but no spelling is that short
    have hlt : 3 < id.length := by
      have := Uuid.length_of_spells h.id
      omega
    rw [h.joined, spelled, Fields.join_cons _ (List.cons_ne_nil _ _), List.getElem?_append_left hlt] at hcolon
    exact h.colon id List.mem_cons_self (List.mem_of_getElem? hcolon)

/-- A filename with the identifier in braces and with an empty data encoding, neither of which would be written. -/
def braced : String := "\x7b00000000-0000-0000-0000-000000000000\x7d:t:v2:gzip:"

theorem reading_braced : ∃ d id rest, parse braced = .ok d ∧ IsName braced d id rest ∧
    parse d.filename = .ok d ∧ d.filename ≠ braced := by
  have hread := reading braced
  have hparse : parse braced = .ok ⟨.zero, "t", .gzip, ""⟩ := rfl
  obtain ⟨id, rest, hname⟩ := (hread.accepted _).1 hparse
  exact ⟨_, id, rest, hparse, hname, hread.again _ hparse, by decide +kernel⟩

end Descriptor

end WriteAhead
