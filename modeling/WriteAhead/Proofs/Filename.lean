import WriteAhead.Descriptor

/-!
Filenames of blocks. Main statements: a descriptor that was made is read back from its filename
(`parse_filename`), and one can be made of all fields that a filename can hold (`survives_of_create`).
-/

namespace WriteAhead

namespace Fields

variable {sep : Char}

theorem split_join {fields : List (List Char)} (hne : fields ≠ []) (h : ∀ field ∈ fields, sep ∉ field) :
    split sep (join sep fields) = fields := by
  fun_induction join sep fields with
  | case1 => exact absurd rfl hne
  | case2 field => exact split_of_notMem (h field List.mem_cons_self)
  | case3 field fields hmore ih =>
    rw [split_append (h field List.mem_cons_self)]
    exact congrArg _ (ih hmore fun other ho => h other (List.mem_cons_of_mem _ ho))

theorem mem_join {c : Char} {fields : List (List Char)} (h : c ∈ join sep fields) :
    c = sep ∨ ∃ field ∈ fields, c ∈ field := by
  fun_induction join sep fields with
  | case1 => cases h
  | case2 field => exact .inr ⟨field, List.mem_cons_self, h⟩
  | case3 field fields _ ih =>
    obtain h | h := List.mem_append.1 h
    · exact .inr ⟨field, List.mem_cons_self, h⟩
    · obtain h | h := List.mem_cons.1 h
      · exact .inl h
      · obtain h | ⟨other, ho, hc⟩ := ih h
        · exact .inl h
        · exact .inr ⟨other, List.mem_cons_of_mem _ ho, hc⟩

end Fields

namespace Uuid

theorem digit?_digitChar (d : Fin 16) : digit? (digitChar d) = some d := by
  revert d
  decide

theorem mapM_digit? (ds : List (Fin 16)) : (ds.map digitChar).mapM digit? = some ds := by
  induction ds with
  | nil => rfl
  | cons d ds ih =>
    rw [List.map_cons, List.mapM_cons, digit?_digitChar, ih]
    rfl

theorem ofDigits?_digits (u : Uuid) : ofDigits? (u.digits.map digitChar) = some u := by
  rw [ofDigits?, mapM_digit?]
  exact dif_pos u.length_digits

theorem length_chars (u : Uuid) : u.chars.length = 36 := by
  simp [chars, u.length_digits]

theorem joinGroups?_groups {a b c d e : List Char} (ha : a.length = 8) (hb : b.length = 4) (hc : c.length = 4)
    (hd : d.length = 4) (he : e.length = 12) :
    joinGroups? (a ++ '-' :: b ++ '-' :: c ++ '-' :: d ++ '-' :: e) = some (a ++ b ++ c ++ d ++ e) := by
  simp [joinGroups?, List.drop_append, List.drop_of_length_le, ha, hb, hc, hd, he]

theorem joinGroups?_chars (u : Uuid) : joinGroups? u.chars = some (u.digits.map digitChar) := by
  have hlength : (u.digits.map digitChar).length = 32 := by rw [List.length_map, u.length_digits]
  unfold chars
  generalize u.digits.map digitChar = cs at hlength
  have hnext : ∀ n, (cs.drop n).take 4 ++ cs.drop (n + 4) = cs.drop n := by
    intro n
    rw [← List.drop_drop, List.take_append_drop]
  dsimp only
  rw [joinGroups?_groups (by simp [hlength]) (by simp [hlength]) (by simp [hlength]) (by simp [hlength])
    (by simp [hlength])]
  simp only [List.append_assoc, hnext, List.take_append_drop]

theorem ofChars?_chars (u : Uuid) : ofChars? u.chars = some u := by
  rw [ofChars?, if_neg (by rw [length_chars]; decide), if_pos u.length_chars, ofHyphenated?, joinGroups?_chars]
  exact u.ofDigits?_digits

theorem notMem_chars (u : Uuid) {c : Char} (hc : c ≠ '-') (hd : ∀ d, digitChar d ≠ c) : c ∉ u.chars := by
  have hmap : c ∉ u.digits.map digitChar := by
    intro h
    obtain ⟨d, -, rfl⟩ := List.mem_map.1 h
    exact hd d rfl
  intro h
  simp only [chars, List.mem_append, List.mem_cons, hc, false_or] at h
  obtain (((h | h) | h) | h) | h := h
  · exact hmap (List.mem_of_mem_take h)
  · exact hmap (List.mem_of_mem_drop (List.mem_of_mem_take h))
  · exact hmap (List.mem_of_mem_drop (List.mem_of_mem_take h))
  · exact hmap (List.mem_of_mem_drop (List.mem_of_mem_take h))
  · exact hmap (List.mem_of_mem_drop h)

end Uuid

namespace Descriptor

/-- What `create` makes sure of. -/
structure IsWritable (d : Descriptor) : Prop where
  tenant_ne : d.tenant ≠ ""
  tenant : Writable d.tenant
  dataEncoding : Writable d.dataEncoding

theorem create_eq_ok_iff {id : Uuid} {tenant dataEncoding : String} {encoding : Encoding} {d : Descriptor} :
    create id tenant encoding dataEncoding = .ok d ↔ d = ⟨id, tenant, encoding, dataEncoding⟩ ∧ d.IsWritable := by
  constructor
  · intro h
    unfold create at h
    split at h
    · cases h
    · next hne =>
      split at h
      · cases h
      · next ht =>
        split at h
        · cases h
        · next hd =>
          cases h
          exact ⟨rfl, hne, Decidable.not_not.1 ht, Decidable.not_not.1 hd⟩
  · rintro ⟨rfl, hne, ht, hd⟩
    rw [create, if_neg hne, if_neg (not_not_intro ht), if_neg (not_not_intro hd)]

theorem isWritable_of_create {id : Uuid} {tenant dataEncoding : String} {encoding : Encoding} {d : Descriptor}
    (h : create id tenant encoding dataEncoding = .ok d) : d.IsWritable :=
  (create_eq_ok_iff.1 h).2

variable {d : Descriptor}

theorem notMem_of_mem_fields (h : d.IsWritable) {field : List Char} (hf : field ∈ d.fields) :
    ':' ∉ field ∧ '/' ∉ field := by
  have hdigit : ∀ c, c = ':' ∨ c = '/' → ∀ digit, Uuid.digitChar digit ≠ c := by
    rintro c (rfl | rfl) <;> decide
  have hid : ':' ∉ d.id.chars ∧ '/' ∉ d.id.chars :=
    ⟨d.id.notMem_chars (by decide) (hdigit _ (.inl rfl)), d.id.notMem_chars (by decide) (hdigit _ (.inr rfl))⟩
  have hkeyword : ':' ∉ d.encoding.keyword.toList ∧ '/' ∉ d.encoding.keyword.toList := by
    cases d.encoding <;> decide
  rw [fields, List.mem_append] at hf
  obtain hf | hf := hf
  · simp only [List.mem_cons, List.not_mem_nil, or_false] at hf
    obtain rfl | rfl | rfl | rfl := hf
    · exact hid
    · exact h.tenant
    · decide
    · exact hkeyword
  · split at hf
    · cases hf
    · rw [List.mem_singleton.1 hf]
      exact h.dataEncoding

theorem toList_filename (d : Descriptor) : d.filename.toList = Fields.join ':' d.fields :=
  String.toList_ofList

theorem split_filename (h : d.IsWritable) : Fields.split ':' d.filename.toList = d.fields := by
  have hne : d.fields ≠ [] := List.append_ne_nil_of_left_ne_nil (List.cons_ne_nil _ _) _
  rw [toList_filename, Fields.split_join hne]
  exact fun field hf => (notMem_of_mem_fields h hf).1

theorem separator_notMem_filename (h : d.IsWritable) : '/' ∉ d.filename.toList := by
  rw [toList_filename]
  intro hc
  obtain hc | ⟨field, hf, hc⟩ := Fields.mem_join hc
  · exact absurd hc (by decide)
  · exact (notMem_of_mem_fields h hf).2 hc

theorem parse_filename (h : d.IsWritable) : parse d.filename = .ok d := by
  have htenant : d.tenant.toList ≠ [] := fun hnil => h.tenant_ne (String.toList_eq_nil_iff.1 hnil)
  have hkeyword : Encoding.ofKeyword? d.encoding.keyword = some d.encoding :=
    Encoding.ofKeyword?_eq_some_iff.2 rfl
  have hfields : ∀ dataEncoding : String, d.dataEncoding = dataEncoding →
      ofFields d.id.chars d.tenant.toList version.toList d.encoding.keyword.toList dataEncoding.toList = .ok d := by
    rintro dataEncoding rfl
    simp [ofFields, Uuid.ofChars?_chars, htenant, hkeyword]
  rw [parse, ofChars, if_neg (separator_notMem_filename h), split_filename h, fields]
  by_cases hempty : d.dataEncoding = ""
  · rw [if_pos hempty]
    exact congrArg _ (hfields "" hempty)
  · rw [if_neg hempty]
    exact congrArg _ (hfields _ rfl)

theorem filename_inj {d' : Descriptor} (h : d.IsWritable) (h' : d'.IsWritable) (hf : d'.filename = d.filename) :
    d' = d := by
  have hparse := parse_filename h'
  rw [hf, parse_filename h] at hparse
  exact (Except.ok.inj hparse).symm

/-- The filename says all about the descriptor, and does not lead out of its directory. -/
structure Survives (d : Descriptor) : Prop where
  parse : parse d.filename = .ok d
  separator : '/' ∉ d.filename.toList
  unique : ∀ id tenant encoding dataEncoding d', create id tenant encoding dataEncoding = .ok d' →
    d'.filename = d.filename → d' = d

/-- A descriptor can be made of any fields but those that a filename cannot hold, and it survives its filename. -/
theorem survives_of_create (id : Uuid) (tenant : String) (encoding : Encoding) (dataEncoding : String) :
    ((∃ d, create id tenant encoding dataEncoding = .ok d) ↔
      tenant ≠ "" ∧ ∀ c, c = ':' ∨ c = '/' → c ∉ tenant.toList ∧ c ∉ dataEncoding.toList) ∧
    ∀ d, create id tenant encoding dataEncoding = .ok d → d = ⟨id, tenant, encoding, dataEncoding⟩ ∧ d.Survives := by
  refine ⟨⟨?_, ?_⟩, fun d hd => ?_⟩
  · rintro ⟨d, hd⟩
    obtain ⟨rfl, hne, ht, hde⟩ := create_eq_ok_iff.1 hd
    refine ⟨hne, ?_⟩
    rintro c (rfl | rfl)
    · exact ⟨ht.1, hde.1⟩
    · exact ⟨ht.2, hde.2⟩
  · rintro ⟨hne, hc⟩
    obtain ⟨ht, hde⟩ := hc ':' (.inl rfl)
    obtain ⟨ht', hde'⟩ := hc '/' (.inr rfl)
    exact ⟨_, create_eq_ok_iff.2 ⟨rfl, hne, ⟨ht, ht'⟩, hde, hde'⟩⟩
  · obtain ⟨heq, hw⟩ := create_eq_ok_iff.1 hd
    refine ⟨heq, parse_filename hw, separator_notMem_filename hw, fun _ _ _ _ d' hd' hf => ?_⟩
    exact filename_inj hw (isWritable_of_create hd') hf

/-- Fields that look like other fields. -/
theorem survives_lookalike : ∃ d, create .zero "v2" .gzip "none" = .ok d ∧ d.Survives := by
  have hmade : create .zero "v2" .gzip "none" = .ok ⟨.zero, "v2", .gzip, "none"⟩ := rfl
  exact ⟨_, hmade, ((survives_of_create .zero "v2" .gzip "none").2 _ hmade).2⟩

/-- A name without fields is not that of a block. -/
theorem filename_ne (d : Descriptor) {name : String} (h : ':' ∉ name.toList) : d.filename ≠ name := by
  rintro rfl
  apply h
  rw [toList_filename]
  simp [fields, Fields.join]

end Descriptor

end WriteAhead
