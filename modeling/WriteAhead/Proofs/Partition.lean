import Mathlib.Data.List.Nodup
import WriteAhead.Proofs.Grouping

/-!
Grouping, apart from how it is done. Main statements: going through the sorted records while looking at no group but
the last gives the groups (`foldl_join`), and these are the only ones that take each record once, under its id, in
append order, by ascending id (`isGrouping_iff`).
-/

namespace WriteAhead.Index

/-- The groups after one more record: it goes into the last group if it has the id of that, else it begins one. -/
def join (groups : List (List Record)) (r : Record) : List (List Record) :=
  match groups.getLast? with
  | some group => if Iteration.idOf group = r.id then groups.dropLast ++ [group ++ [r]] else groups ++ [[r]]
  | none => [[r]]

/-- The groups hold the records `xs`, and where one ends, the next id is another. -/
structure Collects (xs : List Record) (groups : List (List Record)) : Prop where
  flatten : groups.flatten = xs
  nonempty : [] ∉ groups
  single : ∀ group ∈ groups, ∀ r ∈ group, r.id = Iteration.idOf group
  differ : groups.IsChain fun a b => Iteration.idOf a ≠ Iteration.idOf b

section

variable {xs : List Record} {groups : List (List Record)}

theorem collects_concat (h : Collects xs groups) (r : Record)
    (hr : ∀ group ∈ groups.getLast?, Iteration.idOf group ≠ r.id) : Collects (xs ++ [r]) (groups ++ [[r]]) := by
  refine ⟨?_, ?_, ?_, ?_⟩
  · rw [List.flatten_append, h.flatten]
    rfl
  · simpa using h.nonempty
  · refine List.forall_mem_append.2 ⟨h.single, List.forall_mem_singleton.2 fun s hs => ?_⟩
    rw [List.mem_singleton.1 hs, Iteration.idOf]
  · rw [List.isChain_append]
    refine ⟨h.differ, List.isChain_singleton _, fun group hgroup other hother => ?_⟩
    cases hother
    exact hr group hgroup

theorem collects_extend {before : List (List Record)} {group : List Record} (h : Collects xs (before ++ [group]))
    {r : Record} (hr : Iteration.idOf group = r.id) : Collects (xs ++ [r]) (before ++ [group ++ [r]]) := by
  obtain ⟨hsingle, hgroup⟩ := List.forall_mem_append.1 h.single
  have hidOf : Iteration.idOf (group ++ [r]) = Iteration.idOf group := by
    cases group with
    | nil => exact absurd (List.mem_append_right _ List.mem_cons_self) h.nonempty
    | cons first rest => rfl
  refine ⟨?_, ?_, ?_, ?_⟩
  · rw [← h.flatten]
    simp
  · simpa using fun hmem => h.nonempty (List.mem_append_left _ hmem)
  · refine List.forall_mem_append.2 ⟨hsingle, List.forall_mem_singleton.2 ?_⟩
    rw [hidOf]
    exact List.forall_mem_append.2 ⟨List.forall_mem_singleton.1 hgroup, List.forall_mem_singleton.2 hr.symm⟩
  · obtain ⟨hbefore, -, hlast⟩ := List.isChain_append.1 h.differ
    refine List.isChain_append.2 ⟨hbefore, List.isChain_singleton _, fun other hother last hlast' => ?_⟩
    cases hlast'
    rw [hidOf]
    exact hlast other hother group rfl

theorem collects_join (h : Collects xs groups) (r : Record) : Collects (xs ++ [r]) (join groups r) := by
  unfold join
  split
  · next group hlast =>
    split
    · next hid =>
      obtain ⟨before, rfl⟩ := List.getLast?_eq_some_iff.1 hlast
      rw [List.dropLast_concat]
      exact collects_extend h hid
    · next hid =>
      apply collects_concat h
      intro other hother
      cases hlast.symm.trans hother
      exact hid
  · next hnone =>
    rw [List.getLast?_eq_none_iff.1 hnone] at h
    exact collects_concat h r (by simp)

theorem collects_foldl (h : Collects xs groups) (rs : List Record) : Collects (xs ++ rs) (rs.foldl join groups) := by
  induction rs generalizing xs groups with
  | nil => rwa [List.append_nil]
  | cons r rs ih =>
    rw [List.append_cons]
    exact ih (collects_join h r)

/-- There is only one way to collect. -/
theorem splitBy_of_collects (h : Collects xs groups) : (xs.splitBy fun a b => a.id == b.id) = groups := by
  refine List.splitBy_eq_iff.2 ⟨h.flatten.symm, h.nonempty, fun group hgroup => ?_, ?_⟩
  · apply List.Pairwise.isChain
    apply List.pairwise_of_forall_mem_list
    intro r hr s hs
    rw [beq_iff_eq, h.single group hgroup r hr, h.single group hgroup s hs]
  · refine h.differ.imp_of_mem_imp fun a b ha hb hne => ?_
    have hane : a ≠ [] := fun he => h.nonempty (he ▸ ha)
    have hbne : b ≠ [] := fun he => h.nonempty (he ▸ hb)
    refine ⟨hane, hbne, ?_⟩
    rw [beq_eq_false_iff_ne, h.single a ha _ (List.getLast_mem hane), h.single b hb _ (List.head_mem hbne)]
    exact hne

/-- It is enough to look at the last group. -/
theorem foldl_join (index : Index) : index.sorted.foldl join [] = index.grouped := by
  have hnone : Collects [] [] := ⟨rfl, by simp, by simp, List.isChain_nil⟩
  exact (splitBy_of_collects (collects_foldl hnone index.sorted)).symm

end

/-- What the groups of an index are to be. Ids are compared byte by byte, and what another one begins with comes
before it. -/
structure IsGrouping (index : Index) (groups : List (List Record)) : Prop where
  nonempty : ∀ group ∈ groups, group ≠ []
  single : ∀ group ∈ groups, ∃ id, ∀ r ∈ group, r.id = id
  ascending : groups.Pairwise fun a b => ∀ r ∈ a, ∀ s ∈ b, r.id < s.id
  once : ∀ r ∈ index, ∃! i : Nat, ∃ group, groups[i]? = some group ∧ ∃ s : Record, s ∈ group ∧ s.id = r.id
  /-- Also the order in the group is that of the index. -/
  exact : ∀ group ∈ groups, ∀ r ∈ group, group = index.forId r.id
  perm : groups.flatten.Perm index

section

variable {index : Index} {groups : List (List Record)}

/-- An id is where its group is. -/
theorem getElem?_ids_eq_some_iff {i : Nat} {id : Bytes} : index.ids[i]? = some id ↔
    ∃ group, index.grouped[i]? = some group ∧ ∃ s : Record, s ∈ group ∧ s.id = id := by
  rw [ids, List.getElem?_map, Option.map_eq_some_iff]
  refine exists_congr fun group => and_congr_right fun hi => ?_
  have hgroup := List.mem_of_getElem? hi
  constructor
  · rintro rfl
    exact idOf_mem (ne_nil_of_mem_grouped hgroup)
  · rintro ⟨s, hs, rfl⟩
    exact (id_eq_of_mem hgroup hs).symm

theorem isGrouping_grouped (index : Index) : IsGrouping index index.grouped := by
  have hpair := pairwise_ids index
  refine ⟨fun _ => ne_nil_of_mem_grouped, fun group h => ⟨_, fun r => id_eq_of_mem h⟩, ?_, fun r hr => ?_,
    fun group h r hr => ?_, ?_⟩
  · rw [ids, List.pairwise_map] at hpair
    refine hpair.imp_of_mem fun ha hb hlt r hr s hs => ?_
    rw [id_eq_of_mem ha hr, id_eq_of_mem hb hs]
    exact hlt
  · obtain ⟨i, hi⟩ := List.mem_iff_getElem?.1 (mem_ids_iff.2 ⟨r, hr, rfl⟩)
    refine ⟨i, getElem?_ids_eq_some_iff.1 hi, fun j hj => ?_⟩
    have hnodup : index.ids.Nodup := hpair.imp Std.ne_of_lt
    have hlt := (List.getElem?_eq_some_iff.1 hi).1
    exact ((List.getElem?_inj hlt hnodup).1 (hi.trans (getElem?_ids_eq_some_iff.2 hj).symm)).symm
  · rw [id_eq_of_mem h hr]
    exact eq_forId_of_mem h
  · rw [flatten_grouped]
    exact List.mergeSort_perm index _

/-- The ids of the groups are those of the index. -/
theorem map_idOf_of_isGrouping (h : IsGrouping index groups) : groups.map Iteration.idOf = index.ids := by
  have hpair : (groups.map Iteration.idOf).Pairwise (· < ·) := by
    rw [List.pairwise_map]
    refine h.ascending.imp_of_mem fun {a b} ha hb hlt => ?_
    obtain ⟨r, hr, hrid⟩ := idOf_mem (h.nonempty a ha)
    obtain ⟨s, hs, hsid⟩ := idOf_mem (h.nonempty b hb)
    rw [← hrid, ← hsid]
    exact hlt r hr s hs
  have hmem : ∀ id, id ∈ groups.map Iteration.idOf ↔ id ∈ index.ids := by
    intro id
    rw [List.mem_map, mem_ids_iff]
    constructor
    · rintro ⟨group, hgroup, rfl⟩
      obtain ⟨r, hr, hid⟩ := idOf_mem (h.nonempty group hgroup)
      exact ⟨r, h.perm.mem_iff.1 (List.mem_flatten.2 ⟨group, hgroup, hr⟩), hid⟩
    · rintro ⟨r, hr, rfl⟩
      obtain ⟨group, hgroup, hr⟩ := List.mem_flatten.1 (h.perm.mem_iff.2 hr)
      obtain ⟨id, hid⟩ := h.single group hgroup
      obtain ⟨s, hs, hsid⟩ := idOf_mem (h.nonempty group hgroup)
      exact ⟨group, hgroup, by rw [← hsid, hid s hs, hid r hr]⟩
  have hperm : (groups.map Iteration.idOf).Perm index.ids :=
    (List.perm_ext_iff_of_nodup (hpair.imp Std.ne_of_lt) ((pairwise_ids index).imp Std.ne_of_lt)).2 hmem
  exact hperm.eq_of_pairwise (fun a b _ _ hab hba => absurd hba (List.lt_asymm hab)) hpair (pairwise_ids index)

/-- The groups are found by looking at the last one alone, and nothing else would be a grouping. -/
theorem isGrouping_iff (index : Index) : index.sorted.foldl join [] = index.grouped ∧
    ∀ groups, IsGrouping index groups ↔ groups = index.grouped := by
  refine ⟨foldl_join index, fun groups => ⟨fun h => ?_, ?_⟩⟩
  · rw [grouped_eq_map, ← map_idOf_of_isGrouping h, List.map_map]
    refine (List.map_id groups).symm.trans (List.map_congr_left fun group hgroup => ?_)
    obtain ⟨r, hr, hid⟩ := idOf_mem (h.nonempty group hgroup)
    rw [Function.comp_apply, ← hid]
    exact h.exact group hgroup r hr
  · rintro rfl
    exact isGrouping_grouped index

end

end WriteAhead.Index
