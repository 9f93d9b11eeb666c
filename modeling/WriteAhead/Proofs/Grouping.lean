import Mathlib.Data.List.SplitBy
import WriteAhead.Iteration

/-!
The groups of an index. Main statement: there is one group for each id, in ascending order of the ids, and it holds
what the index has under this id (`grouped_eq_map`).
-/

namespace WriteAhead.Index

/-- The ids in an index, each once and in ascending order. -/
def ids (index : Index) : List Bytes := index.grouped.map Iteration.idOf

/-- The records by ascending id; those under one id stay in append order. -/
def sorted (index : Index) : List Record := index.mergeSort fun a b => decide (a.id ≤ b.id)

section

variable {index : Index}

theorem id_of_mem_forId {id : Bytes} {r : Record} (h : r ∈ index.forId id) : r.id = id :=
  eq_of_beq (List.mem_filter.1 h).2

theorem le_trans_id (a b c : Record) (hab : decide (a.id ≤ b.id) = true) (hbc : decide (b.id ≤ c.id) = true) :
    decide (a.id ≤ c.id) = true := by
  rw [decide_eq_true_eq] at hab hbc ⊢
  exact List.le_trans hab hbc

theorem le_total_id (a b : Record) : (decide (a.id ≤ b.id) || decide (b.id ≤ a.id)) = true := by
  rw [Bool.or_eq_true, decide_eq_true_eq, decide_eq_true_eq]
  exact List.le_total a.id b.id

theorem pairwise_sorted (index : Index) : index.sorted.Pairwise fun a b => a.id ≤ b.id := by
  apply List.Pairwise.imp of_decide_eq_true
  exact List.pairwise_mergeSort le_trans_id le_total_id index

/-- Sorting is stable, so look-up goes through the same records in the same order. -/
theorem filter_sorted (index : Index) (id : Bytes) : (index.sorted.filter fun r => r.id == id) = index.forId id := by
  have hsame : (index.forId id).Pairwise fun a b => decide (a.id ≤ b.id) = true := by
    apply List.Pairwise.imp_of_mem (R := fun _ _ => True)
    · intro a b ha hb _
      rw [decide_eq_true_eq, id_of_mem_forId ha, id_of_mem_forId hb]
      exact List.le_refl id
    · exact List.pairwise_of_forall fun _ _ => trivial
  have hsub : (index.forId id).Sublist index.sorted :=
    List.sublist_mergeSort le_trans_id le_total_id hsame List.filter_sublist
  have hsub' := hsub.filter fun r => r.id == id
  rw [forId, List.filter_filter] at hsub'
  simp only [Bool.and_self] at hsub'
  have hlength : (index.sorted.filter fun r => r.id == id).length = (index.forId id).length :=
    ((List.mergeSort_perm index _).filter _).length_eq
  exact (hsub'.eq_of_length hlength.symm).symm

theorem flatten_grouped (index : Index) : index.grouped.flatten = index.sorted :=
  List.flatten_splitBy _ _

theorem ne_nil_of_mem_grouped {group : List Record} (h : group ∈ index.grouped) : group ≠ [] :=
  List.ne_nil_of_mem_splitBy h

/-- All records of a group have the same id. -/
theorem id_eq_of_mem {group : List Record} (h : group ∈ index.grouped) {r : Record} (hr : r ∈ group) :
    r.id = Iteration.idOf group := by
  have hchain : group.IsChain fun a b => a.id = b.id :=
    (List.isChain_of_mem_splitBy h).imp fun a b hab => eq_of_beq hab
  cases group with
  | nil => cases hr
  | cons first rest =>
    obtain rfl | hr := List.mem_cons.1 hr
    · rfl
    · have : Trans (fun a b : Record => a.id = b.id) (fun a b : Record => a.id = b.id) (fun a b => a.id = b.id) :=
        ⟨Eq.trans⟩
      exact (hchain.rel_cons hr).symm

theorem idOf_mem {group : List Record} (h : group ≠ []) : ∃ r ∈ group, r.id = Iteration.idOf group := by
  cases group with
  | nil => exact absurd rfl h
  | cons first rest => exact ⟨first, List.mem_cons_self, rfl⟩

/-- Of two groups next to each other, the second has the greater id. -/
theorem isChain_ids (index : Index) : index.ids.IsChain (· < ·) := by
  have hle := pairwise_sorted index
  rw [← flatten_grouped, List.pairwise_flatten] at hle
  have hne : index.grouped.IsChain fun a b => ∃ ha hb, ((a.getLast ha).id == (b.head hb).id) = false :=
    List.isChain_getLast_head_splitBy (fun a b : Record => a.id == b.id) index.sorted
  rw [List.isChain_iff_getElem] at hne
  rw [ids, List.isChain_map, List.isChain_iff_getElem]
  intro i hi
  have hmem : index.grouped[i] ∈ index.grouped := List.getElem_mem _
  have hmem' : index.grouped[i + 1] ∈ index.grouped := List.getElem_mem _
  obtain ⟨hlast, hhead, hdiffer⟩ := hne i hi
  rw [beq_eq_false_iff_ne] at hdiffer
  have hsorted : (index.grouped[i].getLast hlast).id ≤ (index.grouped[i + 1].head hhead).id :=
    List.pairwise_iff_getElem.1 hle.2 i (i + 1) _ hi (Nat.lt_succ_self i) _ (List.getLast_mem hlast) _
      (List.head_mem hhead)
  rw [id_eq_of_mem hmem (List.getLast_mem hlast), id_eq_of_mem hmem' (List.head_mem hhead)] at hdiffer hsorted
  exact Std.lt_of_le_of_ne hsorted hdiffer

theorem pairwise_ids (index : Index) : index.ids.Pairwise (· < ·) := by
  have : Trans (α := Bytes) (· < ·) (· < ·) (· < ·) := ⟨List.lt_trans⟩
  exact (isChain_ids index).pairwise

theorem mem_ids_iff {id : Bytes} : id ∈ index.ids ↔ ∃ r ∈ index, r.id = id := by
  rw [ids, List.mem_map]
  constructor
  · rintro ⟨group, hgroup, rfl⟩
    obtain ⟨r, hr, hid⟩ := idOf_mem (ne_nil_of_mem_grouped hgroup)
    have hflat : r ∈ index.grouped.flatten := List.mem_flatten.2 ⟨group, hgroup, hr⟩
    rw [flatten_grouped] at hflat
    exact ⟨r, List.mem_mergeSort.1 hflat, hid⟩
  · rintro ⟨r, hr, rfl⟩
    have hflat : r ∈ index.grouped.flatten := by
      rw [flatten_grouped]
      exact List.mem_mergeSort.2 hr
    obtain ⟨group, hgroup, hr⟩ := List.mem_flatten.1 hflat
    exact ⟨group, hgroup, (id_eq_of_mem hgroup hr).symm⟩

theorem forId_eq_nil_iff {id : Bytes} : index.forId id = [] ↔ id ∉ index.ids := by
  rw [mem_ids_iff, forId, List.filter_eq_nil_iff]
  simp

/-- A group holds all that the index has under its id. -/
theorem eq_forId_of_mem {group : List Record} (h : group ∈ index.grouped) :
    group = index.forId (Iteration.idOf group) := by
  have hpair := pairwise_ids index
  rw [ids, List.pairwise_map] at hpair
  obtain ⟨before, after, hsplit⟩ := List.append_of_mem h
  rw [hsplit, List.pairwise_append, List.pairwise_cons] at hpair
  have hother : ∀ other ∈ index.grouped, Iteration.idOf other ≠ Iteration.idOf group →
      (other.filter fun r => r.id == Iteration.idOf group) = [] := by
    intro other ho hne
    rw [List.filter_eq_nil_iff]
    intro r hr
    rw [id_eq_of_mem ho hr, beq_iff_eq]
    exact hne
  have hself : (group.filter fun r => r.id == Iteration.idOf group) = group := by
    rw [List.filter_eq_self]
    intro r hr
    rw [id_eq_of_mem h hr, beq_iff_eq]
  have hbefore : ∀ other ∈ before, (other.filter fun r => r.id == Iteration.idOf group) = [] := by
    intro other ho
    apply hother other (hsplit ▸ List.mem_append_left _ ho)
    exact Std.ne_of_lt (hpair.2.2 other ho group List.mem_cons_self)
  have hafter : ∀ other ∈ after, (other.filter fun r => r.id == Iteration.idOf group) = [] := by
    intro other ho
    apply hother other (hsplit ▸ List.mem_append_right _ (List.mem_cons_of_mem _ ho))
    exact (Std.ne_of_lt (hpair.2.1.1 other ho)).symm
  rw [← filter_sorted, ← flatten_grouped, hsplit, List.filter_flatten, List.map_append, List.map_cons,
    List.map_congr_left hbefore, List.map_congr_left hafter, hself]
  simp

/-- There is one group for each id. -/
theorem grouped_eq_map (index : Index) : index.grouped = index.ids.map index.forId := by
  rw [ids, List.map_map]
  exact (List.map_id _).symm.trans (List.map_congr_left fun group h => eq_forId_of_mem h)

theorem idOf_forId {id : Bytes} (h : id ∈ index.ids) : Iteration.idOf (index.forId id) = id := by
  obtain ⟨group, hgroup, rfl⟩ := List.mem_map.1 h
  rw [← eq_forId_of_mem hgroup]

end

end WriteAhead.Index
