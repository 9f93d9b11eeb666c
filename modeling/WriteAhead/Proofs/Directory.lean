import WriteAhead.Proofs.Home
import WriteAhead.Proofs.LiveBlock

/-!
Directories of regular files. Main statements: the path to such a directory does not lead through its
files (`exists_isHome`), and on another disk with the same entries in another order it is as on the first
(`isRegular_of_perm`, `listing_perm`).
-/

namespace WriteAhead.Disk

/-- What an entry is in the directory `place`, if it is there. -/
def child (place : Path) : Path × Node → Option (String × Node) := fun (entry, node) =>
  match entry.getLast? with
  | some name => if entry.dropLast = place then some (name, node) else none
  | none => none

/-- What is in the directory `place`, in the order of the entries. -/
def listing (d : Disk) (place : Path) : List (String × Node) := d.entries.filterMap (child place)

/-- The path `root` leads to the directory `place`, which holds regular files and directories. No call for
one of the files fails. -/
structure IsRegular (d : Disk) (root place : Path) : Prop where
  found : d.find? true root = .ok (place, some .directory)
  nodup : (d.entries.map (·.1)).Nodup
  node : ∀ name node, d.node? (place ++ [name]) = some node → node = .directory ∨ ∃ id, node = .file id
  name : ∀ name id, d.node? (place ++ [name]) = some (.file id) → IsPlain name ∧ isText [name] = true
  file : ∀ name id, d.node? (place ++ [name]) = some (.file id) → id < d.files.length ∧ d.IsCalm id

section

variable {d d' : Disk} {root place : Path} {inner : List String} {name : String} {node : Node}

theorem node?_eq_some_iff (hn : (d.entries.map (·.1)).Nodup) {k : Path} (hk : k ≠ []) :
    d.node? k = some node ↔ (k, node) ∈ d.entries := by
  rw [node?, if_neg hk]
  generalize d.entries = entries at hn
  induction entries with
  | nil => simp
  | cons entry entries ih =>
    obtain ⟨k', node'⟩ := entry
    rw [List.map_cons, List.nodup_cons] at hn
    by_cases he : k = k'
    · subst he
      have hnot : (k, node) ∉ entries := fun hmem => hn.1 (List.mem_map.2 ⟨_, hmem, rfl⟩)
      simp [hnot, eq_comm]
    · have hne : (k == k') = false := by simpa using he
      simp [List.lookup_cons, hne, ih hn.2, he]

theorem node?_of_perm (hn : (d.entries.map (·.1)).Nodup) (hp : d'.entries.Perm d.entries) (k : Path) :
    d'.node? k = d.node? k := by
  by_cases hk : k = []
  · rw [node?, if_pos hk, node?, if_pos hk]
  · have hn' : (d'.entries.map (·.1)).Nodup := (hp.map _).nodup_iff.2 hn
    apply Option.ext
    intro node
    rw [node?_eq_some_iff hn' hk, node?_eq_some_iff hn hk, hp.mem_iff]

theorem isRegular_of_perm (h : IsRegular d root place) (hp : d'.entries.Perm d.entries) (hf : d'.files = d.files) :
    IsRegular d' root place := by
  have hnode := node?_of_perm h.nodup hp
  obtain ⟨ht, hleads, hdirectory⟩ := leads_of_find? h.found
  have hextends : Extends d d' := fun k node hk => (hnode k).trans hk
  refine ⟨?_, (hp.map _).nodup_iff.2 h.nodup, fun name node hn => ?_, fun name id hn => ?_, fun name id hn => ?_⟩
  · rw [find?_of_leads ht (leads_of_extends hextends hleads hdirectory), hnode, hdirectory]
  · exact h.node name node ((hnode _).symm.trans hn)
  · exact h.name name id ((hnode _).symm.trans hn)
  · obtain ⟨hid, hcalm⟩ := h.file name id ((hnode _).symm.trans hn)
    exact ⟨hf ▸ hid, isCalm_of_file hcalm (file_of_files hf id)⟩

theorem list_of_find? (h : d.find? true root = .ok (place, some .directory)) : d.list root = .ok (d.listing place) := by
  rw [list, h]
  rfl

theorem listing_perm (hp : d'.entries.Perm d.entries) (place : Path) : (d'.listing place).Perm (d.listing place) :=
  hp.filterMap _

theorem child_eq_some_iff {entry : Path × Node} :
    child place entry = some (name, node) ↔ entry = (place ++ [name], node) := by
  obtain ⟨k, node'⟩ := entry
  constructor
  · intro h
    dsimp only [child] at h
    split at h
    · next last hlast =>
      split at h
      · next hplace =>
        cases h
        obtain ⟨front, rfl⟩ := List.getLast?_eq_some_iff.1 hlast
        rw [List.dropLast_concat] at hplace
        rw [hplace]
      · cases h
    · cases h
  · rintro ⟨⟩
    simp [child]

theorem mem_listing_iff (hn : (d.entries.map (·.1)).Nodup) :
    (name, node) ∈ d.listing place ↔ d.node? (place ++ [name]) = some node := by
  rw [node?_eq_some_iff hn (append_singleton_ne_nil place name), listing, List.mem_filterMap]
  constructor
  · rintro ⟨entry, hmem, hentry⟩
    exact child_eq_some_iff.1 hentry ▸ hmem
  · intro hmem
    exact ⟨_, hmem, child_eq_some_iff.2 rfl⟩

theorem nodup_listing (hn : (d.entries.map (·.1)).Nodup) (place : Path) : ((d.listing place).map (·.1)).Nodup := by
  rw [List.Nodup, List.pairwise_map] at hn ⊢
  refine hn.filterMap _ fun entry other hne item hitem item' hitem' he => hne ?_
  rw [child_eq_some_iff.1 hitem, child_eq_some_iff.1 hitem', he]

theorem isOutside_of_not_prefix {k : Path} (h : ¬ place <+: k) : isOutside place inner k = true := by
  rw [isOutside, Bool.eq_false_iff.2 (mt List.isPrefixOf_iff_prefix.1 h)]
  rfl

theorem isOutside_self (place : Path) (inner : List String) : isOutside place inner place = true := by
  rw [isOutside, List.drop_length]
  exact Bool.or_true _

theorem node?_outside_self (d : Disk) (place : Path) (inner : List String) :
    (d.outside place inner).node? place = d.node? place := by
  by_cases hp : place = []
  · rw [node?, if_pos hp, node?, if_pos hp]
  · rw [node?_filter rfl hp, if_pos (isOutside_self place inner)]

/-- A path is followed through directories and links only, and of these `place` holds no more than `inner`. -/
theorem isOutside_of_rooted (hl : ∀ name target, d.node? (place ++ [name]) ≠ some (.link target))
    (hi : ∀ name, d.node? (place ++ [name]) = some .directory → name ∈ inner) {start : Path} (hr : Rooted d start)
    (hn : d.node? (start ++ [name]) = some node) (hf : ∀ id, node ≠ .file id) :
    isOutside place inner (start ++ [name]) = true := by
  by_cases hp : place <+: start ++ [name]
  · obtain ⟨rest, hrest⟩ := hp
    rw [← hrest] at hn ⊢
    cases rest with
    | nil =>
      rw [List.append_nil]
      exact isOutside_self place inner
    | cons first rest =>
      rw [isOutside_append, List.contains_iff_mem]
      apply hi
      obtain rfl | ⟨rest, last, rfl⟩ := List.eq_nil_or_concat rest
      · cases node with
        | directory => exact hn
        | file id => exact absurd rfl (hf id)
        | link target => exact absurd hn (hl first target)
      · rw [List.concat_eq_append, ← List.singleton_append, ← List.append_assoc, ← List.append_assoc] at hrest
        exact hr _ ⟨rest, (List.append_singleton_inj.1 hrest).1⟩
  · exact isOutside_of_not_prefix hp

/-- What a path to a directory leads through is kept without the files in `place`. -/
theorem leads_outside (hl : ∀ name target, d.node? (place ++ [name]) ≠ some (.link target))
    (hi : ∀ name, d.node? (place ++ [name]) = some .directory → name ∈ inner) {links : Nat} {start path goal : Path}
    (hr : Rooted d start) (h : Leads d true links start path goal) (hg : d.node? goal = some .directory) :
    Leads (d.outside place inner) true links start path goal := by
  have hkept : ∀ {start name node}, Rooted d start → d.node? (start ++ [name]) = some node → (∀ id, node ≠ .file id) →
      (d.outside place inner).node? (start ++ [name]) = some node := by
    intro start name node hr hn hf
    rw [node?_filter rfl (append_singleton_ne_nil start name), if_pos (isOutside_of_rooted hl hi hr hn hf), hn]
  induction h with
  | here => exact .here _ _
  | stay _ ih => exact .stay (ih hr hg)
  | back _ ih => exact .back (ih (rooted_dropLast hr) hg)
  | enter plain node _ ih => exact .enter plain (hkept hr node (by simp)) (ih (rooted_concat hr node) hg)
  | free _ node => cases node.symm.trans hg
  | file _ node => cases node.symm.trans hg
  | link _ stop => cases stop
  | jump plain node go _ ih => exact .jump plain (hkept hr node (by simp)) go (ih hr hg)

/-- A regular directory is reached whatever becomes of its files. -/
theorem exists_isHome (h : IsRegular d root place) : ∃ inner, IsHome d root place inner := by
  have hl : ∀ name target, d.node? (place ++ [name]) ≠ some (.link target) := by
    intro name target hn
    obtain hd | ⟨id, hf⟩ := h.node name _ hn
    · cases hd
    · cases hf
  obtain ⟨inner, hinner⟩ : ∃ inner : List String, ∀ name, name ∈ inner ↔
      d.node? (place ++ [name]) = some .directory :=
    ⟨((d.listing place).filter (·.2 = .directory)).map (·.1), fun name => by simp [mem_listing_iff h.nodup]⟩
  obtain ⟨ht, hleads, hdirectory⟩ := leads_of_find? h.found
  refine ⟨inner, ?_, fun name hn => (hinner name).1 hn⟩
  have houtside := leads_outside hl (fun name hn => (hinner name).2 hn) (rooted_nil d) hleads hdirectory
  rw [find?_of_leads ht houtside, node?_outside_self, hdirectory]

end

end WriteAhead.Disk
