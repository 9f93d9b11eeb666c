import Mathlib.Logic.Function.Basic
import WriteAhead.Proofs.Serving

/-!
Blocks in one directory. Main statement: whatever is asked of them in turn, each answers as if it were alone, and
nothing but its own file is touched for it (`undisturbed_of_free`).
-/

namespace WriteAhead

/-- A reply, with the records and the bookkeeping of the block as they are then. -/
structure Answer where
  reply : Reply
  records : Option Index
  info : Option BlockMeta

/-- A disk with the blocks that are in use. -/
structure Shelf where
  disk : Disk
  blocks : Descriptor → Option Block := fun _ => none

namespace Shelf

def ask [Codecs] (root : Path) (s : Shelf) (owner : Descriptor) (request : Request) : Answer × Shelf :=
  let (reply, block, disk) := request.serve root owner (s.blocks owner) s.disk
  (⟨reply, block.map (·.index), block.map (·.info)⟩, ⟨disk, Function.update s.blocks owner block⟩)

/-- Asks one thing after the other. -/
def run [Codecs] (root : Path) : List (Descriptor × Request) → Shelf → List (Descriptor × Answer) × Shelf
  | [], s => ([], s)
  | (owner, request) :: calls, s =>
    let (answer, s) := s.ask root owner request
    let (answers, s) := run root calls s
    ((owner, answer) :: answers, s)

/-- What in a list belongs to the block of `owner`. -/
def concerning {α : Type} (owner : Descriptor) (xs : List (Descriptor × α)) : List (Descriptor × α) :=
  xs.filter (·.1 = owner)

theorem concerning_cons_self {α : Type} (owner : Descriptor) (x : α) (xs : List (Descriptor × α)) :
    concerning owner ((owner, x) :: xs) = (owner, x) :: concerning owner xs :=
  List.filter_cons_of_pos (decide_eq_true rfl)

theorem concerning_cons_of_ne {α : Type} {owner other : Descriptor} (ho : other ≠ owner) (x : α)
    (xs : List (Descriptor × α)) : concerning owner ((other, x) :: xs) = concerning owner xs :=
  List.filter_cons_of_neg (by simpa using ho)

open Block

/-- All blocks are in their places, and what was on the disk `d₀` is still there. -/
structure Orderly (d₀ : Disk) (root place : Path) (s : Shelf) : Prop where
  kept : Disk.Extends d₀ s.disk
  sound : s.disk.IsSound
  stored : ∀ owner, d₀.node? (place ++ [owner.filename]) = none → Stored root place owner s.disk (s.blocks owner)

/-- The block of `owner` with its file. -/
def cell (s : Shelf) (owner : Descriptor) : Option (Block × File) := Block.cell (s.blocks owner) s.disk

section

variable {d₀ : Disk} {root place : Path} {s s' : Shelf} {owner : Descriptor}

theorem find?_of_orderly (h₀ : d₀.find? true root = .ok (place, some .directory)) (h : s.Orderly d₀ root place) :
    s.disk.find? true root = .ok (place, some .directory) :=
  Disk.find?_of_extends h.kept h₀

theorem orderly_new (hs : d₀.IsSound) : Orderly d₀ root place ⟨d₀, fun _ => none⟩ :=
  ⟨fun _ _ hn => hn, hs, fun _ hfree _ => hfree⟩

variable [Codecs]

/-- A request keeps the order, comes to no other file, and to no other block. -/
theorem orderly_ask (h₀ : d₀.find? true root = .ok (place, some .directory)) (h : s.Orderly d₀ root place)
    (hfree : d₀.node? (place ++ [owner.filename]) = none) (request : Request) :
    (s.ask root owner request).2.Orderly d₀ root place ∧
      Disk.AltersOnly (place ++ [owner.filename]) s.disk (s.ask root owner request).2.disk ∧
      ∀ other, other ≠ owner → d₀.node? (place ++ [other.filename]) = none →
        (s.ask root owner request).2.cell other = s.cell other := by
  have hserved := served_serve (find?_of_orderly h₀ h) h.sound (h.stored owner hfree) request
  have hothers : ∀ other, other ≠ owner → d₀.node? (place ++ [other.filename]) = none →
      Stored root place other (s.ask root owner request).2.disk (s.blocks other) ∧
        Block.cell (s.blocks other) (s.ask root owner request).2.disk = s.cell other := by
    intro other ho hother
    by_cases hw : owner.IsWritable
    · exact stored_of_served ho hw hserved (h.stored other hother)
    · obtain ⟨hnone, reply, hreply⟩ := serve_of_not_isWritable (h.stored owner hfree) hw request
      have hdisk : (s.ask root owner request).2.disk = s.disk := by
        rw [ask, hnone, hreply]
      rw [hdisk]
      exact ⟨h.stored other hother, rfl⟩
  have hblock : ∀ other, other ≠ owner → (s.ask root owner request).2.blocks other = s.blocks other :=
    fun other ho => Function.update_of_ne ho _ _
  refine ⟨⟨fun q node hn => ?_, fun q id hn => ?_, fun other hother => ?_⟩, hserved.alters, fun other ho hother => ?_⟩
  · have hne : q ≠ place ++ [owner.filename] := by
      rintro rfl
      cases hfree.symm.trans hn
    exact (hserved.alters.node q hne).trans (h.kept q node hn)
  · by_cases hq : q = place ++ [owner.filename]
    · subst hq
      obtain hold | ⟨other, hlt, hfile⟩ := hserved.alters.new _ hn
      · exact Nat.lt_of_lt_of_le (h.sound _ _ hold) hserved.alters.files
      · cases hfile
        exact hlt
    · exact Nat.lt_of_lt_of_le (h.sound q id ((hserved.alters.node q hq).symm.trans hn)) hserved.alters.files
  · by_cases ho : other = owner
    · subst ho
      have hself : (s.ask root other request).2.blocks other = (request.serve root other (s.blocks other) s.disk).2.1 :=
        Function.update_self _ _ _
      rw [hself]
      exact hserved.stored
    · rw [hblock other ho]
      exact (hothers other ho hother).1
  · rw [cell, hblock other ho]
    exact (hothers other ho hother).2

/-- What is answered depends on the own block alone. -/
theorem ask_congr (h₀ : d₀.find? true root = .ok (place, some .directory)) (h : s.Orderly d₀ root place)
    (h' : s'.Orderly d₀ root place) (hfree : d₀.node? (place ++ [owner.filename]) = none)
    (hc : s'.cell owner = s.cell owner) (request : Request) :
    (s'.ask root owner request).1 = (s.ask root owner request).1 ∧
      (s'.ask root owner request).2.cell owner = (s.ask root owner request).2.cell owner := by
  obtain ⟨hreply, hcell⟩ := serve_congr (find?_of_orderly h₀ h) (find?_of_orderly h₀ h') (h.stored owner hfree)
    (h'.stored owner hfree) hc request
  have hself : ∀ s : Shelf, (s.ask root owner request).2.blocks owner =
      (request.serve root owner (s.blocks owner) s.disk).2.1 := fun s => Function.update_self _ _ _
  have hcells : (s'.ask root owner request).2.cell owner = (s.ask root owner request).2.cell owner := by
    rw [cell, cell, hself, hself]
    exact hcell
  refine ⟨?_, hcells⟩
  have hseen : ∀ s : Shelf, (s.ask root owner request).1 = ⟨(request.serve root owner (s.blocks owner) s.disk).1,
      ((s.ask root owner request).2.cell owner).map (·.1.index),
      ((s.ask root owner request).2.cell owner).map (·.1.info)⟩ := by
    intro s
    rw [cell, hself, Block.cell, Option.map_map, Option.map_map]
    rfl
  rw [hseen, hseen, hreply, hcells]

theorem orderly_run (h₀ : d₀.find? true root = .ok (place, some .directory)) (h : s.Orderly d₀ root place)
    {calls : List (Descriptor × Request)} (hfree : ∀ call ∈ calls, d₀.node? (place ++ [call.1.filename]) = none) :
    (run root calls s).2.Orderly d₀ root place := by
  induction calls generalizing s with
  | nil => exact h
  | cons call calls ih =>
    obtain ⟨owner, request⟩ := call
    obtain ⟨hcall, hcalls⟩ := List.forall_mem_cons.1 hfree
    exact ih (orderly_ask h₀ h hcall request).1 hcalls

/-- Of a run, what concerns one block is the run of what concerns it. -/
theorem run_concerning (h₀ : d₀.find? true root = .ok (place, some .directory)) (h : s.Orderly d₀ root place)
    (h' : s'.Orderly d₀ root place) {calls : List (Descriptor × Request)}
    (hfree : ∀ call ∈ calls, d₀.node? (place ++ [call.1.filename]) = none)
    (hown : d₀.node? (place ++ [owner.filename]) = none) (hc : s'.cell owner = s.cell owner) :
    (run root (concerning owner calls) s').1 = concerning owner (run root calls s).1 ∧
      (run root (concerning owner calls) s').2.cell owner = (run root calls s).2.cell owner := by
  induction calls generalizing s s' with
  | nil => exact ⟨rfl, hc⟩
  | cons call calls ih =>
    obtain ⟨other, request⟩ := call
    obtain ⟨hcall, hcalls⟩ := List.forall_mem_cons.1 hfree
    obtain ⟨hnext, -, hothers⟩ := orderly_ask h₀ h hcall request
    by_cases ho : other = owner
    · subst ho
      obtain ⟨hanswer, hcell⟩ := ask_congr h₀ h h' hcall hc request
      obtain ⟨hanswers, hcells⟩ := ih hnext (orderly_ask h₀ h' hcall request).1 hcalls hcell
      rw [concerning_cons_self]
      refine ⟨?_, hcells⟩
      rw [run, run, concerning_cons_self]
      exact congrArg₂ (fun answer answers => (other, answer) :: answers) hanswer hanswers
    · obtain ⟨hanswers, hcells⟩ := ih hnext h' hcalls (hc.trans (hothers owner (Ne.symm ho) hown).symm)
      rw [concerning_cons_of_ne ho]
      refine ⟨?_, hcells⟩
      rw [run, concerning_cons_of_ne ho]
      exact hanswers

end

/-- Every block answers as if it were alone in the directory, and so is its file. What is asked next comes to no file
but that of the block it is asked of, which is in the directory itself. -/
structure Undisturbed [Codecs] (d : Disk) (root place : Path) (calls : List (Descriptor × Request)) : Prop where
  answers : ∀ owner, d.node? (place ++ [owner.filename]) = none →
    concerning owner (run root calls ⟨d, fun _ => none⟩).1 = (run root (concerning owner calls) ⟨d, fun _ => none⟩).1
  file : ∀ owner, owner.IsWritable → d.node? (place ++ [owner.filename]) = none →
    (run root calls ⟨d, fun _ => none⟩).2.disk.read (root ++ [owner.filename]) =
      (run root (concerning owner calls) ⟨d, fun _ => none⟩).2.disk.read (root ++ [owner.filename])
  alters : ∀ owner request, d.node? (place ++ [owner.filename]) = none →
    let s := (run root calls ⟨d, fun _ => none⟩).2
    Disk.AltersOnly (place ++ [owner.filename]) s.disk (s.ask root owner request).2.disk
  child : ∀ owner request, d.node? (place ++ [owner.filename]) = none →
    let s := (run root calls ⟨d, fun _ => none⟩).2
    (s.ask root owner request).2.disk = s.disk ∨ '/' ∉ owner.filename.toList

theorem undisturbed_of_free [Codecs] {d : Disk} {root place : Path} (hs : d.IsSound)
    (hf : d.find? true root = .ok (place, some .directory)) {calls : List (Descriptor × Request)}
    (hfree : ∀ call ∈ calls, d.node? (place ++ [call.1.filename]) = none) : Undisturbed d root place calls := by
  have hnew : Orderly d root place ⟨d, fun _ => none⟩ := orderly_new hs
  have hrun := orderly_run hf hnew hfree
  have hconcerning : ∀ owner, (run root (concerning owner calls) ⟨d, fun _ => none⟩).2.Orderly d root place :=
    fun owner => orderly_run hf hnew fun call hmem => hfree call (List.mem_of_mem_filter hmem)
  refine ⟨fun owner hown => ?_, fun owner hw hown => ?_, fun owner request hown => ?_, fun owner request hown => ?_⟩
  · exact (run_concerning hf hnew hnew hfree hown rfl).1.symm
  · exact read_congr (find?_of_orderly hf (hconcerning owner)) (find?_of_orderly hf hrun) hw
      ((hconcerning owner).stored owner hown) (hrun.stored owner hown)
      (run_concerning hf hnew hnew hfree hown rfl).2.symm
  · exact (orderly_ask hf hrun hown request).2.1
  · by_cases hw : owner.IsWritable
    · exact .inr (Descriptor.separator_notMem_filename hw)
    · obtain ⟨hnone, reply, hreply⟩ := serve_of_not_isWritable (hrun.stored owner hown) hw request
      refine .inl ?_
      rw [ask, hnone, hreply]

/-- Two blocks that have everything in common but the data encoding, and one of them is cleared. -/
theorem undisturbed_pair : Undisturbed { entries := [(["wal"], .directory)] } ["wal"] ["wal"]
    [(⟨.zero, "t", .none, ""⟩, .create .default), (⟨.zero, "t", .none, "raw"⟩, .create .default),
      (⟨.zero, "t", .none, ""⟩, .append [7] [8] 0 0 0), (⟨.zero, "t", .none, "raw"⟩, .clear),
      (⟨.zero, "t", .none, ""⟩, .find [7] fun _ objects => .ok objects.head?)] := by
  refine undisturbed_of_free (fun place id hn => ?_) (Disk.find?_of_isHome isHome_wal) fun call _ => rfl
  rw [Disk.node?] at hn
  split at hn
  · cases hn
  · rw [List.lookup_cons, List.lookup_nil] at hn
    split at hn <;> cases hn

end Shelf

end WriteAhead
