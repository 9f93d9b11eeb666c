import WriteAhead.Block
import WriteAhead.Proofs.Grouping
import WriteAhead.Proofs.Paths
import WriteAhead.Proofs.ValidPage

/-!
Looking up one id, and going through all of them. Main statements: what an iteration gives in the end is one item for
each group (`yields_iff`), its loop over the pages of a group comes to what look-up makes of them (`collect_eq_mapM`,
`nextObject_forId`), and so each item is what a look-up of the id of the group gives (`mirrors_of_shows`).
-/

namespace WriteAhead

theorem map_eq_ok_iff {α β : Type} {x : Except Error α} {f : α → β} {b : β} :
    x.map f = .ok b ↔ ∃ a, x = .ok a ∧ f a = b := by
  cases x <;> simp [Except.map]

theorem map_eq_error_iff {α β : Type} {x : Except Error α} {f : α → β} {fault : Error} :
    x.map f = .error fault ↔ x = .error fault := by
  cases x <;> simp [Except.map]

namespace Iteration

/-- What comes of an iteration until there is nothing more, each step being made on a disk of which `on` holds. -/
inductive Yields [Codecs] (on : Disk → Prop) : Iteration → List (Except Error (Bytes × Bytes)) → Prop
  | done {it : Iteration} {d : Disk} (ready : on d) (stop : (it.next d).item = none) : Yields on it []
  | item {it : Iteration} {d : Disk} {item : Except Error (Bytes × Bytes)}
      {items : List (Except Error (Bytes × Bytes))} (ready : on d) (go : (it.next d).item = some item)
      (more : Yields on (it.next d).rest items) : Yields on it (item :: items)

/-- An iteration that was neither stopped nor closed, nor has come to its end. -/
structure IsOpen (it : Iteration) (handle : Handle) : Prop where
  handle : it.handle = some handle
  going : it.stopped = false

theorem isOpen_groups {it : Iteration} {handle : Handle} (h : it.IsOpen handle) (groups : List (List Record)) :
    IsOpen { it with groups } handle :=
  ⟨h.handle, h.going⟩

section

variable [Codecs]

/-- The item of a group. -/
def itemOf (it : Iteration) (source : Source) (group : List Record) : Except Error (Bytes × Bytes) :=
  (it.nextObject source group).result

/-- The loop over the pages of a group finds what there is, and fails as the first page does that cannot be read. -/
theorem collect_eq_mapM (e : Encoding) (source : Source) (objects : List Bytes) (records : List Record) :
    collect e source objects records =
      (records.mapM fun r => (Page.readAt e source r).map (·.2)).map (objects ++ ·) := by
  -- Over the pages still to be read, whatever was found before.
  induction records generalizing objects with
  | nil =>
    rw [List.mapM_nil]
    exact congrArg Except.ok (List.append_nil objects).symm
  | cons r rest ih =>
    rw [collect, List.mapM_cons]
    cases Page.readAt e source r with
    | error fault => rfl
    | ok found =>
      dsimp only
      rw [ih]
      cases rest.mapM fun r => (Page.readAt e source r).map (·.2) with
      | error fault => rfl
      | ok others => exact congrArg Except.ok (List.append_assoc objects [found.2] others)

theorem nextObject_eq (it : Iteration) (source : Source) (group : List Record) : it.nextObject source group =
    match group.mapM fun r => (Page.readAt it.encoding source r).map (·.2) with
    | .error fault => ⟨.error fault, []⟩
    | .ok objects =>
      ⟨(combine it.combiner it.dataEncoding (idOf group) objects).result.map (idOf group, ·),
        (combine it.combiner it.dataEncoding (idOf group) objects).calls⟩ := by
  rw [nextObject, collect_eq_mapM]
  cases group.mapM fun r => (Page.readAt it.encoding source r).map (·.2) <;> rfl

variable {it : Iteration} {handle : Handle} {group : List Record} {groups : List (List Record)}

theorem next_of_closed (h : it.handle = none) (d : Disk) : it.next d = ⟨none, [], it⟩ := by
  rw [next, h]

theorem next_of_nil (h : it.IsOpen handle) (hg : it.groups = []) (d : Disk) : it.next d = ⟨none, [], it.close⟩ := by
  rw [next, h.handle, h.going, hg]
  rfl

theorem next_of_cons (h : it.IsOpen handle) (hg : it.groups = group :: groups) (d : Disk) :
    it.next d = ⟨some (it.itemOf (d.source handle) group), (it.nextObject (d.source handle) group).calls,
      { it with groups }⟩ := by
  rw [next, h.handle, h.going, hg]
  rfl

/-- There is one item for each group, whether it can be read or not. -/
theorem yields_iff {on : Disk → Prop} {source : Source} (h : it.IsOpen handle) (hon : ∃ d, on d)
    (hs : ∀ d, on d → d.source handle = source) {items : List (Except Error (Bytes × Bytes))} :
    Yields on it items ↔ items = it.groups.map (it.itemOf source) := by
  constructor
  · intro hy
    induction hy with
    | @done it d ready stop =>
      cases hg : it.groups with
      | nil => rfl
      | cons group groups =>
        rw [next_of_cons h hg] at stop
        cases stop
    | @item it d item items ready go more ih =>
      cases hg : it.groups with
      | nil =>
        rw [next_of_nil h hg] at go
        cases go
      | cons group groups =>
        rw [next_of_cons h hg] at go ih
        cases go
        rw [hs d ready, ih (isOpen_groups h groups)]
        rfl
  · rintro rfl
    obtain ⟨d, hd⟩ := hon
    generalize hg : it.groups = groups
    induction groups generalizing it with
    | nil => exact .done hd (by rw [next_of_nil h hg])
    | cons group groups ih =>
      have hmore := ih (isOpen_groups h groups) rfl
      refine .item hd (by rw [next_of_cons h hg, hs d hd]) ?_
      rw [next_of_cons h hg]
      exact hmore

theorem drain_eq (h : it.IsOpen handle) (d : Disk) {n : Nat} (hn : it.groups.length < n) :
    (drain d n it).1 = it.groups.map (it.itemOf (d.source handle)) := by
  induction n generalizing it with
  | zero => cases hn
  | succ n ih =>
    cases hg : it.groups with
    | nil =>
      rw [drain, next_of_nil h hg]
      rfl
    | cons group groups =>
      rw [hg, List.length_cons] at hn
      have hmore := ih (isOpen_groups h groups) (Nat.lt_of_succ_lt_succ hn)
      rw [drain, next_of_cons h hg]
      exact congrArg (it.itemOf (d.source handle) group :: ·) hmore

/-- The combiner is asked for each group in turn. -/
theorem calls_drain (h : it.IsOpen handle) (d : Disk) {n : Nat} (hn : it.groups.length < n) :
    (drain d n it).2.1 = it.groups.flatMap fun group => (it.nextObject (d.source handle) group).calls := by
  induction n generalizing it with
  | zero => cases hn
  | succ n ih =>
    cases hg : it.groups with
    | nil =>
      rw [drain, next_of_nil h hg]
      rfl
    | cons group groups =>
      rw [hg, List.length_cons] at hn
      have hmore := ih (isOpen_groups h groups) (Nat.lt_of_succ_lt_succ hn)
      rw [drain, next_of_cons h hg, List.flatMap_cons]
      exact congrArg ((it.nextObject (d.source handle) group).calls ++ ·) hmore

end

end Iteration

namespace Block

/-- The file of the block is there under its path. Open as `handle`, it gives `source`. -/
structure Shows (b : Block) (handle : Handle) (source : Source) (d : Disk) : Prop where
  opens : d.openRead b.path = .ok handle
  source : d.source handle = source
  reader : ∀ other ∈ b.reader, other = handle

variable {b : Block} {handle : Handle} {source : Source} {d : Disk} {id : Bytes}

theorem openReader_of_shows (h : b.Shows handle source d) : b.openReader d = .ok handle := by
  rw [openReader]
  cases hr : b.reader with
  | none => rw [h.opens]
  | some other => rw [h.reader other hr]

/-- The iteration at its start. -/
def opened (b : Block) (handle : Handle) (combiner : Combiner) : Iteration where
  handle := some handle
  encoding := b.descriptor.encoding
  groups := b.index.grouped
  combiner := combiner
  dataEncoding := b.descriptor.dataEncoding

theorem isOpen_opened (b : Block) (handle : Handle) (combiner : Combiner) : (b.opened handle combiner).IsOpen handle :=
  ⟨rfl, rfl⟩

theorem eq_opened_of_iterate {combiner : Combiner} {it : Iteration} (h : b.iterate combiner d = .ok it) :
    ∃ handle, it = b.opened handle combiner := by
  unfold iterate at h
  split at h
  · cases h
  · next handle _ =>
    cases h
    exact ⟨handle, rfl⟩

theorem iterate_of_shows (h : b.Shows handle source d) (combiner : Combiner) :
    b.iterate combiner d = .ok (b.opened handle combiner) := by
  rw [iterate, h.opens]
  rfl

section

variable [Codecs]

/-- What an iteration gives against what look-up gives: the items belong to the ids of the block in ascending order,
the one for `id` being what a look-up of `id` finds, or why it fails. -/
structure Mirrors (b : Block) (combiner : Combiner) (d : Disk) (ids : List Bytes)
    (items : List (Except Error (Bytes × Bytes))) : Prop where
  ascending : ids.Pairwise (· < ·)
  indexed : ∀ id, id ∈ ids ↔ ∃ r ∈ b.index, r.id = id
  length : items.length = ids.length
  found : ∀ (i : Nat) (id object : Bytes), items[i]? = some (.ok (id, object)) ↔
    ids[i]? = some id ∧ (b.find id combiner d).1.result = .ok (some object)
  failed : ∀ (i : Nat) (fault : Error), items[i]? = some (.error fault) ↔
    ∃ id, ids[i]? = some id ∧ (b.find id combiner d).1.result = .error fault
  absent : ∀ id, (b.find id combiner d).1.result = .ok none ↔ id ∉ ids

/-- What a look-up makes of the records under an id, if there are any. -/
def gathered (b : Block) (source : Source) (combiner : Combiner) (id : Bytes) : Combined Bytes :=
  match (b.index.forId id).mapM fun r => (Page.readAt b.descriptor.encoding source r).map (·.2) with
  | .error fault => ⟨.error fault, []⟩
  | .ok objects => combine combiner b.descriptor.dataEncoding id objects

theorem find_of_notMem (h : id ∉ b.index.ids) (combiner : Combiner) (d : Disk) :
    (b.find id combiner d).1 = ⟨.ok none, []⟩ := by
  rw [find, Index.forId_eq_nil_iff.2 h]

/-- A look-up opens the file only if there is something to read. -/
theorem find_of_openReader (h : b.openReader d = .ok handle) (id : Bytes) (combiner : Combiner) : b.find id combiner d =
    if b.index.forId id = [] then (⟨.ok none, []⟩, b)
    else (⟨(b.gathered (d.source handle) combiner id).result.map some,
      (b.gathered (d.source handle) combiner id).calls⟩, { b with reader := some handle }) := by
  rw [find, h, gathered]
  cases b.index.forId id <;> rfl

theorem find_of_mem (h : b.openReader d = .ok handle) (hid : id ∈ b.index.ids) (combiner : Combiner) :
    (b.find id combiner d).1 = ⟨(b.gathered (d.source handle) combiner id).result.map some,
      (b.gathered (d.source handle) combiner id).calls⟩ := by
  rw [find_of_openReader h, if_neg fun hnil => Index.forId_eq_nil_iff.1 hnil hid]

theorem result_find_of_shows (h : b.Shows handle source d) (hid : id ∈ b.index.ids) (combiner : Combiner) :
    (b.find id combiner d).1.result = (b.gathered source combiner id).result.map some := by
  rw [find_of_mem (openReader_of_shows h) hid, h.source]

theorem mirrors_map (h : b.Shows handle source d) (combiner : Combiner) : Mirrors b combiner d b.index.ids
    (b.index.ids.map fun id => (b.gathered source combiner id).result.map (id, ·)) := by
  refine ⟨Index.pairwise_ids b.index, fun _ => Index.mem_ids_iff, List.length_map _, fun i id object => ?_,
    fun i fault => ?_, fun id => ⟨fun hfind hid => ?_, fun hid => by rw [find_of_notMem hid]⟩⟩
  · rw [List.getElem?_map, Option.map_eq_some_iff]
    constructor
    · rintro ⟨other, hother, hitem⟩
      obtain ⟨found, hfound, hpair⟩ := map_eq_ok_iff.1 hitem
      cases hpair
      rw [result_find_of_shows h (List.mem_of_getElem? hother)]
      exact ⟨hother, map_eq_ok_iff.2 ⟨object, hfound, rfl⟩⟩
    · rintro ⟨hid, hfind⟩
      rw [result_find_of_shows h (List.mem_of_getElem? hid)] at hfind
      obtain ⟨found, hfound, hsome⟩ := map_eq_ok_iff.1 hfind
      cases hsome
      exact ⟨id, hid, map_eq_ok_iff.2 ⟨object, hfound, rfl⟩⟩
  · rw [List.getElem?_map, Option.map_eq_some_iff]
    apply exists_congr
    intro id
    apply and_congr_right
    intro hid
    rw [result_find_of_shows h (List.mem_of_getElem? hid), map_eq_error_iff, map_eq_error_iff]
  · rw [result_find_of_shows h hid] at hfind
    obtain ⟨found, -, hnone⟩ := map_eq_ok_iff.1 hfind
    cases hnone

/-- What an iteration makes of the records under an id is what a look-up makes of them. -/
theorem nextObject_forId (hid : id ∈ b.index.ids) (handle : Handle) (source : Source) (combiner : Combiner) :
    (b.opened handle combiner).nextObject source (b.index.forId id) =
      ⟨(b.gathered source combiner id).result.map (id, ·), (b.gathered source combiner id).calls⟩ := by
  rw [Iteration.nextObject_eq, Index.idOf_forId hid, gathered, opened]
  cases (b.index.forId id).mapM fun r => (Page.readAt b.descriptor.encoding source r).map (·.2) <;> rfl

/-- The groups are the records of the ids. -/
theorem map_itemOf_opened (b : Block) (handle : Handle) (source : Source) (combiner : Combiner) :
    b.index.grouped.map ((b.opened handle combiner).itemOf source) =
      b.index.ids.map fun id => (b.gathered source combiner id).result.map (id, ·) := by
  rw [Index.grouped_eq_map, List.map_map]
  apply List.map_congr_left
  intro id hid
  rw [Function.comp_apply, Iteration.itemOf, nextObject_forId hid]

/-- While the file stays as it is, an iteration gives exactly what look-ups of the ids give, one after the other. -/
theorem mirrors_of_shows (h : b.Shows handle source d) (combiner : Combiner) :
    ∃ it ids items, b.iterate combiner d = .ok it ∧
      (∀ items', it.Yields (b.Shows handle source) items' ↔ items' = items) ∧
      (∀ n, ids.length < n → (Iteration.drain d n it).1 = items) ∧
      ∀ d', b.Shows handle source d' → Mirrors b combiner d' ids items := by
  have hopen := isOpen_opened b handle combiner
  refine ⟨_, b.index.ids, _, iterate_of_shows h combiner, fun items' => ?_, fun n hn => ?_,
    fun d' h' => mirrors_map h' combiner⟩
  · rw [← map_itemOf_opened b handle]
    exact Iteration.yields_iff hopen ⟨d, h⟩ fun d' h' => h'.source
  · rw [← map_itemOf_opened b handle, ← h.source]
    apply Iteration.drain_eq hopen
    rwa [Index.ids, List.length_map] at hn

end

/-- A file that begins with a page. -/
def sampleFile (rest : Bytes) : Disk where
  files := [{ content := Page.samplePage ++ rest }]
  entries := [(["file"], .file 0)]

/-- A block whose index has the page twice, and something that is no page in between. -/
def sample : Block where
  descriptor := ⟨.zero, "t", .none, ""⟩
  path := ["file"]
  options := { root := [] }
  file := 0
  writer := { encoding := .none, sync := .async, size := 26 }
  index := [⟨[7], 0, 26⟩, ⟨[3], 5, 26⟩, ⟨[7], 0, 26⟩]
  info := newMeta ⟨.zero, "t", .none, ""⟩

theorem shows_sample (rest : Bytes) :
    sample.Shows (.file 0) (.ofBytes (Page.samplePage ++ rest)) (sampleFile rest) where
  opens := by
    have hplain : Disk.IsPlain "file" := ⟨by decide, by decide, by decide⟩
    have hleads : Disk.Leads (sampleFile rest) true Disk.maxLinks [] ["file"] (([] : Path) ++ ["file"]) :=
      .file hplain rfl
    rw [Disk.openRead, sample, Disk.find?_of_leads (by decide) hleads]
    rfl
  source := rfl
  reader := by simp [sample]

theorem mirrors_sample : ∃ it ids items, sample.iterate (fun _ objects => .ok objects.head?) (sampleFile []) = .ok it ∧
    it.Yields (sample.Shows (.file 0) (.ofBytes (Page.samplePage ++ []))) items ∧
      sample.Mirrors (fun _ objects => .ok objects.head?) (sampleFile []) ids items := by
  obtain ⟨it, ids, items, hit, hyields, -, hmirrors⟩ :=
    mirrors_of_shows (shows_sample []) fun _ objects => .ok objects.head?
  exact ⟨it, ids, items, hit, (hyields items).2 rfl, hmirrors _ (shows_sample [])⟩

end Block

end WriteAhead
