import WriteAhead.Disk.Actions
import WriteAhead.Proofs.Home
import WriteAhead.Proofs.Lookup
import WriteAhead.Proofs.Multimap

/-!
Requests to a block that has its file for itself. Main statements: no request comes to anything else on the disk
(`served_serve`), and what is answered depends on the block and its file alone (`serve_congr`).
-/

namespace WriteAhead

/-- What can be asked of a block. -/
inductive Request
  | create (options : Options)
  | append (id object : Bytes) (start stop now : UInt32)
  | find (id : Bytes) (combiner : Combiner)
  | iterate (combiner : Combiner)
  | clear

inductive Reply
  | created (result : Except Error Unit)
  | appended (result : Except Error Unit) (events : List Event)
  | found (answer : Combined (Option Bytes))
  /-- All items, and what the combiner was asked for them. -/
  | iterated (result : Except Error (List (Except Error (Bytes × Bytes)) × List CombinerCall))
  | cleared (result : Except Error Unit)
  /-- There is no such block. -/
  | absent

/-- The settings with which the block of `owner` is made in the directory `root`. -/
def Options.within (options : Options) (root : Path) (owner : Descriptor) : Options :=
  { options with root, encoding := owner.encoding }

/-- What comes of a request to the block of `owner` in the directory `root`, if there is one. A block that is made
again takes the place of the old one, and its file. -/
def Request.serve [Codecs] (request : Request) (root : Path) (owner : Descriptor) (block : Option Block) (d : Disk) :
    Reply × Option Block × Disk :=
  match request, block with
  | .create options, block =>
    match Log.newBlock ⟨options.within root owner⟩ owner.id owner.tenant owner.dataEncoding d with
    | .error e => (.created (.error e), block, d)
    | .ok (b, d) => (.created (.ok ()), some b, d)
  | _, none => (.absent, none, d)
  | .append id object start stop now, some b =>
    let r := b.append id object start stop now d
    (.appended r.result r.events, some r.block, r.disk)
  | .find id combiner, some b =>
    let (answer, b) := b.find id combiner d
    (.found answer, some b, d)
  | .iterate combiner, some b =>
    let result := (b.iterate combiner d).map fun it =>
      let (items, calls, _) := it.drain d (it.remaining + 1)
      (items, calls)
    (.iterated result, some b, d)
  | .clear, some b =>
    let (result, d) := b.clear d
    (.cleared result, none, d)

namespace Disk

/-- All names lead to files that are there. -/
def IsSound (d : Disk) : Prop := ∀ place id, d.node? place = some (.file id) → id < d.files.length

/-- No other name than that of `goal` appears or goes, and no other file changes. -/
structure AltersOnly (goal : Path) (d d' : Disk) : Prop where
  node : ∀ other, other ≠ goal → d'.node? other = d.node? other
  file : ∀ other id, other ≠ goal → d.node? other = some (.file id) → d'.file id = d.file id
  files : d.files.length ≤ d'.files.length
  /-- What is new there is a file. -/
  new : ∀ node, d'.node? goal = some node → d.node? goal = some node ∨ ∃ id < d'.files.length, node = .file id

variable {d d' : Disk} {goal : Path}

theorem altersOnly_refl (goal : Path) (d : Disk) : AltersOnly goal d d :=
  ⟨fun _ _ => rfl, fun _ _ _ _ => rfl, Nat.le_refl _, fun _ hn => .inl hn⟩

theorem file_create_of_lt {id : FileId} (h : id < d.files.length) (place : Path) (content : Bytes) :
    (d.create place content).2.file id = d.file id := by
  rw [file, create, List.getElem?_append_left h, file]

theorem altersOnly_create (hs : d.IsSound) (hg : goal ≠ []) (content : Bytes) :
    AltersOnly goal d (d.create goal content).2 := by
  refine ⟨fun other ho => node?_put_of_ne d ho _, fun other id _ hn => file_create_of_lt (hs other id hn) goal content,
    ?_, fun node hn => .inr ⟨d.files.length, ?_, ?_⟩⟩
  · rw [length_files_create]
    exact Nat.le_succ _
  · rw [length_files_create]
    exact Nat.lt_succ_self _
  · exact Option.some.inj (hn.symm.trans (node?_put d hg _))

theorem altersOnly_setFile {id : FileId} (hn : ∀ other, d.node? other = some (.file id) → other = goal) (f : File) :
    AltersOnly goal d (d.setFile id f) := by
  refine ⟨fun _ _ => rfl, fun other id' ho hn' => ?_, Nat.le_of_eq (length_files_setFile id f).symm, fun _ => .inl⟩
  apply file_setFile_of_ne
  rintro rfl
  exact ho (hn other hn')

theorem altersOnly_erase (hg : goal ≠ []) : AltersOnly goal d (d.erase goal) := by
  refine ⟨fun other ho => node?_erase_of_ne d ho, fun _ _ _ _ => rfl, Nat.le_refl _, fun node hn => ?_⟩
  cases (node?_erase d hg).symm.trans hn

theorem source_of_file {id id' : FileId} (h : d'.file id' = d.file id) :
    d'.source (.file id') = d.source (.file id) := by
  unfold source
  dsimp only
  rw [h]

end Disk

namespace Block

/-- The file of a block is in the directory `place` under the name of its `owner`, and has no other name. -/
structure Placed (root place : Path) (owner : Descriptor) (b : Block) (d : Disk) : Prop where
  writable : owner.IsWritable
  descriptor : b.descriptor = owner
  path : b.path = root ++ [owner.filename]
  plain : Disk.IsPlain owner.filename
  isText : Disk.isText [owner.filename] = true
  node : d.node? (place ++ [owner.filename]) = some (.file b.file)
  sole : ∀ other, d.node? other = some (.file b.file) → other = place ++ [owner.filename]
  opened : b.file < d.files.length
  reader : ∀ handle ∈ b.reader, handle = .file b.file

/-- Without a block there is nothing under its name. -/
def Stored (root place : Path) (owner : Descriptor) (d : Disk) : Option Block → Prop
  | none => owner.IsWritable → d.node? (place ++ [owner.filename]) = none
  | some b => b.Placed root place owner d

/-- The block, regardless of which file it has open. -/
def apart (b : Block) : Block := { b with file := 0, reader := none }

/-- A block with its file. -/
def cell (block : Option Block) (d : Disk) : Option (Block × File) := block.map fun b => (b.apart, d.file b.file)

/-- A new block with `size` bytes in its file. -/
def starting (owner : Descriptor) (options : Options) (file : FileId) (size : Nat) : Block where
  descriptor := owner
  path := options.root ++ [owner.filename]
  options := options
  file := file
  writer := { encoding := owner.encoding, sync := options.sync, size }
  index := []
  info := newMeta owner

section

variable {root place : Path} {owner : Descriptor} {b : Block} {d d' : Disk} {file : FileId}

theorem create_of_openAppend {options : Options}
    (h : d.openAppend (options.root ++ [owner.filename]) = .ok (file, d')) :
    create owner options d = .ok (starting owner options file (d'.content file).length, d') := by
  rw [create, h]
  rfl

theorem newBlock_of_isWritable (h : owner.IsWritable) (options : Options) (root : Path) (d : Disk) :
    Log.newBlock ⟨options.within root owner⟩ owner.id owner.tenant owner.dataEncoding d =
      create owner (options.within root owner) d := by
  have hcreate : Descriptor.create owner.id owner.tenant owner.encoding owner.dataEncoding = .ok owner :=
    Descriptor.create_eq_ok_iff.2 ⟨rfl, h⟩
  change (Descriptor.create owner.id owner.tenant owner.encoding owner.dataEncoding >>= fun made =>
    create made (options.within root owner) d) = _
  rw [hcreate]
  rfl

/-- Fields that no filename can hold are refused, whatever is on the disk. -/
theorem newBlock_of_not_isWritable (h : ¬ owner.IsWritable) (options : Options) (root : Path) :
    ∃ fault, ∀ d, Log.newBlock ⟨options.within root owner⟩ owner.id owner.tenant owner.dataEncoding d =
      .error fault := by
  cases hcreate : Descriptor.create owner.id owner.tenant owner.encoding owner.dataEncoding with
  | ok made =>
    obtain ⟨rfl, hw⟩ := Descriptor.create_eq_ok_iff.1 hcreate
    exact absurd hw h
  | error fault =>
    refine ⟨fault, fun d => ?_⟩
    change (Descriptor.create owner.id owner.tenant owner.encoding owner.dataEncoding >>= fun made =>
      create made (options.within root owner) d) = _
    rw [hcreate]
    rfl

/-- A name that no file can have is refused, whatever is on the disk. -/
theorem create_of_not_isPlain (hf : d.find? true root = .ok (place, some .directory))
    (hn : ¬ (Disk.IsPlain owner.filename ∧ Disk.isText [owner.filename] = true)) (options : Options) :
    create owner (options.within root owner) d = .error .io := by
  have hfind := Disk.find?_concat_eq_refused hf (owner.filename_ne (by decide)) (owner.filename_ne (by decide)) hn true
  rw [create, Disk.openAppend, Options.within, hfind]

/-- A new block of a name that is free. -/
theorem create_of_free (hf : d.find? true root = .ok (place, some .directory)) (hn : Disk.IsPlain owner.filename)
    (ht : Disk.isText [owner.filename] = true) (hfree : d.node? (place ++ [owner.filename]) = none)
    (options : Options) : create owner (options.within root owner) d =
      .ok (starting owner (options.within root owner) d.files.length 0,
        (d.create (place ++ [owner.filename]) []).2) := by
  have hfind := Disk.find?_concat_of_ne_link hf hn ht fun target hlink => by cases hfree.symm.trans hlink
  have hopen : d.openAppend (root ++ [owner.filename]) = .ok (d.create (place ++ [owner.filename]) []) := by
    rw [Disk.openAppend, hfind, hfree]
  have hcontent : (d.create (place ++ [owner.filename]) []).2.content d.files.length = [] :=
    congrArg (·.content) (Disk.file_create _ _)
  exact (create_of_openAppend hopen).trans (congrArg (fun content : Bytes =>
    Except.ok (starting owner (options.within root owner) d.files.length content.length, (d.create _ []).2)) hcontent)

/-- A new block of a name that has a file already. -/
theorem create_of_placed (hf : d.find? true root = .ok (place, some .directory)) (h : b.Placed root place owner d)
    (options : Options) : create owner (options.within root owner) d =
      .ok (starting owner (options.within root owner) b.file (d.content b.file).length, d) :=
  create_of_openAppend (Disk.openAppend_of_openRead (Disk.openRead_concat hf h.plain h.isText h.node))

/-- What serving a block comes to: nothing but its file is touched, which it keeps unless it is gone. -/
structure Served (root place : Path) (owner : Descriptor) (d d' : Disk) (block' : Option Block) : Prop where
  alters : Disk.AltersOnly (place ++ [owner.filename]) d d'
  stored : Stored root place owner d' block'

theorem served_of_eq {block : Option Block} (h : Stored root place owner d block) : Served root place owner d d block :=
  ⟨Disk.altersOnly_refl _ d, h⟩

theorem served_create_of_free (hs : d.IsSound) (hw : owner.IsWritable) (hn : Disk.IsPlain owner.filename)
    (ht : Disk.isText [owner.filename] = true) (options : Options) :
    Served root place owner d (d.create (place ++ [owner.filename]) []).2
      (some (starting owner (options.within root owner) d.files.length 0)) := by
  have hgoal := Disk.append_singleton_ne_nil place owner.filename
  refine ⟨Disk.altersOnly_create hs hgoal [], hw, rfl, rfl, hn, ht, Disk.node?_put d hgoal _, fun other ho => ?_, ?_,
    by rintro handle ⟨⟩⟩
  · refine Classical.byContradiction fun hne => ?_
    exact Nat.lt_irrefl _ (hs other _ ((Disk.node?_put_of_ne d hne _).symm.trans ho))
  · exact Nat.lt_of_lt_of_eq (Nat.lt_succ_self _) (Disk.length_files_create _ _).symm

theorem placed_starting (h : b.Placed root place owner d) (options : Options) (size : Nat) :
    (starting owner (options.within root owner) b.file size).Placed root place owner d :=
  ⟨h.writable, rfl, rfl, h.plain, h.isText, h.node, h.sole, h.opened, by rintro handle ⟨⟩⟩

section

variable [Codecs]

theorem served_append (h : b.Placed root place owner d) (id object : Bytes) (start stop now : UInt32) :
    Served root place owner d (b.append id object start stop now d).disk
      (some (b.append id object start stop now d).block) := by
  obtain ⟨writer, index, info, hblock⟩ := block_append b id object start stop now d
  rw [hblock, disk_append]
  refine ⟨Disk.altersOnly_setFile h.sole _, { h with opened := ?_ }⟩
  rw [Disk.length_files_setFile]
  exact h.opened

end

/-- Another block is as it was. -/
theorem stored_of_served {other : Descriptor} (ho : other ≠ owner) (hw : owner.IsWritable) {block block' : Option Block}
    (hs : Served root place owner d d' block') (h : Stored root place other d block) :
    Stored root place other d' block ∧ cell block d' = cell block d := by
  have hgoal : other.IsWritable → place ++ [other.filename] ≠ place ++ [owner.filename] := by
    intro hw' he
    exact ho (Descriptor.filename_inj hw hw' (List.append_singleton_inj.1 he).2)
  cases block with
  | none =>
    exact ⟨fun hw' => (hs.alters.node _ (hgoal hw')).trans (h hw'), rfl⟩
  | some b =>
    have hnode := (hs.alters.node _ (hgoal h.writable)).trans h.node
    have hfile := hs.alters.file _ _ (hgoal h.writable) h.node
    refine ⟨{ h with node := hnode, sole := fun place' hp => ?_, opened := ?_ }, ?_⟩
    · by_cases he : place' = place ++ [owner.filename]
      · subst he
        cases block' with
        | none => cases (hs.stored hw).symm.trans hp
        | some b' =>
          have hb : b'.file = b.file := Node.file.inj (Option.some.inj (hs.stored.node.symm.trans hp))
          exact absurd (hs.stored.sole _ (hb ▸ hnode)) (hgoal h.writable)
      · exact h.sole place' ((hs.alters.node _ he).symm.trans hp)
    · exact Nat.lt_of_lt_of_le h.opened hs.alters.files
    · exact congrArg (fun f => some (b.apart, f)) hfile

theorem exists_twin {block' : Option Block} (hc : cell block' d' = cell (some b) d) :
    ∃ file reader, block' = some { b with file, reader } ∧ d'.file file = d.file b.file := by
  cases block' with
  | none => cases hc
  | some b' =>
    obtain ⟨happart, hfile⟩ := Prod.mk.inj (Option.some.inj hc)
    refine ⟨b'.file, b'.reader, ?_, hfile⟩
    obtain ⟨descriptor, path, options, file, writer, index, info, reader⟩ := b
    obtain ⟨descriptor', path', options', file', writer', index', info', reader'⟩ := b'
    cases happart
    rfl

theorem eq_none_of_cell {block' : Option Block} (hc : cell block' d' = cell none d) : block' = none :=
  Option.map_eq_none_iff.1 hc

theorem shows_of_placed (hf : d.find? true root = .ok (place, some .directory)) (h : b.Placed root place owner d) :
    b.Shows (.file b.file) (d.source (.file b.file)) d :=
  ⟨by rw [h.path, Disk.openRead_concat hf h.plain h.isText h.node], rfl, h.reader⟩

theorem clear_of_placed (hf : d.find? true root = .ok (place, some .directory)) (h : b.Placed root place owner d) :
    b.clear d = (.ok (), d.erase (place ++ [owner.filename])) := by
  rw [clear, h.path, Disk.removeFile_concat hf h.plain h.isText h.node]

section

variable [Codecs]

/-- An iteration that is run to its end. -/
theorem drained_of_placed (hf : d.find? true root = .ok (place, some .directory)) (h : b.Placed root place owner d)
    (combiner : Combiner) :
    ((b.iterate combiner d).map fun it => ((it.drain d (it.remaining + 1)).1, (it.drain d (it.remaining + 1)).2.1)) =
      .ok (b.index.grouped.map ((b.opened (.file b.file) combiner).itemOf (d.source (.file b.file))),
        b.index.grouped.flatMap fun group =>
          ((b.opened (.file b.file) combiner).nextObject (d.source (.file b.file)) group).calls) := by
  have hopen := isOpen_opened b (.file b.file) combiner
  have hitems := Iteration.drain_eq hopen d (Nat.lt_succ_self _)
  have hcalls := Iteration.calls_drain hopen d (Nat.lt_succ_self _)
  rw [iterate_of_shows (shows_of_placed hf h)]
  exact congrArg Except.ok (Prod.ext hitems hcalls)

theorem find_of_placed (hf : d.find? true root = .ok (place, some .directory)) (h : b.Placed root place owner d)
    (id : Bytes) (combiner : Combiner) : b.find id combiner d =
      if b.index.forId id = [] then (⟨.ok none, []⟩, b)
      else (⟨(b.gathered (d.source (.file b.file)) combiner id).result.map some,
        (b.gathered (d.source (.file b.file)) combiner id).calls⟩, { b with reader := some (.file b.file) }) :=
  find_of_openReader (openReader_of_shows (shows_of_placed hf h)) id combiner

theorem served_create (hf : d.find? true root = .ok (place, some .directory)) (hs : d.IsSound) {block : Option Block}
    (h : Stored root place owner d block) (options : Options) :
    Served root place owner d ((Request.create options).serve root owner block d).2.2
      ((Request.create options).serve root owner block d).2.1 := by
  dsimp only [Request.serve]
  by_cases hw : owner.IsWritable
  · rw [newBlock_of_isWritable hw]
    by_cases hn : Disk.IsPlain owner.filename ∧ Disk.isText [owner.filename] = true
    · cases block with
      | none =>
        rw [create_of_free hf hn.1 hn.2 (h hw)]
        exact served_create_of_free hs hw hn.1 hn.2 options
      | some b =>
        rw [create_of_placed hf h]
        exact served_of_eq (placed_starting h options _)
    · rw [create_of_not_isPlain hf hn]
      exact served_of_eq h
  · obtain ⟨fault, hfault⟩ := newBlock_of_not_isWritable hw options root
    rw [hfault]
    exact served_of_eq h

theorem served_serve (hf : d.find? true root = .ok (place, some .directory)) (hs : d.IsSound) {block : Option Block}
    (h : Stored root place owner d block) (request : Request) :
    Served root place owner d (request.serve root owner block d).2.2 (request.serve root owner block d).2.1 := by
  cases request with
  | create options => exact served_create hf hs h options
  | append id object start stop now =>
    cases block with
    | none => exact served_of_eq h
    | some b => exact served_append h id object start stop now
  | find id combiner =>
    cases block with
    | none => exact served_of_eq h
    | some b =>
      dsimp only [Request.serve]
      rw [find_of_placed hf h]
      split
      · exact served_of_eq h
      · exact served_of_eq { h with reader := by rintro handle ⟨⟩; rfl }
  | iterate combiner =>
    cases block with
    | none => exact served_of_eq h
    | some b => exact served_of_eq h
  | clear =>
    cases block with
    | none => exact served_of_eq h
    | some b =>
      dsimp only [Request.serve]
      rw [clear_of_placed hf h]
      have hgoal := Disk.append_singleton_ne_nil place owner.filename
      exact ⟨Disk.altersOnly_erase hgoal, fun _ => Disk.node?_erase d hgoal⟩

/-- Without a name that can be written there is no block, and what is asked of it does not come to the disk. -/
theorem serve_of_not_isWritable {block : Option Block} (h : Stored root place owner d block) (hw : ¬ owner.IsWritable)
    (request : Request) : block = none ∧ ∃ reply, ∀ d, request.serve root owner none d = (reply, none, d) := by
  refine ⟨?_, ?_⟩
  · cases block with
    | none => rfl
    | some b => exact absurd h.writable hw
  · cases request with
    | create options =>
      obtain ⟨fault, hfault⟩ := newBlock_of_not_isWritable hw options root
      exact ⟨.created (.error fault), fun d => by dsimp only [Request.serve]; rw [hfault]⟩
    | append | find | iterate | clear => exact ⟨.absent, fun d => rfl⟩

/-- An append depends on the file alone, and not on which one that is. -/
theorem append_congr {file : FileId} {reader : Option Handle} (hf : d'.file file = d.file b.file)
    (ho : b.file < d.files.length) (ho' : file < d'.files.length) (id object : Bytes) (start stop now : UInt32) :
    let r := b.append id object start stop now d
    let r' := append { b with file, reader } id object start stop now d'
    r'.result = r.result ∧ r'.events = r.events ∧ cell (some r'.block) r'.disk = cell (some r.block) r.disk := by
  dsimp only [append]
  rw [hf]
  generalize b.writer.append id object (d.file b.file).toScriptedSink = result
  obtain ⟨result, writer, sink⟩ := result
  have hfile := Disk.file_setFile ho { d.file b.file with toScriptedSink := sink }
  have hfile' := Disk.file_setFile ho' { d.file b.file with toScriptedSink := sink }
  cases result with
  | error fault =>
    refine ⟨rfl, rfl, ?_⟩
    rw [cell, cell, Option.map_some, Option.map_some, hfile, hfile']
    rfl
  | ok record =>
    refine ⟨rfl, rfl, ?_⟩
    rw [cell, cell, Option.map_some, Option.map_some, hfile, hfile']
    rfl

theorem create_congr (hf : d.find? true root = .ok (place, some .directory))
    (hf' : d'.find? true root = .ok (place, some .directory)) (hw : owner.IsWritable) {block block' : Option Block}
    (h : Stored root place owner d block) (h' : Stored root place owner d' block')
    (hc : cell block' d' = cell block d) (options : Options) :
    let r := (Request.create options).serve root owner block d
    let r' := (Request.create options).serve root owner block' d'
    r'.1 = r.1 ∧ cell r'.2.1 r'.2.2 = cell r.2.1 r.2.2 := by
  dsimp only [Request.serve]
  rw [newBlock_of_isWritable hw, newBlock_of_isWritable hw]
  by_cases hn : Disk.IsPlain owner.filename ∧ Disk.isText [owner.filename] = true
  · cases block with
    | none =>
      obtain rfl := eq_none_of_cell hc
      rw [create_of_free hf hn.1 hn.2 (h hw), create_of_free hf' hn.1 hn.2 (h' hw)]
      refine ⟨rfl, ?_⟩
      dsimp only [cell, Option.map, starting]
      rw [Disk.file_create, Disk.file_create]
      rfl
    | some b =>
      obtain ⟨file, reader, rfl, hfile⟩ := exists_twin hc
      have hcontent : d'.content file = d.content b.file := congrArg (·.content) hfile
      rw [create_of_placed hf h, create_of_placed hf' h']
      refine ⟨rfl, ?_⟩
      dsimp only [cell, Option.map, starting, apart]
      rw [hfile, hcontent]
  · rw [create_of_not_isPlain hf hn, create_of_not_isPlain hf' hn]
    exact ⟨rfl, hc⟩

/-- What is answered, and what becomes of the block, depends on no more than the block and its file. -/
theorem serve_congr (hf : d.find? true root = .ok (place, some .directory))
    (hf' : d'.find? true root = .ok (place, some .directory)) {block block' : Option Block}
    (h : Stored root place owner d block) (h' : Stored root place owner d' block')
    (hc : cell block' d' = cell block d) (request : Request) :
    let r := request.serve root owner block d
    let r' := request.serve root owner block' d'
    r'.1 = r.1 ∧ cell r'.2.1 r'.2.2 = cell r.2.1 r.2.2 := by
  by_cases hw : owner.IsWritable
  · cases block with
    | none =>
      obtain rfl := eq_none_of_cell hc
      cases request with
      | create options => exact create_congr hf hf' hw h h' hc options
      | append | find | iterate | clear => exact ⟨rfl, hc⟩
    | some b =>
      obtain ⟨file, reader, rfl, hfile⟩ := exists_twin hc
      have hsource := Disk.source_of_file hfile
      cases request with
      | create options => exact create_congr hf hf' hw h h' hc options
      | append id object start stop now =>
        obtain ⟨hresult, hevents, hcell⟩ := append_congr hfile h.opened h'.opened id object start stop now
        dsimp only [Request.serve]
        rw [hresult, hevents]
        exact ⟨rfl, hcell⟩
      | find id combiner =>
        dsimp only [Request.serve]
        rw [find_of_placed hf h, find_of_placed hf' h']
        dsimp only
        split
        · exact ⟨rfl, hc⟩
        · refine ⟨?_, hc⟩
          dsimp only [gathered]
          rw [hsource]
      | iterate combiner =>
        refine ⟨congrArg Reply.iterated ?_, hc⟩
        refine (drained_of_placed hf' h' combiner).trans (Eq.trans ?_ (drained_of_placed hf h combiner).symm)
        rw [hsource]
        rfl
      | clear =>
        dsimp only [Request.serve]
        rw [clear_of_placed hf h, clear_of_placed hf' h']
        exact ⟨rfl, rfl⟩
  · obtain ⟨rfl, reply, hreply⟩ := serve_of_not_isWritable h hw request
    obtain rfl := eq_none_of_cell hc
    dsimp only
    rw [hreply, hreply]
    exact ⟨rfl, rfl⟩

end

/-- Under the name of a block there is its file. -/
theorem read_of_stored (hf : d.find? true root = .ok (place, some .directory)) (hn : Disk.IsPlain owner.filename)
    (ht : Disk.isText [owner.filename] = true) (hw : owner.IsWritable) {block : Option Block}
    (h : Stored root place owner d block) : d.read (root ++ [owner.filename]) =
      match cell block d with
      | none => .error .missing
      | some (_, f) => .ok f.content := by
  cases block with
  | none =>
    have hfree := h hw
    have hfind := Disk.find?_concat_of_ne_link hf hn ht fun target hlink => by cases hfree.symm.trans hlink
    rw [Disk.read, hfind, hfree]
    rfl
  | some b =>
    have hnode := h.node
    have hfind := Disk.find?_concat_of_ne_link hf hn ht fun target hlink => by cases hnode.symm.trans hlink
    rw [Disk.read, hfind, hnode]
    rfl

theorem read_congr (hf : d.find? true root = .ok (place, some .directory))
    (hf' : d'.find? true root = .ok (place, some .directory)) (hw : owner.IsWritable) {block block' : Option Block}
    (h : Stored root place owner d block) (h' : Stored root place owner d' block')
    (hc : cell block' d' = cell block d) :
    d'.read (root ++ [owner.filename]) = d.read (root ++ [owner.filename]) := by
  by_cases hn : Disk.IsPlain owner.filename ∧ Disk.isText [owner.filename] = true
  · rw [read_of_stored hf hn.1 hn.2 hw h, read_of_stored hf' hn.1 hn.2 hw h', hc]
  · have hself : owner.filename ≠ "." := owner.filename_ne (by decide)
    have hparent : owner.filename ≠ ".." := owner.filename_ne (by decide)
    rw [Disk.read, Disk.read, Disk.find?_concat_eq_refused hf hself hparent hn,
      Disk.find?_concat_eq_refused hf' hself hparent hn]

end

end Block

end WriteAhead
