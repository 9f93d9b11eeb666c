import WriteAhead.Proofs.Restart

/-!
A block as a multimap that outlives its process. Main statement: after any run of appends, look-ups
and restarts behind torn pages, the records and all look-ups are those of the appended objects in
their order, and the next restart gives the block back (`isMultimap_of_lived`).
-/

namespace WriteAhead

open Page

/-- What a look-up under `id` is to give, after the objects `ops` were appended under their ids. -/
def answer (ops : List (Bytes × Bytes)) (combiner : Combiner) (dataEncoding : String) (id : Bytes) :
    Except Error (Option Bytes) :=
  match (ops.filter fun op => op.1 == id).map (·.2) with
  | [] => .ok none
  | [object] => .ok (some object)
  | objects =>
    match combiner dataEncoding objects with
    | .error e => .error e
    | .ok none => .error (.combine id objects.length)
    | .ok (some object) => .ok (some object)

/-- The path to the directory of a log leads neither through `completed` nor through a link in it. -/
def Log.IsAnchored (root : Path) (d : Disk) : Prop :=
  ∃ place inner, d.IsHome root place inner ∧ completedName ∉ inner

/-- There is no file in place of the directory for completed blocks. -/
def Log.IsUnblocked (root : Path) (d : Disk) : Prop :=
  ∀ goal id, d.find? false (root ++ [completedName]) ≠ .ok (goal, some (.file id))

/-- A directory that a log can be opened in again and again. -/
def Log.IsSteady (root : Path) (d : Disk) : Prop := IsAnchored root d ∧ IsUnblocked root d

/-- `bytes` is what is left of a page of encoding `e` that was not written to its end. -/
def IsTorn [Codecs] (e : Encoding) (bytes : Bytes) : Prop :=
  ∃ id object header payload, build e id object = .ok (header, payload) ∧
    bytes <+: header.toBytes ++ payload ∧ bytes ≠ header.toBytes ++ payload

/-- How a block that was torn may be taken back. -/
structure Log.Allows (b : Block) (options : Options) (derive : Deriver) : Prop where
  root : options.root = b.options.root
  buffer : 0 < options.readBuffer
  derives : Derives derive b.index b.descriptor.dataEncoding

namespace Block

/-- The disk after the file of the block got `bytes` at its end. -/
def tear (b : Block) (bytes : Bytes) (d : Disk) : Disk :=
  d.setContent b.file (d.content b.file ++ bytes)

theorem content_tear {b : Block} {d : Disk} (h : b.file < d.files.length) (bytes : Bytes) :
    (b.tear bytes d).content b.file = d.content b.file ++ bytes :=
  congrArg (·.content) (Disk.file_setFile h _)

theorem isCalm_tear {b : Block} {d : Disk} (h : b.file < d.files.length) (hc : d.IsCalm b.file) (bytes : Bytes) :
    (b.tear bytes d).IsCalm b.file := by
  obtain ⟨⟨writes, flushes, syncs, truncates⟩, readable⟩ := hc
  exact Disk.isCalm_setFile h ⟨writes, flushes, syncs, truncates⟩ readable

/-- A block of a log in a directory that is `ready`, and a disk, as they can come about, with the objects
that were appended under their ids. -/
inductive Lived [Codecs] (ready : Path → Disk → Prop) (descriptor : Descriptor) :
    Block → Disk → List (Bytes × Bytes) → Prop
  | created {options : Options} {log : Log} {d₀ d d' : Disk} {id : Uuid} {tenant dataEncoding : String} {b : Block}
      {place : Path} (opened : (Log.start options d₀).result = .ok log) (directory : ready options.root d)
      (accepted : Descriptor.create id tenant options.encoding dataEncoding = .ok descriptor)
      (new : log.newBlock id tenant dataEncoding d = .ok (b, d'))
      (fresh : d.find? false b.path = .ok (place, none)) : Lived ready descriptor b d' []
  | appended {b : Block} {d : Disk} {ops : List (Bytes × Bytes)} (before : Lived ready descriptor b d ops)
      (id object : Bytes) (start stop now : UInt32) (done : (b.append id object start stop now d).result = .ok ()) :
      Lived ready descriptor (b.append id object start stop now d).block (b.append id object start stop now d).disk
        (ops ++ [(id, object)])
  | refused {b : Block} {d : Disk} {ops : List (Bytes × Bytes)} (before : Lived ready descriptor b d ops)
      (id object : Bytes) (start stop now : UInt32) {fault : Error}
      (failed : (b.append id object start stop now d).result = .error fault) :
      Lived ready descriptor (b.append id object start stop now d).block (b.append id object start stop now d).disk ops
  | found {b : Block} {d : Disk} {ops : List (Bytes × Bytes)} (before : Lived ready descriptor b d ops) (id : Bytes)
      (combiner : Combiner) : Lived ready descriptor (b.find id combiner d).2 d ops
  | restarted {b b' : Block} {d : Disk} {ops : List (Bytes × Bytes)} {s : Log.Rescan} {torn : Bytes}
      {options : Options} {derive : Deriver} {additional : Duration} {clock : Clock}
      (before : Lived ready descriptor b d ops) (some : ops ≠ []) (tail : IsTorn b.descriptor.encoding torn)
      (allows : Log.Allows b options derive)
      (restart : Log.restart options derive additional clock (b.tear torn d) = .ok s)
      (mem : b' ∈ s.blocks) (path : b'.path = b.path) : Lived ready descriptor b' s.disk ops

/-- A block that knows the objects `ops` under their ids, and will not lose them in a restart. A file
longer than `maxSeek` would be in no directory. -/
structure IsMultimap [Codecs] (descriptor : Descriptor) (b : Block) (d : Disk) (ops : List (Bytes × Bytes)) :
    Prop where
  descriptor_eq : b.descriptor = descriptor
  records : b.index.map (·.id) = ops.map (·.1)
  find : (d.content b.file).length ≤ maxSeek → ∀ id combiner,
    (b.find id combiner d).1.result = answer ops combiner descriptor.dataEncoding id
  append : ∀ id object start stop now fault, (b.append id object start stop now d).result = .error fault →
    build descriptor.encoding id object = .error fault
  restart : ops ≠ [] → ∀ torn, IsTorn descriptor.encoding torn → ∀ options derive, Log.Allows b options derive →
    ∀ additional clock, ∃ s, Log.restart options derive additional clock (b.tear torn d) = .ok s ∧
      ∃ b' ∈ s.blocks, b'.path = b.path

/-- All that a run keeps: block and file agree on the pages `xs`, and the file is where it can be found. -/
structure Stands [Codecs] (descriptor : Descriptor) (place : Path) (inner : List String) (xs : List Entry)
    (b : Block) (d : Disk) (ops : List (Bytes × Bytes)) : Prop where
  descriptor_eq : b.descriptor = descriptor
  path : b.path = b.options.root ++ [descriptor.filename]
  root : b.options.root ≠ []
  parse : Descriptor.parse descriptor.filename = .ok descriptor
  plain : Disk.IsPlain descriptor.filename
  isText : Disk.isText [descriptor.filename] = true
  uncompleted : descriptor.filename ≠ Log.completedName
  houses : Log.Houses d b.options.root place inner descriptor.filename b.file
  calm : d.IsCalm b.file
  live : Live b d xs
  short : ∀ x ∈ xs, x.page.length < UInt32.size
  objects : xs.map (fun x => (x.id, x.object)) = ops
  reader : ∀ handle ∈ b.reader, handle = .file b.file

section

variable [Codecs] {descriptor : Descriptor} {place : Path} {inner : List String} {xs : List Entry} {b : Block}
  {d : Disk} {ops : List (Bytes × Bytes)}

theorem stands_append (h : Stands descriptor place inner xs b d ops) (id object : Bytes) (start stop now : UInt32) :
    ((b.append id object start stop now d).result = .ok () ∧ ∃ xs, Stands descriptor place inner xs
      (b.append id object start stop now d).block (b.append id object start stop now d).disk (ops ++ [(id, object)])) ∨
    (∃ fault, (b.append id object start stop now d).result = .error fault ∧ Stands descriptor place inner xs
      (b.append id object start stop now d).block (b.append id object start stop now d).disk ops) := by
  obtain ⟨husable, hcalm, -⟩ := append_of_isCalm h.live h.calm id object start stop now
  have hentries : (b.append id object start stop now d).disk.entries = d.entries := by
    rw [disk_append, Disk.entries_setFile]
  have hhouses := Log.houses_of_entries h.houses hentries
  obtain ⟨writer, index, info, hblock⟩ := block_append b id object start stop now d
  obtain ⟨page, hlen, hok, hlive⟩ | ⟨fault, herr, hsame, hc⟩ := live_append h.live id object start stop now husable
  · refine .inl ⟨hok, xs ++ [⟨id, object, page⟩], ?_⟩
    rw [hblock] at hlive ⊢
    refine { h with houses := hhouses, calm := hcalm, live := hlive, short := ?_, objects := ?_ }
    · exact List.forall_mem_append.2 ⟨h.short, List.forall_mem_singleton.2 hlen⟩
    · rw [List.map_append, h.objects]
      rfl
  · refine .inr ⟨fault, herr, ?_⟩
    rw [hsame]
    refine { h with houses := hhouses, calm := hcalm, live := live_of_content h.live hc ?_ }
    rw [disk_append, Disk.length_files_setFile]
    exact h.live.opened

/-- The objects under one id are read from behind `before`. -/
theorem mapM_readAt_layout {e : Encoding} (hx : ∀ x ∈ xs, x.IsValid e ∧ x.page.length < UInt32.size) (before : Bytes)
    (hs : (before ++ joined xs).length ≤ maxSeek) (id : Bytes) :
    ((layout before.length xs).forId id).mapM
        (fun r => (readAt e (.ofBytes (before ++ joined xs)) r).map (·.2)) =
      .ok ((xs.filter fun x => x.id == id).map (·.object)) := by
  have h := mapM_readAt_filter (· == id) (·.2) hx before [] hs
  rw [List.append_nil] at h
  exact h

theorem openReader_of_stands (h : Stands descriptor place inner xs b d ops) :
    b.openReader d = .ok (.file b.file) := by
  unfold openReader
  cases hr : b.reader with
  | some handle => rw [h.reader handle hr]
  | none =>
    dsimp only
    rw [h.path, Disk.openRead_name h.houses.home h.plain h.isText h.houses.node]

/-- A look-up reads the objects under the id, and makes one of them if there are several. -/
theorem find_of_stands (h : Stands descriptor place inner xs b d ops) (hs : (d.content b.file).length ≤ maxSeek)
    (id : Bytes) (combiner : Combiner) :
    (b.find id combiner d).1.result = answer ops combiner descriptor.dataEncoding id := by
  have hx : ∀ x ∈ xs, x.IsValid b.descriptor.encoding ∧ x.page.length < UInt32.size :=
    fun x hx => ⟨h.live.valid x hx, h.short x hx⟩
  have hread := mapM_readAt_layout hx [] (by rw [List.nil_append, ← h.live.content]; exact hs) id
  have hlength := length_forId_layout 0 xs id
  have hobjects : (ops.filter fun op => op.1 == id).map (·.2) = (xs.filter fun x => x.id == id).map (·.object) := by
    rw [← h.objects, List.filter_map, List.map_map]
    rfl
  rw [List.nil_append, List.length_nil, ← h.live.index, ← h.live.content, ← Disk.source_of_isCalm h.calm] at hread
  rw [← h.live.index] at hlength
  rw [answer, hobjects]
  unfold find
  generalize (xs.filter fun x => x.id == id).map (·.object) = objects at hread hlength
  cases hf : b.index.forId id with
  | nil =>
    rw [hf] at hlength
    rw [List.eq_nil_of_length_eq_zero hlength.symm]
  | cons r rest =>
    rw [hf] at hread hlength
    rw [openReader_of_stands h]
    dsimp only
    rw [hread, h.descriptor_eq]
    match objects, hlength with
    | [object], _ => rfl
    | first :: second :: more, _ =>
      dsimp only [combine]
      cases combiner descriptor.dataEncoding (first :: second :: more) with
      | error e => rfl
      | ok object => cases object <;> rfl

theorem stands_find (h : Stands descriptor place inner xs b d ops) (id : Bytes) (combiner : Combiner) :
    Stands descriptor place inner xs (b.find id combiner d).2 d ops := by
  unfold find
  rw [openReader_of_stands h]
  split
  · exact h
  · obtain ⟨usable, encoding, opened, valid, content, index, size, info_size, objects⟩ := h.live
    refine { h with live := ⟨usable, encoding, opened, valid, content, index, size, info_size, objects⟩, reader := ?_ }
    rintro handle ⟨⟩
    rfl

theorem stands_of_created {options : Options} {log : Log} {d₀ d' : Disk} {id : Uuid} {tenant dataEncoding : String}
    {goal : Path} (opened : (Log.start options d₀).result = .ok log) (steady : Log.IsSteady options.root d)
    (accepted : Descriptor.create id tenant options.encoding dataEncoding = .ok descriptor)
    (new : log.newBlock id tenant dataEncoding d = .ok (b, d')) (fresh : d.find? false b.path = .ok (goal, none)) :
    ∃ place inner, Stands descriptor place inner [] b d' [] := by
  obtain ⟨hroot, rfl⟩ := Log.eq_of_start opened
  obtain ⟨⟨place, inner, hhome, hpassable⟩, hunblocked⟩ := steady
  have hcompleted : ∀ id, d.node? (place ++ [Log.completedName]) ≠ some (.file id) := by
    intro id hid
    apply hunblocked (place ++ [Log.completedName]) id
    rw [Disk.find?_name hhome Log.isPlain_completedName (by decide), hid]
  obtain ⟨other, haccepted, hcreate⟩ := Log.create_of_newBlock new
  obtain rfl : other = descriptor := Except.ok.inj (haccepted.symm.trans accepted)
  have hwritable := Descriptor.isWritable_of_create accepted
  dsimp only [create] at hcreate
  split at hcreate
  · cases hcreate
  · next file disk hopen =>
    cases hcreate
    dsimp only at fresh
    obtain ⟨hplain, htext⟩ :=
      Disk.plain_of_find? hhome (other.filename_ne (by decide)) (other.filename_ne (by decide)) fresh
    have hfind := Disk.find?_name hhome hplain htext
    obtain ⟨-, hfree⟩ := Prod.mk.inj (Except.ok.inj (fresh.symm.trans hfind))
    have hlink : ∀ target, d.node? (place ++ [other.filename]) ≠ some (.link target) := by
      intro target hlink
      cases hfree.trans hlink
    have hpath := Disk.find?_name_of_ne_link hhome hplain htext hlink
    rw [← hfree] at hpath
    have hlive := live_of_created new hpath
    rw [Disk.openAppend, hpath] at hopen
    cases hopen
    have huncompleted : other.filename ≠ Log.completedName := other.filename_ne (by decide)
    have hcalm := Disk.isCalm_create d (place ++ [other.filename]) []
    refine ⟨place, inner, rfl, rfl, hroot, Descriptor.parse_filename hwritable, hplain, htext, huncompleted, ?_, hcalm,
      hlive, by simp, rfl, by rintro handle ⟨⟩⟩
    exact Log.houses_of_entries (Log.houses_put hhome hpassable hcompleted hfree.symm huncompleted _) rfl

/-- Whatever page was torn, the block comes back as it was. -/
theorem stands_restart (h : Stands descriptor place inner xs b d ops) (hne : ops ≠ []) {torn : Bytes}
    (ht : IsTorn descriptor.encoding torn) {options : Options} {derive : Deriver} (ha : Log.Allows b options derive)
    (additional : Duration) (clock : Clock) :
    ∃ s, Log.restart options derive additional clock (b.tear torn d) = .ok s ∧ (∃ b' ∈ s.blocks, b'.path = b.path) ∧
      ∀ b' ∈ s.blocks, b'.path = b.path → Stands descriptor place inner xs b' s.disk ops := by
  obtain ⟨id, object, header, payload, hbuild, hprefix, hproper⟩ := ht
  have hnoPage := noPage_of_torn (isPage_of_build hbuild) hprefix hproper
  have hxs : xs ≠ [] := by
    rintro rfl
    exact hne h.objects.symm
  have hsought : Log.Sought ⟨options⟩ descriptor xs :=
    ⟨ha.buffer, h.parse, h.plain, h.isText, h.descriptor_eq ▸ h.live.valid, hxs⟩
  have hderives : Log.Derives derive (layout 0 xs) descriptor.dataEncoding := by
    rw [← h.live.index, ← h.descriptor_eq]
    exact ha.derives
  have hhouses : Log.Houses (b.tear torn d) options.root place inner descriptor.filename b.file := by
    rw [ha.root]
    exact Log.houses_of_entries h.houses rfl
  have hopened : b.file < (b.tear torn d).files.length :=
    Nat.lt_of_lt_of_eq h.live.opened (Disk.length_files_setFile _ _).symm
  have hcontent : (b.tear torn d).content b.file = joined xs ++ torn := by
    rw [content_tear h.live.opened, h.live.content]
  have hpath : b.path = options.root ++ [descriptor.filename] := by rw [h.path, ha.root]
  obtain ⟨s, hrestart, hkept, hback⟩ := Log.retaken_restart additional clock (ha.root ▸ h.root) hsought h.uncompleted
    hderives hhouses hopened (isCalm_tear h.live.opened h.calm torn) hnoPage hcontent
  rw [hpath]
  refine ⟨s, hrestart, hback, fun b' hmem hsame => ?_⟩
  obtain ⟨hdescriptor, hoptions, hid, hreader, hlive⟩ := hkept.blocks b' hmem hsame
  have hroot : b'.options.root = options.root := by rw [hoptions]
  refine ⟨hdescriptor, hsame.trans (by rw [hroot]), ?_, h.parse, h.plain, h.isText, h.uncompleted, ?_, ?_, hlive,
    h.short, h.objects, ?_⟩
  · rw [hroot, ha.root]
    exact h.root
  · rw [hroot, hid]
    exact hkept.houses
  · rw [hid]
    exact hkept.calm
  · rw [hreader]
    rintro handle ⟨⟩

theorem stands_of_lived (h : Lived Log.IsSteady descriptor b d ops) :
    ∃ place inner xs, Stands descriptor place inner xs b d ops := by
  induction h with
  | created opened directory accepted new fresh =>
    obtain ⟨place, inner, h⟩ := stands_of_created opened directory accepted new fresh
    exact ⟨place, inner, [], h⟩
  | appended _ id object start stop now done ih =>
    obtain ⟨place, inner, xs, h⟩ := ih
    obtain ⟨-, xs, h⟩ | ⟨fault, herr, -⟩ := stands_append h id object start stop now
    · exact ⟨place, inner, xs, h⟩
    · cases done.symm.trans herr
  | refused _ id object start stop now failed ih =>
    obtain ⟨place, inner, xs, h⟩ := ih
    obtain ⟨hok, -⟩ | ⟨fault, -, h⟩ := stands_append h id object start stop now
    · cases hok.symm.trans failed
    · exact ⟨place, inner, xs, h⟩
  | found _ id combiner ih =>
    obtain ⟨place, inner, xs, h⟩ := ih
    exact ⟨place, inner, xs, stands_find h id combiner⟩
  | restarted _ some tail allows restart mem path ih =>
    obtain ⟨place, inner, xs, h⟩ := ih
    obtain ⟨s, hrestart, -, hback⟩ := stands_restart h some (h.descriptor_eq ▸ tail) allows _ _
    cases hrestart.symm.trans restart
    exact ⟨place, inner, xs, hback _ mem path⟩

theorem isMultimap_of_lived (h : Lived Log.IsSteady descriptor b d ops) : IsMultimap descriptor b d ops := by
  obtain ⟨place, inner, xs, h⟩ := stands_of_lived h
  refine ⟨h.descriptor_eq, ?_, fun hs => find_of_stands h hs, ?_, ?_⟩
  · rw [h.live.index, map_id_layout, ← h.objects, List.map_map]
    rfl
  · intro id object start stop now fault hfault
    rw [← h.descriptor_eq]
    exact (append_of_isCalm h.live h.calm id object start stop now).2.2 fault hfault
  · intro hne torn ht options derive ha additional clock
    obtain ⟨s, hrestart, hback, -⟩ := stands_restart h hne ht ha additional clock
    exact ⟨s, hrestart, hback⟩

end

/-- The first object in a directory. -/
theorem exists_lived {ready : Path → Disk → Prop} {root place : Path} {inner : List String} {log : Log} {d₀ d : Disk}
    (opened : (Log.start { root, encoding := .none } d₀).result = .ok log) (directory : ready root d)
    (home : d.IsHome root place inner)
    (free : d.node? (place ++ [Descriptor.filename ⟨.zero, "t", .none, ""⟩]) = none) :
    ∃ b d', Lived ready ⟨.zero, "t", .none, ""⟩ b d' [([7], [8])] ∧ b.options = { root, encoding := .none } ∧
      d'.entries = (d.put (place ++ [Descriptor.filename ⟨.zero, "t", .none, ""⟩]) (.file d.files.length)).entries := by
  have hcreate : Descriptor.create .zero "t" .none "" = .ok ⟨.zero, "t", .none, ""⟩ := rfl
  have hplain : Disk.IsPlain (Descriptor.filename ⟨.zero, "t", .none, ""⟩) := ⟨by decide, by decide, by decide⟩
  have hfresh := Disk.find?_name home hplain (by decide)
  have hfound := Disk.find?_name_of_ne_link home hplain (by decide) fun target hl => by cases free.symm.trans hl
  rw [free] at hfresh hfound
  obtain ⟨-, rfl⟩ := Log.eq_of_start opened
  obtain ⟨b, hnew, hdescriptor, hoptions, hpath, hcalm⟩ :=
    @Log.newBlock_of_find? ⟨{ root, encoding := .none }⟩ _ _ _ _ _ _ hcreate hfound
  have hlive := live_of_created hnew (hpath ▸ hfound)
  have hlived := Lived.created opened directory hcreate hnew (hpath ▸ hfresh)
  have hbuild : build b.descriptor.encoding [7] [8] = .ok (⟨2831807814, .none, 6, 6⟩, [1, 0, 0, 0, 7, 8]) := by
    rw [hdescriptor]
    exact build_sample
  refine ⟨_, _, .appended hlived [7] [8] 0 0 0 (append_eq_ok hlive hcalm hbuild 0 0 0), ?_, ?_⟩
  · obtain ⟨writer, index, info, hblock⟩ := block_append b [7] [8] 0 0 0 (d.create (place ++ [_]) []).2
    rw [hblock, hoptions]
  · rw [disk_append, Disk.entries_setFile]
    rfl

theorem allows_sample {b : Block} {root : Path} (h : b.options = { root, encoding := .none }) :
    Log.Allows b { root, encoding := .none } fun _ _ d => (.ok (0, 0), d) :=
  ⟨by rw [h], Nat.succ_pos _, fun _ _ _ => rfl, fun _ _ _ => ⟨_, rfl⟩⟩

theorem isPlain_wal : Disk.IsPlain "wal" := ⟨by decide, by decide, by decide⟩

theorem isHome_wal : Disk.IsHome { entries := [(["wal"], .directory)] } ["wal"] ["wal"] [] :=
  ⟨Disk.find?_of_leads (by decide) (.enter isPlain_wal rfl (.here _ _)), by simp⟩

theorem start_wal : (Log.start { root := ["wal"], encoding := .none } { entries := [(["wal"], .directory)] }).result =
    .ok ⟨{ root := ["wal"], encoding := .none }⟩ := by
  rw [Log.start_of_isHome (List.cons_ne_nil _ _) isHome_wal]
  rfl

theorem isMultimap_of_torn_restart : ∃ b d, IsMultimap ⟨.zero, "t", .none, ""⟩ b d [([7], [8])] := by
  have hunblocked : Log.IsUnblocked ["wal"] { entries := [(["wal"], .directory)] } := by
    intro goal id hfind
    rw [Disk.find?_name isHome_wal Log.isPlain_completedName (by decide)] at hfind
    cases hfind
  have hsteady : Log.IsSteady ["wal"] { entries := [(["wal"], .directory)] } :=
    ⟨⟨_, _, isHome_wal, by simp⟩, hunblocked⟩
  obtain ⟨b, d, hlived, hoptions, -⟩ := exists_lived start_wal hsteady isHome_wal rfl
  have htorn : IsTorn .none [84] := ⟨_, _, _, _, build_sample, by decide, by decide⟩
  have h := isMultimap_of_lived hlived
  obtain ⟨s, hs, b', hmem, hpath⟩ := h.restart (by simp) [84] htorn _ _ (allows_sample hoptions) .zero (fun _ => 0)
  have htorn : IsTorn b.descriptor.encoding [84] := h.descriptor_eq ▸ htorn
  exact ⟨b', s.disk, isMultimap_of_lived (.restarted hlived (by simp) htorn (allows_sample hoptions) hs hmem hpath)⟩

/-- A log in whose directory no restart succeeds loses what was appended. -/
theorem not_isMultimap_of_restart {ready : Path → Disk → Prop} {root place : Path} {inner : List String} {log : Log}
    {d₀ d : Disk} (opened : (Log.start { root, encoding := .none } d₀).result = .ok log) (directory : ready root d)
    (home : d.IsHome root place inner)
    (free : d.node? (place ++ [Descriptor.filename ⟨.zero, "t", .none, ""⟩]) = none)
    (fails : ∀ derive d', d'.entries =
        (d.put (place ++ [Descriptor.filename ⟨.zero, "t", .none, ""⟩]) (.file d.files.length)).entries →
      Log.restart { root, encoding := .none } derive .zero (fun _ => 0) d' = .error .io) :
    ¬ ∀ descriptor b d ops, Lived ready descriptor b d ops → IsMultimap descriptor b d ops := by
  intro hall
  obtain ⟨b, d', hlived, hoptions, hentries⟩ := exists_lived opened directory home free
  have htorn : IsTorn .none [] := ⟨_, _, _, _, build_sample, List.nil_prefix, by simp⟩
  obtain ⟨s, hs, -⟩ := (hall _ _ _ _ hlived).restart (by simp) [] htorn _ _ (allows_sample hoptions) .zero (fun _ => 0)
  have htear : (b.tear [] d').entries = d'.entries := rfl
  cases (fails _ _ (htear.trans hentries)).symm.trans hs

/-- The path to the directory leads through `completed`, and is cut before the blocks are taken back. -/
theorem not_isMultimap_of_led_through {ready : Path → Disk → Prop}
    (hr : ready ["wal", "completed", ".."]
      { entries := [(["wal"], .directory), (["wal", "completed"], .directory)] }) :
    ¬ ∀ descriptor b d ops, Lived ready descriptor b d ops → IsMultimap descriptor b d ops := by
  have hhome : Disk.IsHome { entries := [(["wal"], .directory), (["wal", "completed"], .directory)] }
      ["wal", "completed", ".."] ["wal"] ["completed"] := by
    refine ⟨Disk.find?_of_leads (by decide) ?_, fun name hn => ?_⟩
    · exact .enter isPlain_wal rfl (.enter Log.isPlain_completedName rfl (.back (.here _ _)))
    · rw [List.mem_singleton.1 hn]
      rfl
  have hopened : (Log.start { root := ["wal", "completed", ".."], encoding := .none }
      { entries := [(["wal"], .directory), (["wal", "completed"], .directory)] }).result =
      .ok ⟨{ root := ["wal", "completed", ".."], encoding := .none }⟩ := by
    rw [Log.start_of_isHome (List.cons_ne_nil _ _) hhome]
    rfl
  refine not_isMultimap_of_restart hopened hr hhome rfl fun derive d' he => ?_
  have hhome' := Disk.isHome_of_entries (Disk.isHome_put hhome (by decide) _) he
  have hwal : (d'.eraseTree (["wal"] ++ [Log.completedName])).node? ([] ++ ["wal"]) = some .directory := by
    rw [Disk.node?, Disk.eraseTree, he]
    rfl
  have hgone : (d'.eraseTree (["wal"] ++ [Log.completedName])).node? ([] ++ ["wal"] ++ ["completed"]) = none := by
    rw [Disk.node?, Disk.eraseTree, he]
    rfl
  have hcompleted : Disk.IsPlain "completed" := Log.isPlain_completedName
  have hlost : (d'.eraseTree (["wal"] ++ [Log.completedName])).find? true ["wal", "completed", ".."] =
      .error .missing := by
    rw [Disk.find?, if_pos (by decide), Disk.locate_enter isPlain_wal hwal, Disk.locate_plain hcompleted, hgone]
    rfl
  rw [Log.restart, Log.start_of_isHome (List.cons_ne_nil _ _) hhome', hhome'.inner Log.completedName (by decide)]
  dsimp only
  rw [Log.rescan, Disk.list, hlost]

/-- A file is in place of the directory for completed blocks, and the log cannot be opened. -/
theorem not_isMultimap_of_blocked {ready : Path → Disk → Prop}
    (hr : ready ["wal"]
      { entries := [(["wal"], .directory), (["wal", "completed"], .file 0)], files := [{ content := [] }] }) :
    ¬ ∀ descriptor b d ops, Lived ready descriptor b d ops → IsMultimap descriptor b d ops := by
  have hhome : Disk.IsHome
      { entries := [(["wal"], .directory), (["wal", "completed"], .file 0)], files := [{ content := [] }] }
      ["wal"] ["wal"] [] :=
    ⟨Disk.find?_of_leads (by decide) (.enter isPlain_wal rfl (.here _ _)), by simp⟩
  refine not_isMultimap_of_restart start_wal hr hhome rfl fun derive d' he => ?_
  have hhome' := Disk.isHome_of_entries (Disk.isHome_put hhome (by decide) _) he
  have hcompleted : d'.node? (["wal"] ++ [Log.completedName]) = some (.file 0) := by
    rw [Disk.node?, he]
    rfl
  rw [Log.restart, Log.start_of_isHome (List.cons_ne_nil _ _) hhome', hcompleted]

/-- Not without a condition on the directory, nor with only half of it. -/
theorem not_forall_isMultimap :
    (¬ ∀ descriptor b d ops, Lived (fun _ _ => True) descriptor b d ops → IsMultimap descriptor b d ops) ∧
      (¬ ∀ descriptor b d ops, Lived Log.IsUnblocked descriptor b d ops → IsMultimap descriptor b d ops) ∧
      ¬ ∀ descriptor b d ops, Lived Log.IsAnchored descriptor b d ops → IsMultimap descriptor b d ops := by
  refine ⟨not_isMultimap_of_led_through trivial, not_isMultimap_of_led_through ?_, not_isMultimap_of_blocked ?_⟩
  · intro goal id hfind
    have hled := @Disk.find?_of_leads { entries := [(["wal"], .directory), (["wal", "completed"], .directory)] } false
      _ ["wal", "completed", "..", "completed"] (by decide) (.enter isPlain_wal rfl
        (.enter Log.isPlain_completedName rfl (.back (.enter Log.isPlain_completedName rfl (.here _ _)))))
    obtain ⟨-, hnode⟩ := Prod.mk.inj (Except.ok.inj (hfind.symm.trans hled))
    change some (Node.file id) = some Node.directory at hnode
    cases hnode
  · exact ⟨["wal"], [], ⟨Disk.find?_of_leads (by decide) (.enter isPlain_wal rfl (.here _ _)), by simp⟩, by simp⟩

end Block

end WriteAhead
