import WriteAhead.Proofs.Filename
import WriteAhead.Proofs.Home
import WriteAhead.Proofs.Recovery

/-!
What opening a log anew and taking its blocks back makes of one block among others. Main statements:
no visit to a file loses what is kept of the block (`kept_visit`), and after all visits it is there
(`exists_block_foldl`).
-/

namespace WriteAhead

open Page

namespace Log

/-- Opens a log and takes back its blocks. -/
def restart [Codecs] (options : Options) (derive : Deriver) (additional : Duration) (clock : Clock) (d : Disk) :
    Except Error Rescan :=
  match start options d with
  | ⟨.error e, _, _⟩ => .error e
  | ⟨.ok log, d, _⟩ => log.rescan derive additional clock d

/-- A deriver that leaves the disk alone and finds a time range for a block with these records. -/
structure Derives (derive : Deriver) (index : Index) (dataEncoding : String) : Prop where
  quiet : Quiet derive
  succeeds : ∀ first ∈ index.head?, ∀ d, ∃ range, (derive first.id dataEncoding d).1 = .ok range

theorem eq_of_start {options : Options} {d : Disk} {log : Log} (h : (start options d).result = .ok log) :
    options.root ≠ [] ∧ log = ⟨options⟩ := by
  unfold start at h
  split at h
  · cases h
  · next hroot =>
    refine ⟨hroot, ?_⟩
    split at h
    · cases h
    · split at h <;> cases h <;> rfl

theorem derive_of_derives {derive : Deriver} {index : Index} {dataEncoding : String}
    (hd : Derives derive index dataEncoding) {first : Record} {rest : Index} (hf : index = first :: rest) (d : Disk) :
    ∃ range, derive first.id dataEncoding d = (.ok range, d) := by
  obtain ⟨range, hrange⟩ := hd.succeeds first (by rw [hf]; rfl) d
  exact ⟨range, Prod.ext hrange (hd.quiet _ _ _)⟩

/-- The directory `place` of a log, found through no more of its own than the directories `inner`, has
the file `id` in it, and no file in place of completed blocks. -/
structure Houses (d : Disk) (root place : Path) (inner : List String) (name : String) (id : FileId) : Prop where
  home : d.IsHome root place inner
  passable : completedName ∉ inner
  node : d.node? (place ++ [name]) = some (.file id)
  completed : ∀ other, d.node? (place ++ [completedName]) ≠ some (.file other)

section

variable {d d' : Disk} {root place : Path} {inner : List String} {name other : String} {id : FileId}

theorem isPlain_completedName : Disk.IsPlain completedName := ⟨by decide, by decide, by decide⟩

theorem houses_of_filter (h : Houses d root place inner name id) {keep : Path → Bool}
    (he : d'.entries = d.entries.filter fun entry => keep entry.1)
    (ho : ∀ k, Disk.isOutside place inner k = true → keep k = true) (hk : keep (place ++ [name]) = true) :
    Houses d' root place inner name id := by
  refine ⟨Disk.isHome_of_filter h.home he ho, h.passable, ?_, fun other hn => ?_⟩
  · rw [Disk.node?_filter he (Disk.append_singleton_ne_nil place name), if_pos hk, h.node]
  · rw [Disk.node?_filter he (Disk.append_singleton_ne_nil place completedName)] at hn
    split at hn
    · exact h.completed other hn
    · cases hn

theorem houses_of_entries (h : Houses d root place inner name id) (he : d'.entries = d.entries) :
    Houses d' root place inner name id := by
  refine ⟨Disk.isHome_of_entries h.home he, h.passable, ?_, fun other => ?_⟩ <;> rw [Disk.node?_of_entries he]
  · exact h.node
  · exact h.completed other

theorem houses_erase (h : Houses d root place inner name id) (ho : other ≠ name)
    (hn : d.node? (place ++ [other]) ≠ some .directory) :
    Houses (d.erase (place ++ [other])) root place inner name id := by
  have hinner : other ∉ inner := fun hmem => hn (h.home.inner other hmem)
  refine @houses_of_filter _ _ _ _ _ _ _ h (fun k => decide (k ≠ place ++ [other])) rfl (fun k hk => ?_) ?_
  · rw [decide_eq_true_eq]
    rintro rfl
    cases (Disk.isOutside_concat_of_notMem hinner).symm.trans hk
  · rw [decide_eq_true_eq]
    intro he
    exact ho (List.append_singleton_inj.1 he).2.symm

theorem houses_put (hh : d.IsHome root place inner) (hp : completedName ∉ inner)
    (hc : ∀ other, d.node? (place ++ [completedName]) ≠ some (.file other)) (hfree : d.node? (place ++ [name]) = none)
    (hn : name ≠ completedName) (id : FileId) :
    Houses (d.put (place ++ [name]) (.file id)) root place inner name id := by
  have hinner : name ∉ inner := by
    intro hmem
    cases hfree.symm.trans (hh.inner name hmem)
  have hne : place ++ [completedName] ≠ place ++ [name] :=
    fun he => hn (List.append_singleton_inj.1 he).2.symm
  refine ⟨Disk.isHome_put hh hinner _, hp, ?_, fun other => ?_⟩
  · rw [Disk.node?_put d (Disk.append_singleton_ne_nil place name)]
  · rw [Disk.node?_put_of_ne d hne]
    exact hc other

theorem houses_eraseTree (h : Houses d root place inner name id) (hn : name ≠ completedName) :
    Houses (d.eraseTree (place ++ [completedName])) root place inner name id := by
  refine @houses_of_filter _ _ _ _ _ _ _ h (fun k => !(place ++ [completedName]).isPrefixOf k) rfl (fun k hk => ?_) ?_
  · rw [Bool.not_eq_true', Bool.eq_false_iff]
    intro hp
    obtain ⟨rest, rfl⟩ := List.isPrefixOf_iff_prefix.1 hp
    rw [List.append_assoc, List.singleton_append, Disk.isOutside_append] at hk
    exact h.passable (List.contains_iff_mem.1 hk)
  · rw [Bool.not_eq_true', Bool.eq_false_iff]
    intro hp
    have he := (List.isPrefixOf_iff_prefix.1 hp).eq_of_length (by simp)
    exact hn (List.append_singleton_inj.1 he).2.symm

/-- Opening a log in a directory that is there only sweeps it. -/
theorem start_of_isHome {options : Options} (hroot : options.root ≠ []) (h : d.IsHome options.root place inner) :
    start options d =
      match d.node? (place ++ [completedName]) with
      | none => ⟨.ok ⟨options⟩, d, []⟩
      | some (.file _) => ⟨.error .io, d, []⟩
      | some _ => ⟨.ok ⟨options⟩, d.eraseTree (place ++ [completedName]), [.removedCompleted]⟩ := by
  rw [start, if_neg hroot, Disk.makePath_of_isHome h]
  dsimp only
  rw [Disk.removeTree_of_isHome h isPlain_completedName (by decide)]
  cases d.node? (place ++ [completedName]) with
  | none => rfl
  | some node => cases node <;> rfl

theorem start_of_houses {options : Options} (hroot : options.root ≠ []) (h : Houses d options.root place inner name id)
    (hn : name ≠ completedName) : ∃ d' events, start options d = ⟨.ok ⟨options⟩, d', events⟩ ∧
      d'.files = d.files ∧ Houses d' options.root place inner name id := by
  rw [start_of_isHome hroot h.home]
  cases hnode : d.node? (place ++ [completedName]) with
  | none => exact ⟨d, [], rfl, rfl, h⟩
  | some node =>
    cases node with
    | file other => exact absurd hnode (h.completed other)
    | directory | link => exact ⟨_, _, rfl, rfl, houses_eraseTree h hn⟩

end

/-- A block whose file is looked for: it holds the pages `xs`. -/
structure Sought [Codecs] (log : Log) (descriptor : Descriptor) (xs : List Entry) : Prop where
  buffer : 0 < log.options.readBuffer
  parse : Descriptor.parse descriptor.filename = .ok descriptor
  plain : Disk.IsPlain descriptor.filename
  isText : Disk.isText [descriptor.filename] = true
  valid : ∀ x ∈ xs, x.IsValid descriptor.encoding
  nonempty : xs ≠ []

structure Retaken [Codecs] (log : Log) (descriptor : Descriptor) (id : FileId) (xs : List Entry) (b : Block)
    (d : Disk) : Prop where
  descriptor_eq : b.descriptor = descriptor
  options : b.options = log.options
  file : b.file = id
  reader : b.reader = none
  live : b.Live d xs

/-- What holds of the file `id` with the pages `xs` all through a rescan. -/
structure Kept [Codecs] (log : Log) (place : Path) (inner : List String) (descriptor : Descriptor) (id : FileId)
    (xs : List Entry) (s : Rescan) : Prop where
  houses : Houses s.disk log.options.root place inner descriptor.filename id
  opened : id < s.disk.files.length
  calm : s.disk.IsCalm id
  content : ∃ torn, NoPage descriptor.encoding torn ∧ s.disk.content id = joined xs ++ torn
  blocks : ∀ b ∈ s.blocks, b.path = log.options.root ++ [descriptor.filename] → Retaken log descriptor id xs b s.disk

variable [Codecs] {log : Log} {place : Path} {inner : List String} {descriptor : Descriptor} {id : FileId}
  {xs : List Entry} {s s' : Rescan}

theorem finds_of_kept (hw : Sought log descriptor xs) (h : Kept log place inner descriptor id xs s) :
    ∃ r, Finds log s.disk descriptor.filename descriptor id r ∧ r.records = layout 0 xs ∧
      r.validEnd = (joined xs).length := by
  obtain ⟨torn, ht, hc⟩ := h.content
  obtain ⟨warning, -, hreplay⟩ := replay_joined hw.buffer hw.valid ht
  refine ⟨⟨layout 0 xs, (joined xs).length, warning⟩, ⟨hw.parse, ?_, ?_, ?_⟩, rfl, rfl⟩
  · exact Disk.openRead_name h.houses.home hw.plain hw.isText h.houses.node
  · rw [Disk.source_of_isCalm h.calm, hc]
    exact hreplay
  · obtain ⟨x, xs, rfl⟩ := List.exists_cons_of_ne_nil hw.nonempty
    exact List.cons_ne_nil _ _

/-- A change that at most cuts the file to its pages. -/
theorem kept_of_content (h : Kept log place inner descriptor id xs s)
    (hh : Houses s'.disk log.options.root place inner descriptor.filename id)
    (hl : s'.disk.files.length = s.disk.files.length) (hcalm : s'.disk.IsCalm id)
    (hc : s'.disk.content id = s.disk.content id ∨ s'.disk.content id = joined xs)
    (hb : ∀ b ∈ s'.blocks, b.path = log.options.root ++ [descriptor.filename] →
      b ∈ s.blocks ∨ Retaken log descriptor id xs b s'.disk) : Kept log place inner descriptor id xs s' := by
  refine ⟨hh, Nat.lt_of_lt_of_eq h.opened hl.symm, hcalm, ?_, fun b hmem hpath => ?_⟩
  · obtain hc | hc := hc
    · rw [hc]
      exact h.content
    · exact ⟨[], noPage_nil, by rw [hc, List.append_nil]⟩
  · obtain hold | hnew := hb b hmem hpath
    · have hb := h.blocks b hold hpath
      have hsame : s'.disk.content b.file = s.disk.content b.file := by
        obtain hc | hc := hc
        · rw [hb.file, hc]
        · rw [hb.live.content, hb.file, hc]
      exact { hb with live := Block.live_of_content hb.live hsame (hl ▸ hb.live.opened) }
    · exact hnew

theorem kept_of_passes {name : String} (hn : name ≠ descriptor.filename) (h : Kept log place inner descriptor id xs s)
    (hv : Passes log s name s') : Kept log place inner descriptor id xs s' := by
  have hb : ∀ b ∈ s'.blocks, b.path = log.options.root ++ [descriptor.filename] →
      b ∈ s.blocks ∨ Retaken log descriptor id xs b s'.disk := by
    intro b hmem _
    exact .inl (hv.blocks ▸ hmem)
  obtain hd | hd := hv.disk
  · exact kept_of_content h (hd ▸ h.houses) (by rw [hd]) (hd ▸ h.calm) (.inl (by rw [hd])) hb
  · have hfiles : s'.disk.files = s.disk.files := Disk.files_of_removeFile hd
    have hfile := Disk.file_of_files hfiles id
    obtain ⟨hnode, herase⟩ := Disk.removeFile_of_isHome h.houses.home hd
    refine kept_of_content h ?_ (by rw [hfiles]) (Disk.isCalm_of_file h.calm hfile)
      (.inl (congrArg (·.content) hfile)) hb
    rw [herase]
    exact houses_erase h.houses hn hnode

/-- Taking back a block, maybe under another name of the file. -/
theorem kept_of_recovers (hw : Sought log descriptor xs) (h : Kept log place inner descriptor id xs s) {name : String}
    {other : Descriptor} {file : FileId} {r : Replay} (hv : Recovers log s name other file r s')
    (hb : ∀ b ∈ s'.blocks, b.path = log.options.root ++ [descriptor.filename] →
      b ∈ s.blocks ∨ Retaken log descriptor id xs b s'.disk) : Kept log place inner descriptor id xs s' := by
  obtain ⟨hentries, hlength, hframe⟩ := Block.trim_frame file r.validEnd s.disk
  rw [← hv.disk] at hentries hlength hframe
  by_cases hid : id = file
  · subst hid
    obtain ⟨torn, ht, hc⟩ := h.content
    obtain ⟨-, -, hend⟩ := eq_of_finds hw.buffer hv.finds hw.valid hw.nonempty ht hc (Disk.isReadable_of_isCalm h.calm)
    obtain ⟨hcut, hcalm⟩ := Block.trim_of_isCalm h.opened h.calm r.validEnd
    have hle : r.validEnd ≤ (s.disk.content id).length := by
      rw [hc, hend, List.length_append]
      exact Nat.le_add_right _ _
    have hcontent := (Block.file_trim h.opened hle).1
    rw [hcut, if_pos rfl, hc, hend, List.take_left, ← hend, ← hv.disk] at hcontent
    exact kept_of_content h (houses_of_entries h.houses hentries) hlength (hv.disk ▸ hcalm) (.inr hcontent) hb
  · have hfile := hframe id hid
    exact kept_of_content h (houses_of_entries h.houses hentries) hlength (Disk.isCalm_of_file h.calm hfile)
      (.inl (congrArg (·.content) hfile)) hb

variable {derive : Deriver} (additional : Duration) (clock : Clock)

theorem retaken_visit (hw : Sought log descriptor xs) (hd : Derives derive (layout 0 xs) descriptor.dataEncoding)
    (h : Kept log place inner descriptor id xs s) {node : Node} (hn : node ≠ .directory) :
    Kept log place inner descriptor id xs (log.visit derive additional clock s (descriptor.filename, node)) ∧
      ∃ b ∈ (log.visit derive additional clock s (descriptor.filename, node)).blocks,
        b.path = log.options.root ++ [descriptor.filename] := by
  obtain ⟨r, hf, hr, hend⟩ := finds_of_kept hw h
  obtain ⟨first, rest, hfirst⟩ : ∃ first rest, layout 0 xs = first :: rest :=
    List.exists_cons_of_ne_nil (hr ▸ hf.found)
  obtain ⟨range, hrange⟩ := derive_of_derives hd hfirst s.disk
  have hv := recovers_of_finds additional clock hn hf (hr.trans hfirst) hrange
  obtain ⟨hcut, -⟩ := Block.trim_of_isCalm h.opened h.calm r.validEnd
  obtain ⟨start, stop, hblocks⟩ : ∃ start stop,
      (log.visit derive additional clock s (descriptor.filename, node)).blocks =
      (Block.restored descriptor (log.options.root ++ [descriptor.filename]) r log.options id).setRange start stop ::
        s.blocks := by
    obtain ⟨hfails, -⟩ | ⟨-, hblocks⟩ := hv.blocks
    · cases hcut.symm.trans hfails
    · exact hblocks
  refine ⟨kept_of_recovers hw h hv fun b hmem _ => ?_, ?_⟩
  · rw [hblocks] at hmem
    obtain rfl | hmem := List.mem_cons.1 hmem
    · obtain ⟨torn, -, hc⟩ := h.content
      have hlive : ((Block.restored descriptor (log.options.root ++ [descriptor.filename]) r log.options id).setRange
          start stop).Live (Block.trim id r.validEnd s.disk).2 xs :=
        Block.live_restored h.opened hw.valid hr hend ⟨torn, hc.symm⟩ hcut start stop
      rw [← hv.disk] at hlive
      exact .inr ⟨rfl, rfl, rfl, rfl, hlive⟩
    · exact .inl hmem
  · rw [hblocks]
    exact ⟨_, List.mem_cons_self, rfl⟩

theorem kept_visit (hw : Sought log descriptor xs) (hd : Derives derive (layout 0 xs) descriptor.dataEncoding)
    (h : Kept log place inner descriptor id xs s) (entry : String × Node) :
    Kept log place inner descriptor id xs (log.visit derive additional clock s entry) := by
  obtain ⟨name, node⟩ := entry
  by_cases hname : name = descriptor.filename
  · subst hname
    by_cases hn : node = .directory
    · rw [visit]
      exact (if_pos hn).symm ▸ h
    · exact (retaken_visit additional clock hw hd h hn).1
  · obtain hv | ⟨other, file, r, hv⟩ := visit_cases additional clock hd.quiet s name node
    · exact kept_of_passes hname h hv
    · refine kept_of_recovers hw h hv fun b hmem hpath => .inl ?_
      obtain ⟨-, hblocks⟩ | ⟨-, start, stop, hblocks⟩ := hv.blocks
      · exact hblocks ▸ hmem
      · rw [hblocks] at hmem
        obtain rfl | hmem := List.mem_cons.1 hmem
        · exact absurd (List.append_singleton_inj.1 hpath).2 hname
        · exact hmem

theorem blocks_subset_visit (hq : Quiet derive) (s : Rescan) (entry : String × Node) :
    s.blocks ⊆ (log.visit derive additional clock s entry).blocks := by
  obtain ⟨name, node⟩ := entry
  obtain hv | ⟨other, file, r, hv⟩ := visit_cases additional clock hq s name node
  · rw [hv.blocks]
    exact List.Subset.refl _
  · obtain ⟨-, hblocks⟩ | ⟨-, start, stop, hblocks⟩ := hv.blocks
    · rw [hblocks]
      exact List.Subset.refl _
    · rw [hblocks]
      exact List.subset_cons_self _ _

theorem blocks_subset_foldl (hq : Quiet derive) (s : Rescan) (entries : List (String × Node)) :
    s.blocks ⊆ (entries.foldl (log.visit derive additional clock) s).blocks := by
  induction entries generalizing s with
  | nil => exact List.Subset.refl _
  | cons entry entries ih => exact List.Subset.trans (blocks_subset_visit additional clock hq s entry) (ih _)

theorem kept_foldl (hw : Sought log descriptor xs) (hd : Derives derive (layout 0 xs) descriptor.dataEncoding)
    (h : Kept log place inner descriptor id xs s) (entries : List (String × Node)) :
    Kept log place inner descriptor id xs (entries.foldl (log.visit derive additional clock) s) := by
  induction entries generalizing s with
  | nil => exact h
  | cons entry entries ih => exact ih (kept_visit additional clock hw hd h entry)

/-- Whatever was visited before, the visit to the file gives its block, and no later visit takes it away. -/
theorem exists_block_foldl (hw : Sought log descriptor xs) (hd : Derives derive (layout 0 xs) descriptor.dataEncoding)
    (h : Kept log place inner descriptor id xs s) {entries : List (String × Node)}
    (hmem : (descriptor.filename, Node.file id) ∈ entries) :
    ∃ b ∈ (entries.foldl (log.visit derive additional clock) s).blocks,
      b.path = log.options.root ++ [descriptor.filename] := by
  obtain ⟨before, after, rfl⟩ := List.append_of_mem hmem
  rw [List.foldl_append, List.foldl_cons]
  have hbefore := kept_foldl additional clock hw hd h before
  have hnode : Node.file id ≠ .directory := fun hn => by cases hn
  obtain ⟨b, hb, hpath⟩ := (retaken_visit additional clock hw hd hbefore hnode).2
  exact ⟨b, blocks_subset_foldl additional clock hd.quiet _ after hb, hpath⟩

/-- After a restart the block is there, and it is what it was. -/
theorem retaken_restart {options : Options} {d : Disk} (hroot : options.root ≠ []) (hw : Sought ⟨options⟩ descriptor xs)
    (hn : descriptor.filename ≠ completedName) (hd : Derives derive (layout 0 xs) descriptor.dataEncoding)
    (hh : Houses d options.root place inner descriptor.filename id) (hopened : id < d.files.length)
    (hcalm : d.IsCalm id) {torn : Bytes} (ht : NoPage descriptor.encoding torn)
    (hc : d.content id = joined xs ++ torn) :
    ∃ s, restart options derive additional clock d = .ok s ∧ Kept ⟨options⟩ place inner descriptor id xs s ∧
      ∃ b ∈ s.blocks, b.path = options.root ++ [descriptor.filename] := by
  obtain ⟨d', events, hstart, hfiles, hh⟩ := start_of_houses hroot hh hn
  have hfile := Disk.file_of_files hfiles id
  obtain ⟨entries, hlist, hentries⟩ := Disk.list_of_isHome hh.home
  have hkept : Kept ⟨options⟩ place inner descriptor id xs { disk := d' } := by
    refine ⟨hh, hfiles ▸ hopened, Disk.isCalm_of_file hcalm hfile, ⟨torn, ht, ?_⟩, fun b hmem => ?_⟩
    · exact (congrArg (·.content) hfile).trans hc
    · cases hmem
  refine ⟨entries.foldl (visit ⟨options⟩ derive additional clock) { disk := d' }, ?_,
    kept_foldl additional clock hw hd hkept entries,
    exists_block_foldl additional clock hw hd hkept (hentries _ _ hh.node)⟩
  rw [restart, hstart]
  dsimp only
  rw [rescan, hlist]

end Log

end WriteAhead
