import WriteAhead.Log
import WriteAhead.Proofs.LiveBlock
import WriteAhead.Proofs.Paths

/-!
Taking blocks back after a restart. Main statements: a visit to a file gives its block or changes
nothing but names (`visit_cases`), what is found under any name of a file is what its bytes say
(`eq_of_finds`), and a block, new or taken back, is at any time what it would be taken back as
(`agrees_of_reached`).
-/

namespace WriteAhead

open Page

namespace Log

/-- The deriver leaves the disk alone. -/
def Quiet (derive : Deriver) : Prop := ∀ id dataEncoding d, (derive id dataEncoding d).2 = d

/-- Under `name` there is a file with readable records. -/
structure Finds [Codecs] (log : Log) (d : Disk) (name : String) (descriptor : Descriptor) (id : FileId)
    (r : Replay) : Prop where
  parse : Descriptor.parse name = .ok descriptor
  opens : d.openRead (log.options.root ++ [name]) = .ok (.file id)
  replay : replay descriptor.encoding log.options.readBuffer (d.source (.file id)) = .ok r
  found : r.records ≠ []

/-- What a visit to a file with readable records does: the file is cut, and if that succeeds, there
is a block for it. -/
structure Recovers [Codecs] (log : Log) (s : Rescan) (name : String) (descriptor : Descriptor) (id : FileId)
    (r : Replay) (s' : Rescan) : Prop where
  finds : Finds log s.disk name descriptor id r
  disk : s'.disk = (Block.trim id r.validEnd s.disk).2
  blocks : ((Block.trim id r.validEnd s.disk).1 = false ∧ s'.blocks = s.blocks) ∨
    ((Block.trim id r.validEnd s.disk).1 = true ∧ ∃ start stop, s'.blocks =
      (Block.restored descriptor (log.options.root ++ [name]) r log.options id).setRange start stop :: s.blocks)

/-- A visit without a block to take back. At most the name is gone. -/
structure Passes (log : Log) (s : Rescan) (name : String) (s' : Rescan) : Prop where
  blocks : s'.blocks = s.blocks
  disk : s'.disk = s.disk ∨ s.disk.removeFile (log.options.root ++ [name]) = .ok s'.disk

/-- An attempt that gave no block and changed nothing. -/
structure Fruitless (s : Rescan) (result : Except Error (Option Block) × Rescan) : Prop where
  none : ∀ b, result.1 ≠ .ok (some b)
  disk : result.2.disk = s.disk
  blocks : result.2.blocks = s.blocks

section

variable {s : Rescan}

theorem create_of_newBlock {log : Log} {id : Uuid} {tenant dataEncoding : String} {d d' : Disk} {b : Block}
    (h : log.newBlock id tenant dataEncoding d = .ok (b, d')) :
    ∃ descriptor, Descriptor.create id tenant log.options.encoding dataEncoding = .ok descriptor ∧
      Block.create descriptor log.options d = .ok (b, d') := by
  unfold newBlock at h
  cases hc : Descriptor.create id tenant log.options.encoding dataEncoding with
  | error e =>
    rw [hc] at h
    cases h
  | ok descriptor =>
    rw [hc] at h
    exact ⟨descriptor, rfl, h⟩

theorem newBlock_of_find? {log : Log} {id : Uuid} {tenant dataEncoding : String} {d : Disk} {descriptor : Descriptor}
    {goal : Path} (hc : Descriptor.create id tenant log.options.encoding dataEncoding = .ok descriptor)
    (hf : d.find? true (log.options.root ++ [descriptor.filename]) = .ok (goal, none)) :
    ∃ b, log.newBlock id tenant dataEncoding d = .ok (b, (d.create goal []).2) ∧ b.descriptor = descriptor ∧
      b.options = log.options ∧ b.path = log.options.root ++ [descriptor.filename] ∧
      (d.create goal []).2.IsCalm b.file := by
  unfold newBlock
  rw [hc]
  change ∃ b, Block.create descriptor log.options d = _ ∧ _
  rw [Block.create, Disk.openAppend, hf]
  exact ⟨_, rfl, rfl, rfl, rfl, Disk.isCalm_create d goal []⟩

theorem remove_cases (s : Rescan) (path : Path) : (s.remove path).blocks = s.blocks ∧
    ((s.remove path).disk = s.disk ∨ s.disk.removeFile path = .ok (s.remove path).disk) := by
  unfold Rescan.remove
  split
  · next h => exact ⟨rfl, .inr h⟩
  · exact ⟨rfl, .inl rfl⟩

/-- Noting an event, or not, leaves the rest alone. -/
theorem exists_note (s : Rescan) (noted : Prop) [Decidable noted] (event : Event) :
    ∃ events, (if noted then s.note event else s) = { s with events } := by
  split <;> exact ⟨_, rfl⟩

/-- If there is a time range, the file is cut, and if that succeeds, there is a block. -/
theorem exists_recover_of_ok (log : Log) (name : String) {descriptor : Descriptor} {path : Path} (r : Replay)
    {first : Record} {derive : Deriver} (additional : Duration) (clock : Clock) {range : UInt32 × UInt32} {id : FileId}
    (hd : derive first.id descriptor.dataEncoding s.disk = (.ok range, s.disk))
    (ho : s.disk.openAppend path = .ok (id, s.disk)) :
    ∃ events, log.recover name descriptor path r first derive additional clock s =
      (if (Block.trim id r.validEnd s.disk).1 then
          .ok ((Block.restored descriptor path r log.options id).setRange
            (adjustRange (clock name) log.options.slack additional range.1 range.2).1
            (adjustRange (clock name) log.options.slack additional range.1 range.2).2)
        else .error .io,
        { s with
          disk := (Block.trim id r.validEnd s.disk).2
          hints := (first.id, descriptor.dataEncoding) :: s.hints
          events }) := by
  obtain ⟨events, hnoted⟩ := exists_note s (r.warning.isSome = true) (.damagedTail name r.records.length)
  unfold recover
  rw [hnoted]
  dsimp only
  rw [hd]
  dsimp only
  rw [Block.ofReplay, ho]
  dsimp only
  generalize Block.trim id r.validEnd s.disk = trimmed
  obtain ⟨succeeds, disk⟩ := trimmed
  cases succeeds <;> exact ⟨_, rfl⟩

theorem exists_recover_of_error (log : Log) (name : String) {descriptor : Descriptor} (path : Path) (r : Replay)
    {first : Record} {derive : Deriver} (additional : Duration) (clock : Clock) {reason : String}
    (hd : derive first.id descriptor.dataEncoding s.disk = (.error reason, s.disk)) :
    ∃ events, log.recover name descriptor path r first derive additional clock s =
      (.error (.corruption (.noTimeRange reason)),
        { s with hints := (first.id, descriptor.dataEncoding) :: s.hints, events }) := by
  obtain ⟨events, hnoted⟩ := exists_note s (r.warning.isSome = true) (.damagedTail name r.records.length)
  refine ⟨events, ?_⟩
  unfold recover
  rw [hnoted]
  dsimp only
  rw [hd]

theorem passes_of_fruitless (log : Log) (name : String) {result : Except Error (Option Block) × Rescan}
    (h : Fruitless s result) : Passes log s name (settle name (log.options.root ++ [name]) result) := by
  obtain ⟨result, s₀⟩ := result
  obtain ⟨hnone, hdisk, hblocks⟩ := h
  have hremove : ∀ event, Passes log s name ((s₀.note event).remove (log.options.root ++ [name])) := by
    intro event
    obtain ⟨hb, hd⟩ := remove_cases (s₀.note event) (log.options.root ++ [name])
    rw [show (s₀.note event).disk = s.disk from hdisk] at hd
    exact ⟨hb.trans hblocks, hd⟩
  cases result with
  | ok found =>
    cases found with
    | some b => exact absurd rfl (hnone b)
    | none => exact hremove _
  | error e =>
    cases e with
    | io => exact ⟨hblocks, .inl hdisk⟩
    | _ => exact hremove _

end

variable [Codecs] {log : Log} {derive : Deriver} (additional : Duration) (clock : Clock) {s : Rescan}
  {name : String} {node : Node}

theorem replayFile_eq_recover {descriptor : Descriptor} {id : FileId} {r : Replay}
    (hf : Finds log s.disk name descriptor id r) {first : Record} {rest : Index} (hr : r.records = first :: rest) :
    log.replayFile name (log.options.root ++ [name]) derive additional clock s =
      ((log.recover name descriptor (log.options.root ++ [name]) r first derive additional clock s).1.map some,
        (log.recover name descriptor (log.options.root ++ [name]) r first derive additional clock s).2) := by
  unfold replayFile
  rw [hf.parse]
  dsimp only
  rw [hf.opens]
  dsimp only
  rw [hf.replay]
  dsimp only
  rw [hr]

theorem visit_of_ne (hn : node ≠ .directory) : log.visit derive additional clock s (name, node) =
    settle name (log.options.root ++ [name])
      (log.replayFile name (log.options.root ++ [name]) derive additional clock (s.note (.beginningReplay name))) :=
  if_neg hn

theorem recovers_of_finds (hn : node ≠ .directory) {descriptor : Descriptor} {id : FileId} {r : Replay}
    (hf : Finds log s.disk name descriptor id r) {first : Record} {rest : Index} (hr : r.records = first :: rest)
    {range : UInt32 × UInt32} (hd : derive first.id descriptor.dataEncoding s.disk = (.ok range, s.disk)) :
    Recovers log s name descriptor id r (log.visit derive additional clock s (name, node)) := by
  have hnoted : Finds log (s.note (.beginningReplay name)).disk name descriptor id r := hf
  obtain ⟨events, hrec⟩ := exists_recover_of_ok (s := s.note (.beginningReplay name)) log name r additional clock hd
    (Disk.openAppend_of_openRead hf.opens)
  have hdisk : (s.note (.beginningReplay name)).disk = s.disk := rfl
  rw [visit_of_ne additional clock hn, replayFile_eq_recover additional clock hnoted hr, hrec, hdisk]
  cases hcut : (Block.trim id r.validEnd s.disk).1 with
  | false => exact ⟨hf, rfl, .inl ⟨hcut, rfl⟩⟩
  | true => exact ⟨hf, rfl, .inr ⟨hcut, _, _, rfl⟩⟩

theorem replay_directory (e : Encoding) (buffer : Nat) (d : Disk) :
    replay e buffer (d.source .directory) = .error .io := by
  simp [replay, replayFrom, Disk.source]

theorem fruitless_or_finds (hq : Quiet derive) (s : Rescan) (name : String) :
    Fruitless s (log.replayFile name (log.options.root ++ [name]) derive additional clock s) ∨
      ∃ descriptor id r first rest range, Finds log s.disk name descriptor id r ∧ r.records = first :: rest ∧
        derive first.id descriptor.dataEncoding s.disk = (.ok range, s.disk) := by
  unfold replayFile
  split
  · exact .inl ⟨by simp, rfl, rfl⟩
  · next descriptor hp =>
    split
    · exact .inl ⟨by simp, rfl, rfl⟩
    · next handle ho =>
      split
      · exact .inl ⟨by simp, rfl, rfl⟩
      · next r hr =>
        split
        · exact .inl ⟨by simp, rfl, rfl⟩
        · next first rest hrec =>
          cases handle with
          | directory => cases (replay_directory _ _ s.disk).symm.trans hr
          | file id =>
            obtain ⟨range, hd⟩ : ∃ range, derive first.id descriptor.dataEncoding s.disk = (range, s.disk) :=
              ⟨_, Prod.ext rfl (hq _ _ _)⟩
            cases range with
            | error reason =>
              obtain ⟨events, hrec⟩ :=
                exists_recover_of_error log name (log.options.root ++ [name]) r additional clock hd
              rw [hrec]
              exact .inl ⟨by simp [Except.map], rfl, rfl⟩
            | ok range =>
              have hne : r.records ≠ [] := by simp [hrec]
              exact .inr ⟨descriptor, id, r, first, rest, range, ⟨hp, ho, hr, hne⟩, hrec, hd⟩

theorem visit_cases (hq : Quiet derive) (s : Rescan) (name : String) (node : Node) :
    Passes log s name (log.visit derive additional clock s (name, node)) ∨ ∃ descriptor id r,
      Recovers log s name descriptor id r (log.visit derive additional clock s (name, node)) := by
  by_cases hn : node = .directory
  · refine .inl ⟨?_, .inl ?_⟩ <;> simp [visit, hn]
  · obtain h | h := fruitless_or_finds additional clock hq (s.note (.beginningReplay name)) name
    · left
      rw [visit_of_ne additional clock hn]
      exact passes_of_fruitless log name ⟨h.none, h.disk, h.blocks⟩
    · obtain ⟨descriptor, id, r, first, rest, range, hf, hr, hd⟩ := h
      exact .inr ⟨descriptor, id, r, recovers_of_finds additional clock hn hf hr hd⟩

/-- A file with readable records begins with these, whole pages. -/
theorem exists_entries_of_finds {d : Disk} {descriptor : Descriptor} {id : FileId} {r : Replay}
    (hf : Finds log d name descriptor id r) : ∃ xs tail, xs ≠ [] ∧ Found descriptor.encoding log.options.readBuffer
      (d.source (.file id)) (d.source (.file id)).bytes 0 [] r xs tail := by
  obtain ⟨xs, tail, hfound⟩ := found_of_replayFrom hf.replay
  refine ⟨xs, tail, ?_, hfound⟩
  rintro rfl
  exact hf.found hfound.records_eq

/-- If what the file holds is known, so is what is found there, whatever its name. -/
theorem eq_of_finds (hb : 0 < log.options.readBuffer) {d : Disk} {descriptor : Descriptor} {id : FileId} {r : Replay}
    (hf : Finds log d name descriptor id r) {e : Encoding} {xs : List Entry} {torn : Bytes}
    (hx : ∀ x ∈ xs, x.IsValid e) (hne : xs ≠ []) (ht : NoPage e torn) (hc : d.content id = joined xs ++ torn)
    (hr : d.IsReadable id) :
    descriptor.encoding = e ∧ r.records = layout 0 xs ∧ r.validEnd = (joined xs).length := by
  obtain ⟨ys, tail, hys, hfound⟩ := exists_entries_of_finds hf
  obtain ⟨hbytes, hlength⟩ := Disk.source_of_isReadable hr
  have hsplit : joined xs ++ torn = joined ys ++ tail := by rw [← hc, ← hbytes, hfound.split]
  have he : descriptor.encoding = e := by
    obtain ⟨x, xs, rfl⟩ := List.exists_cons_of_ne_nil hne
    obtain ⟨y, ys, rfl⟩ := List.exists_cons_of_ne_nil hys
    rw [joined_cons, joined_cons, List.append_assoc, List.append_assoc] at hsplit
    exact (encoding_eq_of_isPage_append (hx x List.mem_cons_self) (hfound.valid y List.mem_cons_self) hsplit).symm
  have hend : NoPage e tail := he ▸ hfound.ended hb (Nat.le_of_eq (by rw [hbytes, hlength, Nat.zero_add]))
  obtain ⟨rfl, rfl⟩ := entries_unique hx (he ▸ hfound.valid) ht hend hsplit
  exact ⟨he, hfound.records_eq, hfound.valid_end.trans (Nat.zero_add _)⟩

/-- A block that agrees with its file, which can be read. -/
def IsIntact (b : Block) (d : Disk) : Prop := ∃ xs, xs ≠ [] ∧ b.Live d xs ∧ d.IsReadable b.file

theorem isIntact_of_file {b : Block} {d d' : Disk} (h : IsIntact b d) (hl : d'.files.length = d.files.length)
    (hf : d'.file b.file = d.file b.file) : IsIntact b d' := by
  obtain ⟨xs, hne, hlive, hr⟩ := h
  refine ⟨xs, hne, Block.live_of_content hlive (congrArg (·.content) hf) (hl ▸ hlive.opened), ?_⟩
  rw [Disk.IsReadable, Disk.content, hf]
  exact hr

def Intact (s : Rescan) : Prop := ∀ b ∈ s.blocks, IsIntact b s.disk

/-- Another name for the file of a block that was taken back changes nothing in it. -/
theorem file_of_recovers (hb : 0 < log.options.readBuffer) {s s' : Rescan} (h : Intact s) {descriptor : Descriptor}
    {id : FileId} {r : Replay} (hv : Recovers log s name descriptor id r s') {b : Block} (hmem : b ∈ s.blocks) :
    s'.disk.file b.file = s.disk.file b.file := by
  by_cases hid : b.file = id
  · obtain ⟨xs, hne, hlive, hr⟩ := h b hmem
    have hcontent : s.disk.content id = joined xs ++ [] := by rw [← hid, hlive.content, List.append_nil]
    obtain ⟨-, -, hend⟩ := eq_of_finds hb hv.finds hlive.valid hne noPage_nil hcontent (hid ▸ hr)
    have hlength : (s.disk.content id).length = r.validEnd := by rw [hcontent, List.append_nil, hend]
    rw [hv.disk, Block.trim_of_length hlength]
  · rw [hv.disk]
    exact (Block.trim_frame id r.validEnd s.disk).2.2 b.file hid

/-- The entries of a block that is taken back. -/
theorem live_of_recovers {s s' : Rescan} {descriptor : Descriptor} {id : FileId} {r : Replay}
    (hv : Recovers log s name descriptor id r s') (ht : (Block.trim id r.validEnd s.disk).1 = true)
    (start stop : UInt32) : ∃ xs, xs ≠ [] ∧ s'.disk.IsReadable id ∧ ((Block.restored descriptor
      (log.options.root ++ [name]) r log.options id).setRange start stop).Live s'.disk xs := by
  obtain ⟨xs, tail, hne, hfound⟩ := exists_entries_of_finds hv.finds
  have hend : r.validEnd = (joined xs).length := hfound.valid_end.trans (Nat.zero_add _)
  have hbytes : joined xs <+: (s.disk.source (.file id)).bytes := ⟨tail, hfound.split.symm⟩
  have hpre := hbytes.trans (Disk.bytes_source_prefix s.disk id)
  have hid : id < s.disk.files.length := Disk.lt_of_content_ne_nil fun hnil => by
    rw [hnil] at hpre
    exact joined_ne_nil hfound.valid hne (List.prefix_nil.1 hpre)
  have hlive : ((Block.restored descriptor (log.options.root ++ [name]) r log.options id).setRange start stop).Live
      (Block.trim id r.validEnd s.disk).2 xs :=
    Block.live_restored hid hfound.valid hfound.records_eq hend hpre ht start stop
  rw [hv.disk]
  refine ⟨xs, hne, ?_, hlive⟩
  intro n hn
  rw [(Block.file_trim hid (hend ▸ hpre.length_le)).2] at hn
  have hcontent : (Block.trim id r.validEnd s.disk).2.content id = joined xs := hlive.content
  rw [hcontent]
  exact Nat.le_trans hbytes.length_le (Disk.length_bytes_source_le hn)

theorem intact_visit (hb : 0 < log.options.readBuffer) (hq : Quiet derive) {s : Rescan} (h : Intact s)
    (entry : String × Node) : Intact (log.visit derive additional clock s entry) := by
  obtain ⟨name, node⟩ := entry
  obtain hv | ⟨descriptor, id, r, hv⟩ := visit_cases additional clock hq s name node
  · have hfiles : (log.visit derive additional clock s (name, node)).disk.files = s.disk.files := by
      obtain hd | hd := hv.disk
      · rw [hd]
      · exact Disk.files_of_removeFile hd
    intro b hmem
    rw [hv.blocks] at hmem
    exact isIntact_of_file (h b hmem) (congrArg List.length hfiles) (Disk.file_of_files hfiles b.file)
  · have hlength := (Block.trim_frame id r.validEnd s.disk).2.1
    rw [← hv.disk] at hlength
    have hold : ∀ b ∈ s.blocks, IsIntact b (log.visit derive additional clock s (name, node)).disk :=
      fun b hmem => isIntact_of_file (h b hmem) hlength (file_of_recovers hb h hv hmem)
    intro b hmem
    obtain ⟨-, hblocks⟩ | ⟨ht, start, stop, hblocks⟩ := hv.blocks
    · exact hold b (hblocks ▸ hmem)
    · rw [hblocks] at hmem
      obtain rfl | hmem := List.mem_cons.1 hmem
      · obtain ⟨xs, hne, hr, hlive⟩ := live_of_recovers hv ht start stop
        exact ⟨xs, hne, hlive, hr⟩
      · exact hold b hmem

theorem intact_foldl (hb : 0 < log.options.readBuffer) (hq : Quiet derive) {s : Rescan} (h : Intact s)
    (entries : List (String × Node)) : Intact (entries.foldl (log.visit derive additional clock) s) := by
  induction entries generalizing s with
  | nil => exact h
  | cons entry entries ih => exact ih (intact_visit additional clock hb hq h entry)

theorem intact_rescan (hb : 0 < log.options.readBuffer) (hq : Quiet derive) {d : Disk} {s : Rescan}
    (h : log.rescan derive additional clock d = .ok s) : Intact s := by
  unfold rescan at h
  split at h
  · cases h
  · cases h
    exact intact_foldl additional clock hb hq (fun b hmem => by cases hmem) _

end Log

namespace Block

/-- A block and a disk as they can come about if nothing else writes to the file of the block. -/
inductive Reached [Codecs] : Block → Disk → Prop
  | created {log : Log} {id : Uuid} {tenant dataEncoding : String} {d d' : Disk} {b : Block} {place : Path}
      (new : log.newBlock id tenant dataEncoding d = .ok (b, d')) (fresh : d.find? true b.path = .ok (place, none)) :
      Reached b d'
  | recovered {log : Log} {derive : Deriver} {additional : Duration} {clock : Clock} {d : Disk} {s : Log.Rescan}
      {b : Block} (buffer : 0 < log.options.readBuffer) (quiet : Log.Quiet derive)
      (rescan : log.rescan derive additional clock d = .ok s) (mem : b ∈ s.blocks)
      (short : (s.disk.content b.file).length < UInt32.size) : Reached b s.disk
  /-- Other files change, and so does how calls for the file of the block will turn out. -/
  | elsewhere {b : Block} {d d' : Disk} (before : Reached b d) (content : d'.content b.file = d.content b.file)
      (opened : b.file < d'.files.length) : Reached b d'
  | appended {b : Block} {d : Disk} (before : Reached b d) (id object : Bytes) (start stop now : UInt32)
      (usable : (b.append id object start stop now d).block.writer.poisoned = false) :
      Reached (b.append id object start stop now d).block (b.append id object start stop now d).disk

/-- A block and what it would be taken back as. -/
structure Agrees [Codecs] (b : Block) (d : Disk) (buffer : Nat) : Prop where
  replay : replay b.descriptor.encoding buffer (.ofBytes (d.content b.file)) = .ok ⟨b.index, b.writer.size, none⟩
  tiles : b.index.Tiles 0 (d.content b.file).length
  size : b.writer.size = (d.content b.file).length
  info_size : b.info.size = (d.content b.file).length
  total : b.index.total = (d.content b.file).length
  objects : b.info.objects = b.index.length
  append_error : ∀ id object start stop now fault, (b.append id object start stop now d).result = .error fault →
    (b.append id object start stop now d).block.writer.poisoned = false →
    (b.append id object start stop now d).block = b ∧
      (b.append id object start stop now d).disk.content b.file = d.content b.file

section

variable [Codecs] {b : Block} {d : Disk}

theorem live_of_created {log : Log} {id : Uuid} {tenant dataEncoding : String} {d' : Disk} {place : Path}
    (h : log.newBlock id tenant dataEncoding d = .ok (b, d')) (hf : d.find? true b.path = .ok (place, none)) :
    Live b d' [] := by
  obtain ⟨descriptor, -, hcreate⟩ := Log.create_of_newBlock h
  dsimp only [create] at hcreate
  split at hcreate
  · cases hcreate
  · next file disk hopen =>
    cases hcreate
    dsimp only at hf
    unfold Disk.openAppend at hopen
    rw [hf] at hopen
    cases hopen
    have hcontent : (d.create place []).2.content d.files.length = [] :=
      congrArg (·.content) (Disk.file_create place [])
    have hopened : d.files.length < (d.create place []).2.files.length :=
      Nat.lt_of_lt_of_eq (Nat.lt_succ_self _) (Disk.length_files_create place []).symm
    exact ⟨rfl, rfl, hopened, by simp, hcontent, rfl, congrArg List.length hcontent, rfl, rfl⟩

theorem live_of_reached (h : Reached b d) : ∃ xs, Live b d xs ∧ ∀ x ∈ xs, x.page.length < UInt32.size := by
  induction h with
  | created new fresh => exact ⟨[], live_of_created new fresh, by simp⟩
  | recovered buffer quiet rescan mem short =>
    obtain ⟨xs, -, hlive, -⟩ := Log.intact_rescan _ _ buffer quiet rescan _ mem
    rw [hlive.content] at short
    exact ⟨xs, hlive, fun x hx => Nat.lt_of_le_of_lt (length_page_le hx) short⟩
  | elsewhere _ content opened ih =>
    obtain ⟨xs, hlive, hlen⟩ := ih
    exact ⟨xs, live_of_content hlive content opened, hlen⟩
  | appended _ id object start stop now usable ih =>
    obtain ⟨xs, hlive, hlen⟩ := ih
    obtain ⟨page, hpage, -, hadded⟩ | ⟨fault, -, hsame, hcontent⟩ := live_append hlive id object start stop now usable
    · exact ⟨_, hadded, List.forall_mem_append.2 ⟨hlen, List.forall_mem_singleton.2 hpage⟩⟩
    · rw [hsame]
      refine ⟨xs, live_of_content hlive hcontent ?_, hlen⟩
      rw [disk_append, Disk.length_files_setFile]
      exact hlive.opened

/-- At any time, a block is what it would be taken back as. -/
theorem agrees_of_reached (h : Reached b d) {buffer : Nat} (hb : 0 < buffer) : Agrees b d buffer := by
  obtain ⟨xs, hlive, hlen⟩ := live_of_reached h
  obtain ⟨warning, hw, hreplay⟩ := replay_joined hb hlive.valid noPage_nil
  have htiles := tiles_layout 0 hlen
  rw [Nat.zero_add, ← hlive.index] at htiles
  rw [hw.2 rfl, List.append_nil, ← hlive.index, ← hlive.size, ← hlive.content] at hreplay
  have hlength := congrArg List.length hlive.content
  refine ⟨hreplay, ?_, ?_, ?_, ?_, ?_, ?_⟩
  · rw [hlength]
    exact htiles
  · rw [hlength, hlive.size]
  · rw [hlength, hlive.info_size]
  · rw [hlength, ← Nat.zero_add b.index.total]
    exact Index.total_of_tiles htiles
  · rw [hlive.objects, hlive.index, length_layout]
  · intro id object start stop now fault he hp
    obtain ⟨page, -, hok, -⟩ | ⟨fault, -, hsame, hcontent⟩ := live_append hlive id object start stop now hp
    · cases hok.symm.trans he
    · exact ⟨hsame, hcontent⟩

end

theorem agrees_of_sample : ∃ b d,
    Log.newBlock ⟨{ root := ["wal"], encoding := .none }⟩ .zero "t" "" { entries := [(["wal"], .directory)] } =
      .ok (b, d) ∧
    Agrees (b.append [7] [8] 0 0 0 d).block (b.append [7] [8] 0 0 0 d).disk 1 := by
  have hcreate : Descriptor.create .zero "t" .none "" = .ok ⟨.zero, "t", .none, ""⟩ := rfl
  have hfree : Disk.find? { entries := [(["wal"], .directory)] } true
      (["wal"] ++ [Descriptor.filename ⟨.zero, "t", .none, ""⟩]) =
      .ok (["wal"] ++ [Descriptor.filename ⟨.zero, "t", .none, ""⟩], none) := by
    have hwal : Disk.IsPlain "wal" := ⟨by decide, by decide, by decide⟩
    have hname : Disk.IsPlain (Descriptor.filename ⟨.zero, "t", .none, ""⟩) := ⟨by decide, by decide, by decide⟩
    exact Disk.find?_of_leads (by decide) (.enter hwal rfl (.free hname rfl))
  obtain ⟨b, hnew, -, -, hpath, hcalm⟩ :=
    @Log.newBlock_of_find? ⟨{ root := ["wal"], encoding := .none }⟩ _ _ _ _ _ _ hcreate hfree
  have hfresh := hfree
  rw [← hpath] at hfresh
  have husable := (append_of_isCalm (live_of_created hnew hfresh) hcalm [7] [8] 0 0 0).1
  exact ⟨b, _, hnew, agrees_of_reached (.appended (.created hnew hfresh) [7] [8] 0 0 0 husable) Nat.one_pos⟩

end Block

end WriteAhead
