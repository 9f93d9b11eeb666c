import WriteAhead.Proofs.Isolation
import WriteAhead.Proofs.Multimap

/-!
An iteration over a block that is appended to in the meantime. Main statement: whatever is appended between the steps,
and however that turns out, every step is the one that an untouched file gives (`snapshot_of_tiled`).
-/

namespace WriteAhead

open Page

namespace Disk

/-- The file has on `d'` what it had on `d` and maybe more, and can be read as far as before. -/
structure Outgrown (id : FileId) (d d' : Disk) : Prop where
  content : d.content id <+: d'.content id
  readable : (d'.file id).readable = (d.file id).readable

variable {id : FileId} {d d' d'' : Disk}

theorem outgrown_refl (id : FileId) (d : Disk) : Outgrown id d d := ⟨List.prefix_rfl, rfl⟩

theorem outgrown_trans (h : Outgrown id d d') (h' : Outgrown id d' d'') : Outgrown id d d'' :=
  ⟨h.content.trans h'.content, h'.readable.trans h.readable⟩

/-- Either all that was there can be read on both disks, or no more can be read on the second. -/
theorem source_of_outgrown (h : Outgrown id d d') :
    (d.content id <+: (d.source (.file id)).bytes ∧ d.content id <+: (d'.source (.file id)).bytes) ∨
      (d'.source (.file id)).bytes = (d.source (.file id)).bytes := by
  by_cases hall : ∀ n ∈ (d.file id).readable, (d.content id).length ≤ n
  · refine .inl ⟨prefix_source_iff.2 ⟨List.prefix_rfl, hall⟩, prefix_source_iff.2 ⟨h.content, ?_⟩⟩
    rw [h.readable]
    exact hall
  · simp only [not_forall, Nat.not_le] at hall
    obtain ⟨n, hn, hlt⟩ := hall
    have hn' : (d'.file id).readable = some n := h.readable.trans hn
    obtain ⟨more, hmore⟩ := h.content
    right
    unfold source
    dsimp only
    rw [hn', Option.mem_def.1 hn]
    change (d'.content id).take n = (d.content id).take n
    rw [← hmore, List.take_append_of_le_length (Nat.le_of_lt hlt)]

end Disk

/-- A record of the pages `xs` reads the same wherever these are in front. -/
theorem Page.readAt_of_prefix [Codecs] {e : Encoding} {xs : List Entry}
    (hx : ∀ x ∈ xs, x.IsValid e ∧ x.page.length < UInt32.size) {s s' : Source} (h : joined xs <+: s.bytes)
    (h' : joined xs <+: s'.bytes) {r : Record} (hr : r ∈ layout 0 xs) : readAt e s' r = readAt e s r := by
  obtain ⟨i, hi⟩ := List.mem_iff_getElem?.1 hr
  rw [getElem?_layout, Option.map_eq_some_iff, Nat.zero_add] at hi
  obtain ⟨x, hxi, rfl⟩ := hi
  by_cases hseek : (joined (xs.take i)).length ≤ maxSeek
  · have hread : ∀ s : Source, joined xs <+: s.bytes →
        readAt e s (x.record (joined (xs.take i)).length) = .ok (x.id, x.object) := by
      rintro s ⟨rest, hrest⟩
      have hfront := readAt_getElem? hx hxi hseek rest
      rw [hrest] at hfront
      exact hfront
    rw [hread s h, hread s' h']
  · have hbeyond : maxSeek < (x.record (joined (xs.take i)).length).start := Nat.lt_of_not_le hseek
    rw [readAt, readAt, if_pos hbeyond, if_pos hbeyond]

/-- However an append turns out, nothing in front of it is lost, and a usable writer knows where the sink ends. -/
theorem Writer.exists_added [Codecs] {σ : Type} [ContentSink σ] (w : Writer) (id object : Bytes) (s : σ)
    (hs : w.poisoned = false → w.size = (ContentSink.content s).length) :
    ∃ added, ContentSink.content (w.append id object s).2.2 = ContentSink.content s ++ added ∧
      ((w.append id object s).2.1.poisoned = false →
        (w.append id object s).2.1.size = (ContentSink.content s ++ added).length) := by
  have ho := outcome_append w id object s hs
  generalize w.append id object s = result at ho ⊢
  obtain ⟨result, w', s'⟩ := result
  dsimp only at ho ⊢
  cases ho with
  | refused fault reason => exact ⟨[], (List.append_nil _).symm, by rwa [List.append_nil]⟩
  | @done page _ usable isPage length content =>
    exact ⟨page, content, fun _ => by rw [hs usable, List.length_append]⟩
  | cutBack usable content => exact ⟨[], by rw [content, List.append_nil], by rwa [List.append_nil]⟩
  | stuck usable built torn content => exact ⟨_, content, by rintro ⟨⟩⟩

namespace Iteration

/-- The next `n` steps, if the disk stays as it is. -/
def alone [Codecs] (d : Disk) : Nat → Iteration → List Step
  | 0, _ => []
  | n + 1, it => it.next d :: alone d n (it.next d).rest

/-- The iteration reads nothing but the file `id`, and there only what `index` records. -/
structure Within (it : Iteration) (id : FileId) (e : Encoding) (index : Index) : Prop where
  handle : ∀ handle ∈ it.handle, handle = .file id
  encoding : it.encoding = e
  groups : ∀ group ∈ it.groups, ∀ r ∈ group, r ∈ index

variable {it : Iteration} {id : FileId} {e : Encoding} {index : Index} {handle : Handle}

theorem within_close (h : it.Within id e index) : it.close.Within id e index :=
  ⟨by rintro handle ⟨⟩, h.encoding, by rintro group ⟨⟩⟩

section

variable [Codecs]

theorem within_next (h : it.Within id e index) (d : Disk) : (it.next d).rest.Within id e index := by
  unfold next
  split
  · exact h
  · split
    · exact within_close h
    · split
      · exact within_close h
      · next group groups hg =>
        exact ⟨h.handle, h.encoding, fun other hmem => h.groups other (hg ▸ List.mem_cons_of_mem _ hmem)⟩

theorem next_of_readAt (h : it.Within id e index) {d d' : Disk}
    (hread : ∀ r ∈ index, readAt e (d'.source (.file id)) r = readAt e (d.source (.file id)) r) :
    it.next d' = it.next d := by
  unfold next
  split
  · rfl
  · next handle hhandle =>
    obtain rfl := h.handle handle hhandle
    split
    · rfl
    · split
      · rfl
      · next group groups hg =>
        have hobject : it.nextObject (d'.source (.file id)) group = it.nextObject (d.source (.file id)) group := by
          rw [nextObject_eq, nextObject_eq, h.encoding]
          congr 1
          apply mapM_congr
          intro r hr
          rw [hread r (h.groups group (hg ▸ List.mem_cons_self) r hr)]
        dsimp only
        rw [hobject]

theorem map_item_alone_of_closed (h : it.handle = none) (d : Disk) (n : Nat) :
    (it.alone d n).map (·.item) = List.replicate n none := by
  induction n with
  | zero => rfl
  | succ n ih =>
    rw [alone, next_of_closed h, List.map_cons, ih, List.replicate_succ]

/-- One item for each group, and then nothing any more. -/
theorem map_item_alone (h : it.IsOpen handle) (d : Disk) (n : Nat) :
    (it.alone d (it.groups.length + n)).map (·.item) =
      it.groups.map (fun group => some (it.itemOf (d.source handle) group)) ++ List.replicate n none := by
  generalize hg : it.groups = groups
  induction groups generalizing it with
  | nil =>
    rw [List.length_nil, Nat.zero_add, List.map_nil, List.nil_append]
    cases n with
    | zero => rfl
    | succ n =>
      rw [alone, next_of_nil h hg, List.map_cons, map_item_alone_of_closed rfl, List.replicate_succ]
  | cons group groups ih =>
    have hmore := ih (isOpen_groups h groups) rfl
    rw [List.length_cons, Nat.add_right_comm, alone, next_of_cons h hg, List.map_cons, hmore]
    rfl

end

end Iteration

namespace Block

/-- The records of the block tile its file with the pages `xs`. -/
structure Tiled [Codecs] (b : Block) (d : Disk) (xs : List Entry) : Prop where
  exists_file : b.file < d.files.length
  opens : d.openRead b.path = .ok (.file b.file)
  valid : ∀ x ∈ xs, x.IsValid b.descriptor.encoding ∧ x.page.length < UInt32.size
  index : b.index = layout 0 xs
  content : d.content b.file = joined xs
  size : b.writer.poisoned = false → b.writer.size = (joined xs).length

/-- A file that can be written to at its end, unless the writer has given up. -/
structure AtEnd (b : Block) (d : Disk) : Prop where
  exists_file : b.file < d.files.length
  size : b.writer.poisoned = false → b.writer.size = (d.content b.file).length

/-- The steps of an iteration while the block is appended to and the disk changes. A step may be taken in the
middle of an append, when some bytes are already at the end of the file. -/
inductive Interleaved [Codecs] : Block → Disk → Iteration → List Iteration.Step → Prop
  | done {b : Block} {d : Disk} {it : Iteration} : Interleaved b d it []
  | next {b : Block} {d : Disk} {it : Iteration} {steps : List Iteration.Step}
      (more : Interleaved b d (it.next d).rest steps) : Interleaved b d it (it.next d :: steps)
  | amid {b : Block} {d : Disk} {it : Iteration} {steps : List Iteration.Step} (part : Bytes)
      (more : Interleaved b d (it.next (b.tear part d)).rest steps) :
      Interleaved b d it (it.next (b.tear part d) :: steps)
  | appended {b : Block} {d : Disk} {it : Iteration} {steps : List Iteration.Step} (id object : Bytes)
      (start stop now : UInt32) (more : Interleaved (b.append id object start stop now d).block
        (b.append id object start stop now d).disk it steps) : Interleaved b d it steps
  | elsewhere {b : Block} {d d' : Disk} {it : Iteration} {steps : List Iteration.Step}
      (files : d.files.length ≤ d'.files.length) (content : d'.content b.file = d.content b.file)
      (readable : (d'.file b.file).readable = (d.file b.file).readable) (more : Interleaved b d' it steps) :
      Interleaved b d it steps

/-- What an iteration over the pages `xs` gives does not depend on what happens after it was made: one item for each
id that was there, made of the objects that were there, if these can be read. -/
structure Snapshot [Codecs] (b : Block) (d : Disk) (xs : List Entry) (combiner : Combiner) (it : Iteration) :
    Prop where
  same : ∀ steps, Interleaved b d it steps → steps = it.alone d steps.length
  items : d.IsReadable b.file → (joined xs).length ≤ maxSeek → ∀ n,
    (it.alone d (b.index.ids.length + n)).map (·.item) =
      b.index.ids.map (fun id => some ((combine combiner b.descriptor.dataEncoding id
        ((xs.filter fun x => x.id == id).map (·.object))).result.map (id, ·))) ++ List.replicate n none

theorem within_opened (b : Block) (combiner : Combiner) :
    (b.opened (.file b.file) combiner).Within b.file b.descriptor.encoding b.index := by
  refine ⟨by rintro handle ⟨⟩; rfl, rfl, fun group hgroup r hr => ?_⟩
  change group ∈ b.index.grouped at hgroup
  rw [Index.grouped_eq_map] at hgroup
  obtain ⟨id, -, rfl⟩ := List.mem_map.1 hgroup
  exact List.mem_of_mem_filter hr

theorem outgrown_tear {b : Block} {d : Disk} (h : b.file < d.files.length) (part : Bytes) :
    Disk.Outgrown b.file d (b.tear part d) :=
  ⟨⟨part, (content_tear h part).symm⟩, congrArg (·.readable) (Disk.file_setFile h _)⟩

section

variable [Codecs] {b : Block} {d d' : Disk} {xs : List Entry} {it : Iteration}

theorem outgrown_append (h : b.AtEnd d) (id object : Bytes) (start stop now : UInt32) :
    Disk.Outgrown b.file d (b.append id object start stop now d).disk ∧
      (b.append id object start stop now d).block.AtEnd (b.append id object start stop now d).disk := by
  obtain ⟨added, hadded, hsize⟩ := b.writer.exists_added id object (d.file b.file).toScriptedSink h.size
  have hfile := Disk.file_setFile h.exists_file { d.file b.file with
    toScriptedSink := (b.writer.append id object (d.file b.file).toScriptedSink).2.2 }
  have hcontent := (congrArg (·.content) hfile).trans hadded
  have hopened := Nat.lt_of_lt_of_eq h.exists_file (Disk.length_files_setFile b.file { d.file b.file with
    toScriptedSink := (b.writer.append id object (d.file b.file).toScriptedSink).2.2 }).symm
  rw [← disk_append b id object start stop now] at hcontent hopened hfile
  obtain ⟨writer, index, info, hblock⟩ := block_append b id object start stop now d
  have hid : (b.append id object start stop now d).block.file = b.file := by rw [hblock]
  refine ⟨⟨⟨added, hcontent.symm⟩, congrArg (·.readable) hfile⟩, ?_, ?_⟩
  · rw [hid]
    exact hopened
  · rw [hid, writer_append]
    exact fun husable => (hsize husable).trans (congrArg List.length hcontent.symm)

/-- On what has outgrown the disk on which the iteration was made, nothing is different. -/
theorem next_of_outgrown (h : b.Tiled d xs) (hg : Disk.Outgrown b.file d d')
    (hi : it.Within b.file b.descriptor.encoding b.index) : it.next d' = it.next d := by
  refine Iteration.next_of_readAt hi fun r hr => ?_
  rw [h.index] at hr
  obtain ⟨hfront, hfront'⟩ | hbytes := Disk.source_of_outgrown hg
  · rw [h.content] at hfront hfront'
    exact readAt_of_prefix h.valid hfront hfront' hr
  · rw [readAt, readAt, hbytes]

theorem steps_of_interleaved (h : b.Tiled d xs) {b' : Block} {steps : List Iteration.Step} (hb : b'.file = b.file)
    (he : b'.AtEnd d') (hg : Disk.Outgrown b.file d d') (hi : it.Within b.file b.descriptor.encoding b.index)
    (hs : Interleaved b' d' it steps) : steps = it.alone d steps.length := by
  induction hs with
  | done => rfl
  | @next b' d' it steps more ih =>
    have hnext := next_of_outgrown h hg hi
    rw [List.length_cons, Iteration.alone, ← hnext, ← ih hb he hg (Iteration.within_next hi d')]
  | @amid b' d' it steps part more ih =>
    have hpart := Disk.outgrown_trans hg (hb ▸ outgrown_tear he.exists_file part)
    have hnext := next_of_outgrown h hpart hi
    rw [List.length_cons, Iteration.alone, ← hnext, ← ih hb he hg (Iteration.within_next hi _)]
  | @appended b' d' it steps id object start stop now more ih =>
    obtain ⟨hgrown, hend⟩ := outgrown_append he id object start stop now
    obtain ⟨writer, index, info, hblock⟩ := block_append b' id object start stop now d'
    have hid : (b'.append id object start stop now d').block.file = b'.file := by rw [hblock]
    exact ih (hid.trans hb) hend (Disk.outgrown_trans hg (hb ▸ hgrown)) hi
  | @elsewhere b' d' d'' it steps files content readable more ih =>
    have hsame : Disk.Outgrown b'.file d' d'' := ⟨content ▸ List.prefix_rfl, readable⟩
    refine ih hb ⟨Nat.lt_of_lt_of_le he.exists_file files, fun husable => ?_⟩ (Disk.outgrown_trans hg (hb ▸ hsame)) hi
    rw [content]
    exact he.size husable

/-- If the pages can be read, the records under an id give what their objects make. -/
theorem gathered_of_tiled (h : b.Tiled d xs) (hr : d.IsReadable b.file) (hs : (joined xs).length ≤ maxSeek)
    (combiner : Combiner) (id : Bytes) : b.gathered (d.source (.file b.file)) combiner id =
      combine combiner b.descriptor.dataEncoding id ((xs.filter fun x => x.id == id).map (·.object)) := by
  have hread := mapM_readAt_layout h.valid [] hs id
  have hbytes := (Disk.source_of_isReadable hr).1
  rw [h.content] at hbytes
  have hsource : ∀ r, readAt b.descriptor.encoding (d.source (.file b.file)) r =
      readAt b.descriptor.encoding (.ofBytes (joined xs)) r := by
    intro r
    rw [readAt, readAt, hbytes]
    rfl
  rw [List.nil_append, List.length_nil, ← h.index] at hread
  rw [gathered]
  simp only [hsource]
  rw [hread]

theorem snapshot_of_tiled (h : b.Tiled d xs) (combiner : Combiner) :
    ∃ it, b.iterate combiner d = .ok it ∧ b.Snapshot d xs combiner it := by
  have hiterate : b.iterate combiner d = .ok (b.opened (.file b.file) combiner) := by
    rw [iterate, h.opens]
    rfl
  have hend : b.AtEnd d := ⟨h.exists_file, fun husable => h.content ▸ h.size husable⟩
  refine ⟨_, hiterate, fun steps hsteps => ?_, fun hr hs n => ?_⟩
  · exact steps_of_interleaved h rfl hend (Disk.outgrown_refl _ _) (within_opened b combiner) hsteps
  · have hitems := Iteration.map_item_alone (isOpen_opened b (.file b.file) combiner) d n
    have hgroups := map_itemOf_opened b (.file b.file) (d.source (.file b.file)) combiner
    simp only [gathered_of_tiled h hr hs] at hgroups
    have hlength : b.index.ids.length = (b.opened (.file b.file) combiner).groups.length := List.length_map _
    rw [hlength, hitems]
    congr 1
    have hsome := congrArg (List.map some) hgroups
    rw [List.map_map, List.map_map] at hsome
    exact hsome

end

/-- A block with one page, which is all that there is. -/
def single : Block := { sample with index := [⟨[7], 0, 26⟩] }

theorem tiled_single : single.Tiled (sampleFile []) [⟨[7], [8], samplePage⟩] where
  exists_file := by decide
  opens := (shows_sample []).opens
  valid := List.forall_mem_singleton.2 ⟨isPage_sample, by decide⟩
  index := rfl
  content := rfl
  size _ := rfl

/-- Of two objects the combiner would make none, but the second comes too late. -/
theorem snapshot_single :
    ∃ it, single.iterate (fun _ _ => .ok none) (sampleFile []) = .ok it ∧
      ((single.append [7] [8] 0 0 0 (sampleFile [])).disk.content 0 = samplePage ++ samplePage) ∧
      (it.next (single.append [7] [8] 0 0 0 (sampleFile [])).disk).item = some (.ok ([7], [8])) := by
  obtain ⟨it, hit, h⟩ := snapshot_of_tiled tiled_single fun _ _ => .ok none
  have hsame := h.same _ (.appended [7] [8] 0 0 0 (.next .done))
  have hreadable : (sampleFile []).IsReadable single.file := by rintro n ⟨⟩
  have hitems := h.items hreadable (by decide) 0
  have hids : single.index.ids = [[7]] := by decide +kernel
  rw [hids] at hitems
  exact ⟨it, hit, by decide +kernel, (List.cons.inj ((congrArg (List.map (·.item)) hsame).trans hitems)).1⟩

end Block

end WriteAhead
