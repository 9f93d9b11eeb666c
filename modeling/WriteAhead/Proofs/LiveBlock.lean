import WriteAhead.Block
import WriteAhead.Proofs.Appending

/-!
A block and its file. Main statement: an append either adds one page to what block and file hold, or
leaves both as they are, unless its page could not be cut off again (`live_append`).
-/

namespace WriteAhead

/-- In the states `good` every call succeeds, and leads to such a state again. A write call may take only a part. -/
structure Sink.Obliges {σ : Type} [Sink σ] (good : σ → Prop) : Prop where
  write {s : σ} (hs : good s) {bytes : Bytes} (hb : bytes ≠ []) :
    (Sink.write bytes s).1 ≠ .failed ∧ (Sink.write bytes s).1 ≠ .took 0 ∧ good (Sink.write bytes s).2
  flush {s : σ} (hs : good s) : (Sink.flush s).1 = true ∧ good (Sink.flush s).2
  sync {s : σ} (hs : good s) : (Sink.sync s).1 = true ∧ good (Sink.sync s).2

section

variable {σ : Type} [Sink σ] {good : σ → Prop} {s : σ}

theorem Sink.writeAll_of_obliges (h : Sink.Obliges good) (hs : good s) (bytes : Bytes) :
    (Sink.writeAll bytes s).1 = true ∧ good (Sink.writeAll bytes s).2 := by
  fun_induction Sink.writeAll bytes s with
  | case1 s => exact ⟨rfl, hs⟩
  | case2 s b rest s' hw =>
    have hcall := h.write hs (List.cons_ne_nil b rest)
    rw [hw] at hcall
    exact absurd rfl hcall.1
  | case4 s b rest s' hw =>
    have hcall := h.write hs (List.cons_ne_nil b rest)
    rw [hw] at hcall
    exact absurd rfl hcall.2.1
  | case3 s b rest s' hw _ ih | case5 s b rest n s' hw _ ih =>
    have hcall := h.write hs (List.cons_ne_nil b rest)
    rw [hw] at hcall
    exact ih hcall.2.2

theorem Writer.commit_of_obliges (h : Sink.Obliges good) (hs : good s) (mode : SyncMode) (page : Bytes) :
    (Writer.commit mode page s).1 = true ∧ good (Writer.commit mode page s).2 := by
  obtain ⟨hwritten, h₁⟩ := Sink.writeAll_of_obliges h hs page
  unfold Writer.commit
  generalize Sink.writeAll page s = r₁ at hwritten h₁ ⊢
  obtain ⟨written, s₁⟩ := r₁
  cases hwritten
  obtain ⟨hflushed, h₂⟩ := h.flush h₁
  dsimp only at hflushed h₂ ⊢
  generalize Sink.flush s₁ = r₂ at hflushed h₂ ⊢
  obtain ⟨flushed, s₂⟩ := r₂
  cases hflushed
  cases mode with
  | strict => exact h.sync h₂
  | async => exact ⟨rfl, h₂⟩

end

namespace ScriptedSink

structure IsCalm (s : ScriptedSink) : Prop where
  writes : s.writes = []
  flushes : s.flushes = []
  syncs : s.syncs = []
  truncates : s.truncates = []

variable {s : ScriptedSink}

theorem obliges_isCalm : Sink.Obliges IsCalm where
  write {s} h {bytes} hb := by
    change (s.write bytes).1 ≠ _ ∧ (s.write bytes).1 ≠ _ ∧ (s.write bytes).2.IsCalm
    unfold write
    rw [h.writes]
    refine ⟨WriteResult.noConfusion, fun hzero => ?_, rfl, h.flushes, h.syncs, h.truncates⟩
    exact hb (List.length_eq_zero_iff.1 (WriteResult.took.inj hzero))
  flush {s} h := by
    change s.flushes.headD true = true ∧ _
    rw [h.flushes]
    exact ⟨rfl, h.writes, congrArg List.tail h.flushes, h.syncs, h.truncates⟩
  sync {s} h := by
    change s.syncs.headD true = true ∧ _
    rw [h.syncs]
    exact ⟨rfl, h.writes, h.flushes, congrArg List.tail h.syncs, h.truncates⟩

theorem truncate_of_isCalm (h : s.IsCalm) (n : Nat) : (s.truncate n).1 = true ∧ (s.truncate n).2.IsCalm := by
  change s.truncates.headD true = true ∧ _
  rw [h.truncates]
  exact ⟨rfl, h.writes, h.flushes, h.syncs, congrArg List.tail h.truncates⟩

/-- Only a page that cannot be built is refused. -/
theorem append_of_isCalm [Codecs] {w : Writer} (hw : w.poisoned = false) (h : s.IsCalm) (id object : Bytes) :
    (w.append id object s).2.1.poisoned = false ∧ (w.append id object s).2.2.IsCalm ∧
      ∀ fault, (w.append id object s).1 = .error fault → Page.build w.encoding id object = .error fault := by
  unfold Writer.append
  rw [if_neg (Bool.eq_false_iff.1 hw)]
  cases hb : Page.build w.encoding id object with
  | error e => exact ⟨hw, h, fun _ hf => congrArg _ (Except.error.inj hf)⟩
  | ok page =>
    obtain ⟨header, payload⟩ := page
    obtain ⟨hcommitted, h₁⟩ := Writer.commit_of_obliges obliges_isCalm h w.sync (header.toBytes ++ payload)
    dsimp only
    generalize Writer.commit w.sync (header.toBytes ++ payload) s = r at hcommitted h₁ ⊢
    obtain ⟨committed, s₁⟩ := r
    cases hcommitted
    exact ⟨hw, h₁, fun fault hf => by cases hf⟩

end ScriptedSink

namespace Disk

structure IsCalm (d : Disk) (id : FileId) : Prop where
  sink : (d.file id).toScriptedSink.IsCalm
  readable : (d.file id).readable = none

def IsReadable (d : Disk) (id : FileId) : Prop := ∀ n ∈ (d.file id).readable, (d.content id).length ≤ n

section

variable {d : Disk} {id : FileId}

theorem isCalm_setFile (hid : id < d.files.length) {f : File} (hs : f.toScriptedSink.IsCalm) (hr : f.readable = none) :
    (d.setFile id f).IsCalm id := by
  constructor <;> rw [file_setFile hid]
  · exact hs
  · exact hr

theorem isCalm_create (d : Disk) (place : Path) (content : Bytes) :
    (d.create place content).2.IsCalm d.files.length := by
  constructor <;> rw [file_create]
  exact ⟨rfl, rfl, rfl, rfl⟩

theorem file_of_files {d' : Disk} (h : d'.files = d.files) (id : FileId) : d'.file id = d.file id := by
  rw [file, h, file]

theorem isCalm_of_file {d' : Disk} (h : d.IsCalm id) (hf : d'.file id = d.file id) : d'.IsCalm id :=
  ⟨hf ▸ h.sink, hf ▸ h.readable⟩

theorem isReadable_of_isCalm (h : d.IsCalm id) : d.IsReadable id := by
  intro n hn
  rw [h.readable] at hn
  cases hn

theorem source_of_isCalm (h : d.IsCalm id) : d.source (.file id) = .ofBytes (d.content id) := by
  unfold source
  dsimp only
  rw [h.readable]
  rfl

theorem source_of_isReadable (h : d.IsReadable id) :
    (d.source (.file id)).bytes = d.content id ∧ (d.source (.file id)).length = (d.content id).length := by
  unfold source
  dsimp only
  split
  · exact ⟨rfl, rfl⟩
  · next n hn => exact ⟨List.take_of_length_le (h n hn), rfl⟩

theorem prefix_source_iff {front : Bytes} : front <+: (d.source (.file id)).bytes ↔
    front <+: d.content id ∧ ∀ n ∈ (d.file id).readable, front.length ≤ n := by
  unfold source
  dsimp only
  cases (d.file id).readable with
  | none => simp [Source.ofBytes, content]
  | some n => simp [content, List.prefix_take_iff]

theorem length_bytes_source (d : Disk) (id : FileId) :
    (d.source (.file id)).bytes.length ≤ (d.source (.file id)).length := by
  unfold source
  dsimp only
  split
  · exact Nat.le_refl _
  · exact List.length_take_le' _ _

theorem bytes_source_prefix (d : Disk) (id : FileId) : (d.source (.file id)).bytes <+: d.content id :=
  (prefix_source_iff.1 List.prefix_rfl).1

theorem length_bytes_source_le {n : Nat} (h : n ∈ (d.file id).readable) : (d.source (.file id)).bytes.length ≤ n :=
  (prefix_source_iff.1 List.prefix_rfl).2 n h

end

end Disk

namespace Block

open Page

section

variable {id : FileId} {n : Nat} {d : Disk}

theorem cut_frame (id : FileId) (n : Nat) (d : Disk) :
    (cut id n d).2.entries = d.entries ∧ (cut id n d).2.files.length = d.files.length ∧
      ∀ other, other ≠ id → (cut id n d).2.file other = d.file other :=
  ⟨rfl, Disk.length_files_setFile _ _, fun _ ho => Disk.file_setFile_of_ne ho _⟩

theorem trim_frame (id : FileId) (n : Nat) (d : Disk) :
    (trim id n d).2.entries = d.entries ∧ (trim id n d).2.files.length = d.files.length ∧
      ∀ other, other ≠ id → (trim id n d).2.file other = d.file other := by
  unfold trim
  split
  · exact ⟨rfl, rfl, fun _ _ => rfl⟩
  · exact cut_frame id n d

theorem trim_of_length (h : (d.content id).length = n) : trim id n d = (true, d) :=
  if_pos h

theorem file_trim (h : id < d.files.length) (hn : n ≤ (d.content id).length) :
    ((trim id n d).2.file id).content = (if (trim id n d).1 then (d.content id).take n else d.content id) ∧
      ((trim id n d).2.file id).readable = (d.file id).readable := by
  unfold trim
  split
  · next he => exact ⟨(List.take_of_length_le (Nat.le_of_eq he)).symm, rfl⟩
  · have hfile := Disk.file_setFile h { d.file id with toScriptedSink := ((d.file id).toScriptedSink.truncate n).2 }
    refine ⟨(congrArg (·.content) hfile).trans ?_, congrArg (·.readable) hfile⟩
    exact ContentSink.content_truncate n (d.file id).toScriptedSink hn

theorem trim_of_isCalm (hid : id < d.files.length) (h : d.IsCalm id) (n : Nat) :
    (trim id n d).1 = true ∧ (trim id n d).2.IsCalm id := by
  obtain ⟨hcut, hcalm⟩ := ScriptedSink.truncate_of_isCalm h.sink n
  unfold trim
  split
  · exact ⟨rfl, h⟩
  · exact ⟨hcut, Disk.isCalm_setFile hid hcalm h.readable⟩

end

/-- The pages `xs` are all that the file of the block holds, and all that the block knows of. -/
structure Live [Codecs] (b : Block) (d : Disk) (xs : List Entry) : Prop where
  usable : b.writer.poisoned = false
  encoding : b.writer.encoding = b.descriptor.encoding
  opened : b.file < d.files.length
  valid : ∀ x ∈ xs, x.IsValid b.descriptor.encoding
  content : d.content b.file = joined xs
  index : b.index = layout 0 xs
  size : b.writer.size = (joined xs).length
  info_size : b.info.size = (joined xs).length
  objects : b.info.objects = xs.length

variable [Codecs] {b : Block} {d : Disk} {xs : List Entry}

/-- What becomes of other files does not matter. -/
theorem live_of_content {d' : Disk} (h : Live b d xs) (hc : d'.content b.file = d.content b.file)
    (ho : b.file < d'.files.length) : Live b d' xs :=
  { h with opened := ho, content := hc.trans h.content }

theorem disk_append (b : Block) (id object : Bytes) (start stop now : UInt32) (d : Disk) :
    (b.append id object start stop now d).disk = d.setFile b.file { d.file b.file with
      toScriptedSink := (b.writer.append id object (d.file b.file).toScriptedSink).2.2 } := by
  dsimp only [append]
  generalize b.writer.append id object (d.file b.file).toScriptedSink = result
  obtain ⟨result, writer, sink⟩ := result
  cases result <;> rfl

theorem writer_append (b : Block) (id object : Bytes) (start stop now : UInt32) (d : Disk) :
    (b.append id object start stop now d).block.writer =
      (b.writer.append id object (d.file b.file).toScriptedSink).2.1 := by
  dsimp only [append]
  generalize b.writer.append id object (d.file b.file).toScriptedSink = result
  obtain ⟨result, writer, sink⟩ := result
  cases result <;> rfl

theorem block_append (b : Block) (id object : Bytes) (start stop now : UInt32) (d : Disk) :
    ∃ writer index info, (b.append id object start stop now d).block = { b with writer, index, info } := by
  dsimp only [append]
  generalize b.writer.append id object (d.file b.file).toScriptedSink = result
  obtain ⟨result, writer, sink⟩ := result
  cases result with
  | error fault => exact ⟨writer, b.index, b.info, rfl⟩
  | ok record => exact ⟨writer, _, _, rfl⟩

theorem live_append (h : Live b d xs) (id object : Bytes) (start stop now : UInt32)
    (hp : (b.append id object start stop now d).block.writer.poisoned = false) :
    (∃ page, page.length < UInt32.size ∧ (b.append id object start stop now d).result = .ok () ∧
      Live (b.append id object start stop now d).block (b.append id object start stop now d).disk
        (xs ++ [⟨id, object, page⟩])) ∨
    (∃ fault, (b.append id object start stop now d).result = .error fault ∧
      (b.append id object start stop now d).block = b ∧
      (b.append id object start stop now d).disk.content b.file = d.content b.file) := by
  have hsize : b.writer.size = (ContentSink.content (d.file b.file).toScriptedSink).length :=
    h.size.trans (congrArg List.length h.content.symm)
  have ho := Writer.outcome_append b.writer id object (d.file b.file).toScriptedSink fun _ => hsize
  dsimp only [append] at hp ⊢
  generalize b.writer.append id object (d.file b.file).toScriptedSink = result at ho hp ⊢
  obtain ⟨result, writer, sink⟩ := result
  dsimp only at ho hp ⊢
  have hfile := Disk.file_setFile h.opened { d.file b.file with toScriptedSink := sink }
  have hcontent : (d.setFile b.file { d.file b.file with toScriptedSink := sink }).content b.file = sink.content :=
    congrArg (·.content) hfile
  cases ho with
  | refused fault reason => exact .inr ⟨fault, rfl, rfl, hcontent⟩
  | cutBack usable content => exact .inr ⟨_, rfl, rfl, hcontent.trans content⟩
  | stuck => cases hp
  | @done page _ usable isPage length content =>
    have hadded : joined (xs ++ [⟨id, object, page⟩]) = joined xs ++ page := by
      rw [joined_append, joined_cons, joined_nil, List.append_nil]
    have hlength : (joined (xs ++ [⟨id, object, page⟩])).length = (joined xs).length + page.length := by
      rw [hadded, List.length_append]
    refine .inl ⟨page, length, rfl, usable, h.encoding, ?_, ?_, ?_, ?_, ?_, ?_, ?_⟩
    · rw [Disk.length_files_setFile]
      exact h.opened
    · exact List.forall_mem_append.2 ⟨h.valid, List.forall_mem_singleton.2 (h.encoding ▸ isPage)⟩
    · exact hcontent.trans (content.trans (hadded ▸ congrArg (· ++ page) h.content))
    · dsimp only
      rw [h.index, layout_append, h.size, Nat.zero_add]
      rfl
    · rw [hlength, ← h.size]
    · change b.info.size + (UInt32.ofNat page.length).toNat = _
      rw [hlength, UInt32.toNat_ofNat_of_lt' length, h.info_size]
    · change b.info.objects + 1 = _
      rw [h.objects, List.length_append, List.length_singleton]

/-- If no call fails, only an object that no page can hold is refused. -/
theorem append_of_isCalm (h : Live b d xs) (hc : d.IsCalm b.file) (id object : Bytes) (start stop now : UInt32) :
    (b.append id object start stop now d).block.writer.poisoned = false ∧
      (b.append id object start stop now d).disk.IsCalm b.file ∧
      ∀ fault, (b.append id object start stop now d).result = .error fault →
        build b.descriptor.encoding id object = .error fault := by
  obtain ⟨husable, hcalm, hrefused⟩ := ScriptedSink.append_of_isCalm h.usable hc.sink id object
  refine ⟨?_, ?_, ?_⟩
  · rw [writer_append]
    exact husable
  · rw [disk_append]
    exact Disk.isCalm_setFile h.opened hcalm hc.readable
  · intro fault
    dsimp only [append]
    rw [← h.encoding]
    generalize b.writer.append id object (d.file b.file).toScriptedSink = result at hrefused ⊢
    obtain ⟨result, writer, sink⟩ := result
    intro he
    cases result with
    | error e => exact hrefused fault (congrArg _ (Except.error.inj he))
    | ok record => cases he

theorem append_eq_ok (h : Live b d xs) (hc : d.IsCalm b.file) {id object : Bytes} {page : Header × Bytes}
    (hb : build b.descriptor.encoding id object = .ok page) (start stop now : UInt32) :
    (b.append id object start stop now d).result = .ok () := by
  cases hr : (b.append id object start stop now d).result with
  | ok => rfl
  | error fault => cases hb.symm.trans ((append_of_isCalm h hc id object start stop now).2.2 fault hr)

theorem live_restored {descriptor : Descriptor} {path : Path} {r : Replay} {options : Options} {id : FileId}
    (hid : id < d.files.length) (hx : ∀ x ∈ xs, x.IsValid descriptor.encoding) (hr : r.records = layout 0 xs)
    (he : r.validEnd = (joined xs).length) (hp : joined xs <+: d.content id) (ht : (trim id r.validEnd d).1 = true)
    (start stop : UInt32) :
    Live ((restored descriptor path r options id).setRange start stop) (trim id r.validEnd d).2 xs := by
  have hle : r.validEnd ≤ (d.content id).length := he ▸ hp.length_le
  have hcontent := (file_trim hid hle).1
  refine ⟨rfl, rfl, ?_, hx, ?_, hr, he, he, ?_⟩
  · exact Nat.lt_of_lt_of_eq hid (trim_frame id r.validEnd d).2.1.symm
  · refine hcontent.trans ?_
    rw [ht, if_pos rfl, he]
    exact List.prefix_iff_eq_take.1 hp ▸ rfl
  · change r.records.length = _
    rw [hr, length_layout]

end Block

end WriteAhead
