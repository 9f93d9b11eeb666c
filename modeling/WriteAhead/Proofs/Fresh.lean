import WriteAhead.Disk.Actions
import WriteAhead.Proofs.Multimap

/-!
Blocks as they are made. Main statement: a new block begins behind what is in its file already, of which
neither its index nor its bookkeeping knows, so it is fresh exactly if there is nothing
(`startsBehind_of_newBlock`).
-/

namespace WriteAhead

open Page

/-- The size grows by the page that is acknowledged, whatever the sink does. -/
theorem Writer.size_append [Codecs] {σ : Type} [Sink σ] (w : Writer) (id object : Bytes) (s : σ) :
    (w.append id object s).2.1.size =
      match (w.append id object s).1 with
      | .ok record => w.size + record.length.toNat
      | .error _ => w.size := by
  unfold append
  by_cases hp : w.poisoned
  · rw [if_pos hp]
  · rw [if_neg hp]
    cases hb : build w.encoding id object with
    | error fault => rfl
    | ok page =>
      obtain ⟨header, payload⟩ := page
      have hlength : (UInt32.ofNat header.pageLength).toNat = header.pageLength :=
        UInt32.toNat_ofNat_of_lt' (length_of_build hb).2
      dsimp only
      generalize commit w.sync (header.toBytes ++ payload) s = committed
      obtain ⟨committed, s₁⟩ := committed
      cases committed with
      | true => exact congrArg (w.size + ·) hlength.symm
      | false =>
        dsimp only
        generalize Sink.truncate w.size s₁ = cut
        obtain ⟨cut, s₂⟩ := cut
        cases cut <;> rfl

/-- What opening a file to add to it finds there. -/
theorem Disk.read_of_openAppend {path : Path} {d d' : Disk} {id : FileId} (ho : d.openAppend path = .ok (id, d')) :
    d.read path = .ok (d'.content id) ∨ d.read path = .error .missing ∧ d'.content id = [] := by
  unfold Disk.openAppend at ho
  unfold Disk.read
  split at ho
  · cases ho
  · next place hf =>
    cases ho
    rw [hf]
    exact .inr ⟨rfl, congrArg (·.content) (Disk.file_create place [])⟩
  · next hf =>
    cases ho
    rw [hf]
    exact .inl rfl
  · cases ho

namespace Block

section

variable [Codecs]

/-- What becomes of a block by appends and look-ups, whatever the disk is at the time of each. -/
inductive Used (b : Block) : Block → Prop
  | new : Used b b
  | appended {b' : Block} (before : Used b b') (id object : Bytes) (start stop now : UInt32) (d : Disk) :
      Used b (b'.append id object start stop now d).block
  | found {b' : Block} (before : Used b b') (id : Bytes) (combiner : Combiner) (d : Disk) :
      Used b (b'.find id combiner d).2

/-- A block with nothing in its file, which it knows, and will not lose track of. -/
structure IsFresh (b : Block) (d : Disk) : Prop where
  content : d.content b.file = []
  index : b.index = []
  size : b.writer.size = 0
  info_size : b.info.size = 0
  find : ∀ id combiner d', (b.find id combiner d').1.result = .ok none
  sized : ∀ b', Used b b' → b'.info.size = b'.writer.size

/-- A block with `old` in its file that knows where this ends, and nothing else of it. -/
structure StartsBehind (b : Block) (d : Disk) (old : Bytes) : Prop where
  content : d.content b.file = old
  index : b.index = []
  info : b.info = newMeta b.descriptor
  find : ∀ id combiner d', (b.find id combiner d').1.result = .ok none
  size : ∀ b', Used b b' → b'.writer.size = old.length + b'.info.size

/-- An append moves the end of the file and the size in the bookkeeping by as much. -/
theorem sizes_append (b : Block) (id object : Bytes) (start stop now : UInt32) (d : Disk) :
    ∃ n, (b.append id object start stop now d).block.writer.size = b.writer.size + n ∧
      (b.append id object start stop now d).block.info.size = b.info.size + n := by
  have hsize := b.writer.size_append id object (d.file b.file).toScriptedSink
  dsimp only [append]
  generalize b.writer.append id object (d.file b.file).toScriptedSink = result at hsize ⊢
  obtain ⟨result, writer, sink⟩ := result
  cases result with
  | error fault => exact ⟨0, hsize, rfl⟩
  | ok record => exact ⟨record.length.toNat, hsize, rfl⟩

theorem sizes_find (b : Block) (id : Bytes) (combiner : Combiner) (d : Disk) :
    (b.find id combiner d).2.writer = b.writer ∧ (b.find id combiner d).2.info = b.info := by
  unfold find
  split
  · exact ⟨rfl, rfl⟩
  · split <;> exact ⟨rfl, rfl⟩

/-- How far the end of the file is ahead of the bookkeeping does not change. -/
theorem size_of_used {b b' : Block} {n : Nat} (hs : b.writer.size = n + b.info.size) (h : Used b b') :
    b'.writer.size = n + b'.info.size := by
  induction h with
  | new => exact hs
  | appended _ id object start stop now d ih =>
    obtain ⟨more, hwriter, hinfo⟩ := sizes_append _ id object start stop now d
    rw [hwriter, hinfo, ih, Nat.add_assoc]
  | found _ id combiner d ih =>
    obtain ⟨hwriter, hinfo⟩ := sizes_find _ id combiner d
    rw [hwriter, hinfo, ih]

theorem isFresh_iff_of_startsBehind {b : Block} {d : Disk} {old : Bytes} (h : StartsBehind b d old) :
    IsFresh b d ↔ old = [] := by
  constructor
  · intro hf
    rw [← h.content, hf.content]
  · rintro rfl
    have hsize : ∀ b', Used b b' → b'.writer.size = b'.info.size := by
      intro b' hb
      rw [h.size b' hb, List.length_nil, Nat.zero_add]
    have hinfo : b.info.size = 0 := by rw [h.info, newMeta]
    exact ⟨h.content, h.index, (hsize b .new).trans hinfo, hinfo, h.find, fun b' hb => (hsize b' hb).symm⟩

theorem startsBehind_of_openAppend {descriptor : Descriptor} {options : Options} {d d' : Disk} {id : FileId}
    (ho : d.openAppend (options.root ++ [descriptor.filename]) = .ok (id, d')) :
    ∃ b, create descriptor options d = .ok (b, d') ∧ b.path = options.root ++ [descriptor.filename] ∧ b.file = id ∧
      StartsBehind b d' (d'.content id) := by
  refine ⟨_, by rw [create, ho], rfl, rfl, rfl, rfl, rfl, fun _ _ _ => rfl, fun b' hb => ?_⟩
  exact size_of_used rfl hb

/-- Whatever is on the disk, a new block begins behind what is in its file. It is fresh if that is nothing, and
only then. -/
theorem startsBehind_of_newBlock {log : Log} {id : Uuid} {tenant dataEncoding : String} {d d' : Disk} {b : Block}
    (new : log.newBlock id tenant dataEncoding d = .ok (b, d')) :
    ∃ old, (d.read b.path = .ok old ∨ d.read b.path = .error .missing ∧ old = []) ∧ StartsBehind b d' old ∧
      (IsFresh b d' ↔ old = []) := by
  obtain ⟨descriptor, -, hcreate⟩ := Log.create_of_newBlock new
  cases ho : d.openAppend (log.options.root ++ [descriptor.filename]) with
  | error fault =>
    rw [create, ho] at hcreate
    cases hcreate
  | ok opened =>
    obtain ⟨file, d₁⟩ := opened
    obtain ⟨b₁, hcreated, hpath, hfile, hbehind⟩ := startsBehind_of_openAppend ho
    cases hcreated.symm.trans hcreate
    rw [hpath]
    exact ⟨_, Disk.read_of_openAppend ho, hbehind, isFresh_iff_of_startsBehind hbehind⟩

/-- A block that is made under the name of another one gets the file of that one. -/
theorem newBlock_of_lived {descriptor : Descriptor} {b : Block} {d : Disk} {ops : List (Bytes × Bytes)}
    (h : Lived Log.IsSteady descriptor b d ops) {log : Log} (hroot : log.options.root = b.options.root) {id : Uuid}
    {tenant dataEncoding : String}
    (hc : Descriptor.create id tenant log.options.encoding dataEncoding = .ok descriptor) :
    ∃ b', log.newBlock id tenant dataEncoding d = .ok (b', d) ∧ b'.path = b.path ∧ b'.file = b.file := by
  obtain ⟨place, inner, xs, hs⟩ := stands_of_lived h
  have hopen := Disk.openAppend_of_openRead (Disk.openRead_name hs.houses.home hs.plain hs.isText hs.houses.node)
  rw [← hroot] at hopen
  obtain ⟨b', hcreate, hpath, hfile, -⟩ := startsBehind_of_openAppend hopen
  refine ⟨b', ?_, by rw [hpath, hroot, hs.path], hfile⟩
  rw [Log.newBlock, hc]
  exact hcreate

end

theorem isSteady_wal : Log.IsSteady ["wal"] { entries := [(["wal"], .directory)] } := by
  refine ⟨⟨_, _, isHome_wal, by simp⟩, fun goal id hfind => ?_⟩
  rw [Disk.find?_name isHome_wal Log.isPlain_completedName (by decide)] at hfind
  cases hfind

/-- A second block of a name, after an object was appended to the first. -/
theorem exists_newBlock_twice : ∃ b d b',
    Lived Log.IsSteady ⟨.zero, "t", .none, ""⟩ b d [([7], [8])] ∧
    Log.newBlock ⟨{ root := ["wal"], encoding := .none }⟩ .zero "t" "" d = .ok (b', d) ∧ d.content b'.file ≠ [] := by
  obtain ⟨b, d, hlived, hoptions, -⟩ := exists_lived start_wal isSteady_wal isHome_wal rfl
  obtain ⟨place, inner, xs, hs⟩ := stands_of_lived hlived
  obtain ⟨b', hnew, -, hfile⟩ := @newBlock_of_lived _ _ _ _ _ hlived ⟨{ root := ["wal"], encoding := .none }⟩
    (by rw [hoptions]) .zero "t" "" rfl
  refine ⟨b, d, b', hlived, hnew, ?_⟩
  have hxs : xs ≠ [] := by
    rintro rfl
    cases hs.objects
  rw [hfile, hs.live.content]
  exact joined_ne_nil hs.live.valid hxs

theorem startsBehind_newBlock_twice : ∃ b d old, old ≠ [] ∧ StartsBehind b d old ∧ ¬ IsFresh b d := by
  obtain ⟨-, d, b, -, hnew, hcontent⟩ := exists_newBlock_twice
  obtain ⟨old, -, hbehind, hfresh⟩ := startsBehind_of_newBlock hnew
  rw [hbehind.content] at hcontent
  exact ⟨b, d, old, hcontent, hbehind, mt hfresh.1 hcontent⟩

/-- Not after every history of the directory. -/
theorem not_forall_isFresh : ¬ ∀ descriptor b d ops, Lived Log.IsSteady descriptor b d ops →
    ∀ log id tenant dataEncoding b' d', Log.newBlock log id tenant dataEncoding d = .ok (b', d') → IsFresh b' d' := by
  intro hall
  obtain ⟨b, d, b', hlived, hnew, hcontent⟩ := exists_newBlock_twice
  exact hcontent (hall _ _ _ _ hlived _ _ _ _ _ _ hnew).content

end Block

end WriteAhead
