import WriteAhead.Page.Buffered
import WriteAhead.Proofs.Filename
import WriteAhead.Proofs.Rescan
import WriteAhead.Proofs.Spared

/-!
The size of the buffer for reading. Main statements: a replay through a buffer is a replay of the bytes, whatever
the capacity (`replay_eq`); through buffers that can hold something, rescans make the same of a directory
(`rescan_withBuffer`), but where nothing can be held every file looks empty (`replay_zero`).
-/

namespace WriteAhead

open Page

namespace Page.Buffered

variable [Codecs] {e : Encoding}

/-- Through a buffer that can hold something, the end of the file is seen where it is. -/
theorem replayFrom_eq {source : Source} {b : Buffered} (hc : 0 < b.capacity) (hf : b.fails = source.fails)
    (offset : Nat) (records : Index) :
    replayFrom e source.length b offset records = Page.replayFrom e b.capacity source b.rest offset records := by
  have hzero : (b.capacity == 0) = false := by simpa using Nat.ne_of_gt hc
  fun_induction replayFrom e source.length b offset records with
  | case1 b offset records fault hfill =>
    obtain ⟨hnil, ⟨hfails, hfill'⟩ | ⟨-, b', hfill', -⟩⟩ | ⟨b', hfill', -⟩ := fill_cases (b := b) fun _ => hc
    · cases hfill.symm.trans hfill'
      rw [Page.replayFrom, hnil, ← hf, hfails]
      rfl
    · cases hfill.symm.trans hfill'
    · cases hfill.symm.trans hfill'
  | case2 b offset records filled hfill hheld =>
    obtain ⟨hnil, ⟨-, hfill'⟩ | ⟨hfails, -⟩⟩ | ⟨b', hfill', hne, -⟩ := fill_cases (b := b) fun _ => hc
    · cases hfill.symm.trans hfill'
    · rw [Page.replayFrom, hnil, ← hf, hfails]
      rfl
    · cases hfill.symm.trans hfill'
      exact absurd hheld hne
  | case3 b offset records filled hfill hheld fault hnext =>
    have hafter := after_of_fill hfill
    have hrest : b.rest = filled.rest := hafter.rest
    have hne : b.rest.isEmpty = false := hrest ▸ isEmpty_rest hheld
    rw [Page.replayFrom, hne, hzero, if_neg (by simp), if_neg (by simp)]
    split
    · next hnext' =>
      cases (next_of_error (hrest ▸ hnext')).symm.trans hnext
      rfl
    · next hnext' =>
      obtain ⟨b', hread, -⟩ := next_of_ok (hrest ▸ hnext')
      cases hread.symm.trans hnext
  | case4 b offset records filled hfill hheld page b' hnext _ length ih =>
    have hafter := after_of_fill hfill
    have hrest : b.rest = filled.rest := hafter.rest
    have hne : b.rest.isEmpty = false := hrest ▸ isEmpty_rest hheld
    rw [Page.replayFrom, hne, hzero, if_neg (by simp), if_neg (by simp)]
    split
    · next hnext' => cases (next_of_error (hrest ▸ hnext')).symm.trans hnext
    · next hnext' =>
      obtain ⟨b₁, hread, hmore, hcapacity, hfails⟩ := next_of_ok (hrest ▸ hnext')
      cases hread.symm.trans hnext
      rw [hcapacity, hafter.capacity, hmore, hfails, hafter.fails] at ih
      exact ih hc hf hzero

/-- Where nothing can be held, every file looks empty. -/
theorem replay_zero (e : Encoding) (portions : List Nat) (source : Source) :
    replay e 0 portions source =
      if source.bytes.isEmpty && source.fails then .error .io else .ok ⟨[], 0, none⟩ := by
  unfold replay replayFrom
  obtain ⟨hend, hfill⟩ | ⟨hend, b, hfill, hheld⟩ := fill_ofSource_zero portions source
  · rw [hend, if_pos rfl]
    split
    · next hfault =>
      cases hfault.symm.trans hfill
      rfl
    · next hfilled => cases hfilled.symm.trans hfill
  · rw [hend, if_neg Bool.false_ne_true]
    split
    · next hfault => cases hfault.symm.trans hfill
    · next hfilled =>
      cases hfilled.symm.trans hfill
      rw [if_pos hheld]
      rfl

/-- A replay through a buffer, of whatever capacity, is a replay of the bytes; only whether the buffer can hold
something matters there. -/
theorem replay_eq (e : Encoding) (capacity : Nat) (portions : List Nat) (source : Source) :
    replay e capacity portions source = Page.replay e capacity source := by
  obtain rfl | hc := Nat.eq_zero_or_pos capacity
  · have hnone : (source.bytes.isEmpty || 0 == 0) = true := Bool.or_true _
    rw [replay_zero, Page.replay, Page.replayFrom, if_pos hnone]
    rfl
  · exact replayFrom_eq (b := ofSource capacity portions source) hc rfl 0 []

end Page.Buffered

theorem Page.replay_of_pos [Codecs] (e : Encoding) {n m : Nat} (hn : 0 < n) (hm : 0 < m) (source : Source) :
    replay e n source = replay e m source :=
  replayFrom_congr (by omega) rfl rfl _ _ _

namespace Block

/-- The block with another size of the buffer for reading. -/
def withBuffer (n : Nat) (b : Block) : Block := { b with options := { b.options with readBuffer := n } }

end Block

namespace Log

def withBuffer (n : Nat) (log : Log) : Log := ⟨{ log.options with readBuffer := n }⟩

def Rescan.withBuffer (n : Nat) (s : Rescan) : Rescan := { s with blocks := s.blocks.map (·.withBuffer n) }

section

variable (n : Nat) (log : Log) (name : String) (path : Path) (derive : Deriver) (additional : Duration) (clock : Clock)
  (s : Rescan)

theorem ofReplay_withBuffer (descriptor : Descriptor) (r : Replay) (d : Disk) :
    Block.ofReplay descriptor path r (log.withBuffer n).options d =
      ((Block.ofReplay descriptor path r log.options d).1.map (·.withBuffer n),
        (Block.ofReplay descriptor path r log.options d).2) := by
  unfold Block.ofReplay
  cases d.openAppend path with
  | error fault => rfl
  | ok opened =>
    dsimp only
    generalize Block.trim opened.1 r.validEnd opened.2 = trimmed
    obtain ⟨succeeds, disk⟩ := trimmed
    cases succeeds <;> rfl

theorem remove_withBuffer : (s.withBuffer n).remove path = (s.remove path).withBuffer n := by
  have hdisk : (s.withBuffer n).disk = s.disk := rfl
  unfold Rescan.remove
  rw [hdisk]
  cases s.disk.removeFile path <;> rfl

theorem recover_withBuffer (descriptor : Descriptor) (r : Replay) (first : Record) :
    (log.withBuffer n).recover name descriptor path r first derive additional clock (s.withBuffer n) =
      ((log.recover name descriptor path r first derive additional clock s).1.map (·.withBuffer n),
        (log.recover name descriptor path r first derive additional clock s).2.withBuffer n) := by
  have hnoted : (if r.warning.isSome then (s.withBuffer n).note (.damagedTail name r.records.length)
      else s.withBuffer n) =
      (if r.warning.isSome then s.note (.damagedTail name r.records.length) else s).withBuffer n := by
    split <;> rfl
  unfold recover
  rw [hnoted]
  generalize (if r.warning.isSome then s.note (.damagedTail name r.records.length) else s) = noted
  have hdisk : (noted.withBuffer n).disk = noted.disk := rfl
  dsimp only
  rw [hdisk]
  generalize derive first.id descriptor.dataEncoding noted.disk = answer
  obtain ⟨range, disk⟩ := answer
  cases range with
  | error reason => rfl
  | ok range =>
    dsimp only
    rw [ofReplay_withBuffer]
    generalize Block.ofReplay descriptor path r log.options disk = made
    obtain ⟨made, disk'⟩ := made
    cases made <;> rfl

theorem settle_withBuffer (result : Except Error (Option Block)) :
    settle name path (result.map (·.map (·.withBuffer n)), s.withBuffer n) =
      (settle name path (result, s)).withBuffer n := by
  cases result with
  | ok found =>
    cases found with
    | some b => rfl
    | none => exact remove_withBuffer n path (s.note (.emptyFile name))
  | error fault =>
    cases fault with
    | io => rfl
    | _ => exact remove_withBuffer n path (s.note (.unusable name))

variable [Codecs] {n} {log}

theorem replayFile_withBuffer (hn : 0 < n) (hb : 0 < log.options.readBuffer) :
    (log.withBuffer n).replayFile name path derive additional clock (s.withBuffer n) =
      ((log.replayFile name path derive additional clock s).1.map (·.map (·.withBuffer n)),
        (log.replayFile name path derive additional clock s).2.withBuffer n) := by
  have hreplay : ∀ e source, replay e (log.withBuffer n).options.readBuffer source =
      replay e log.options.readBuffer source := fun e source => replay_of_pos e hn hb source
  have hdisk : (s.withBuffer n).disk = s.disk := rfl
  unfold replayFile
  rw [hdisk]
  cases Descriptor.parse name with
  | error fault => rfl
  | ok descriptor =>
    dsimp only
    cases s.disk.openRead path with
    | error fault => rfl
    | ok handle =>
      dsimp only
      rw [hreplay]
      cases replay descriptor.encoding log.options.readBuffer (s.disk.source handle) with
      | error fault => rfl
      | ok r =>
        dsimp only
        cases hr : r.records with
        | nil => rfl
        | cons first rest =>
          dsimp only
          rw [recover_withBuffer]
          cases (log.recover name descriptor path r first derive additional clock s).1 <;> rfl

theorem visit_withBuffer (hn : 0 < n) (hb : 0 < log.options.readBuffer) (entry : String × Node) :
    (log.withBuffer n).visit derive additional clock (s.withBuffer n) entry =
      (log.visit derive additional clock s entry).withBuffer n := by
  obtain ⟨name, node⟩ := entry
  by_cases hd : node = .directory
  · simp [visit, hd]
  · rw [visit_of_ne additional clock hd, visit_of_ne additional clock hd]
    have hfile := replayFile_withBuffer name (log.options.root ++ [name]) derive additional clock
      (s.note (.beginningReplay name)) hn hb
    exact (congrArg (settle name (log.options.root ++ [name])) hfile).trans (settle_withBuffer n name _ _ _)

theorem foldl_withBuffer (hn : 0 < n) (hb : 0 < log.options.readBuffer) (entries : List (String × Node)) :
    entries.foldl ((log.withBuffer n).visit derive additional clock) (s.withBuffer n) =
      (entries.foldl (log.visit derive additional clock) s).withBuffer n := by
  induction entries generalizing s with
  | nil => rfl
  | cons entry entries ih => rw [List.foldl_cons, visit_withBuffer derive additional clock s hn hb, ih, List.foldl_cons]

/-- Through buffers that can hold something, rescans differ in nothing but what the blocks know of these. -/
theorem rescan_withBuffer (hn : 0 < n) (hb : 0 < log.options.readBuffer) (d : Disk) :
    (log.withBuffer n).rescan derive additional clock d =
      (log.rescan derive additional clock d).map (·.withBuffer n) := by
  have hroot : (log.withBuffer n).options.root = log.options.root := rfl
  unfold rescan
  rw [hroot]
  cases d.list log.options.root with
  | error fault => rfl
  | ok entries => exact congrArg Except.ok (foldl_withBuffer derive additional clock { disk := d } hn hb entries)

end

/-- Reading through a buffer of `n` bytes is as good as reading as the log does: replays give the same, so do rescans,
and no file that is worth keeping goes. -/
structure Indifferent [Codecs] (n : Nat) (log : Log) : Prop where
  bytes : ∀ e portions source, Buffered.replay e n portions source = replay e log.options.readBuffer source
  replay : ∀ e portions portions' source,
    Buffered.replay e n portions source = Buffered.replay e log.options.readBuffer portions' source
  rescan : ∀ derive additional clock d,
    (log.withBuffer n).rescan derive additional clock d = (log.rescan derive additional clock d).map (·.withBuffer n)
  spared : ∀ derive additional clock d place name id descriptor x, Quiet derive →
    d.find? true log.options.root = .ok (place, some .directory) → Worthy derive d place name id descriptor x →
    ∃ s, (log.withBuffer n).rescan derive additional clock d = .ok s ∧ Worthy derive s.disk place name id descriptor x

/-- The size of a buffer that can hold something changes no answer, only how fast it comes. -/
theorem indifferent_of_pos [Codecs] {n : Nat} {log : Log} (hn : 0 < n) (hb : 0 < log.options.readBuffer) :
    Indifferent n log where
  bytes e portions source := (Buffered.replay_eq e n portions source).trans (replay_of_pos e hn hb source)
  replay e portions portions' source := by
    rw [Buffered.replay_eq, Buffered.replay_eq]
    exact replay_of_pos e hn hb source
  rescan derive additional clock d := rescan_withBuffer derive additional clock hn hb d
  spared _ additional clock _ _ _ _ _ _ hq hd h := spared_rescan additional clock hn hq hd h

theorem worthy_sampleDisk : Worthy (.ofPure fun _ _ => .ok (0, 0)) sampleDisk ["wal"]
    (Descriptor.filename ⟨.zero, "t", .none, ""⟩) 0 ⟨.zero, "t", .none, ""⟩ ⟨[7], [8], samplePage⟩ where
  node := rfl
  parse := Descriptor.parse_filename (@Descriptor.isWritable_of_create .zero "t" "" .none _ rfl)
  valid := isPage_sample
  begins := ⟨[84], rfl⟩
  derives _ := ⟨_, rfl⟩

theorem indifferent_sampleDisk : ∃ s,
    Log.rescan ⟨{ root := ["wal"], encoding := .none, readBuffer := 1 }⟩ (.ofPure fun _ _ => .ok (0, 0)) .zero
      (fun _ => 0) sampleDisk = .ok s ∧
    s.disk.node? (["wal"] ++ [Descriptor.filename ⟨.zero, "t", .none, ""⟩]) = some (.file 0) := by
  obtain ⟨s, hs, h⟩ := (@indifferent_of_pos _ 1 ⟨{ root := ["wal"], encoding := .none }⟩ Nat.one_pos
    (Nat.succ_pos _)).spared (.ofPure fun _ _ => .ok (0, 0)) .zero (fun _ => 0) sampleDisk _ _ _ _ _ (fun _ _ _ => rfl)
    isRegular_sampleDisk.found worthy_sampleDisk
  exact ⟨s, hs, h.node⟩

/-- Where nothing can be held, the page of `samplePage` is not seen. -/
theorem not_forall_indifferent : ¬ ∀ n log, Indifferent n log := by
  intro h
  have hsame := (h 0 ⟨{ root := ["wal"], encoding := .none, readBuffer := 1 }⟩).replay .none [] [] (.ofBytes samplePage)
  obtain ⟨warning, -, hpage⟩ := @replay_joined _ .none 1 Nat.one_pos [⟨[7], [8], samplePage⟩]
    (List.forall_mem_singleton.2 isPage_sample) [] noPage_nil
  rw [joined_cons, joined_nil, List.append_nil, List.append_nil] at hpage
  rw [Buffered.replay_zero, Buffered.replay_eq, if_neg (by decide)] at hsame
  cases hsame.trans hpage

end Log

end WriteAhead
