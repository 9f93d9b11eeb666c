import Mathlib.Data.List.Nodup
import WriteAhead.Proofs.Rescan

/-!
Rescanning a directory once more. Main statements: what a rescan leaves of a directory is settled, each file being
all of a block (`settled_of_progress`), and so the next rescan takes the same blocks back, without any change and
without complaint (`repeats_of_rescan`).
-/

namespace WriteAhead

open Page

/-- What is worth a line even if nothing is wrong with any file. -/
inductive Event.IsRoutine : Event → Prop
  | begins (file : String) : IsRoutine (.beginningReplay file)
  | completes (file : String) (records : Nat) : IsRoutine (.replayComplete file records)
  | resets (tenant : String) (block : Uuid) : IsRoutine (.outsideSlack tenant block)

namespace Log

/-- A rescan that has found nothing to do. -/
structure Idle (d : Disk) (s : Rescan) : Prop where
  disk : s.disk = d
  events : ∀ event ∈ s.events, event.IsRoutine

theorem idle_note {d : Disk} {s : Rescan} (h : Idle d s) {event : Event} (he : event.IsRoutine) :
    Idle d (s.note event) where
  disk := h.disk
  events := List.forall_mem_append.2 ⟨h.events, List.forall_mem_singleton.2 he⟩

theorem isRoutine_of_adjust {b : Block} {now start stop : UInt32} {additional : Duration} :
    ∀ event ∈ (b.adjust now start stop additional).2, event.IsRoutine := by
  intro event hevent
  dsimp only [Block.adjust] at hevent
  split at hevent
  · cases hevent
  · cases List.mem_singleton.1 hevent
    exact .resets _ _

/-- Where nothing has to be cut, a block is taken back from the disk as it is. -/
theorem recover_of_length (log : Log) (name : String) {descriptor : Descriptor} {path : Path} {r : Replay}
    {first : Record} {derive : Deriver} (additional : Duration) (clock : Clock) {range : UInt32 × UInt32} {id : FileId}
    {s : Rescan} (hw : r.warning = none) (hd : derive first.id descriptor.dataEncoding s.disk = (.ok range, s.disk))
    (ho : s.disk.openAppend path = .ok (id, s.disk)) (hl : (s.disk.content id).length = r.validEnd) :
    ∃ b events, (∀ event ∈ events, event.IsRoutine) ∧
      log.recover name descriptor path r first derive additional clock s = (.ok b, { s with
        hints := (first.id, descriptor.dataEncoding) :: s.hints
        events := s.events ++ events }) := by
  rw [recover, hw]
  dsimp only
  rw [if_neg (by simp), hd]
  dsimp only
  rw [Block.ofReplay, ho]
  dsimp only
  rw [Block.trim_of_length hl]
  exact ⟨_, _, isRoutine_of_adjust, rfl⟩

/-- Each file of the directory is all of a block. -/
structure Settled [Codecs] (log : Log) (find : Bytes → String → Except String (UInt32 × UInt32)) (d : Disk)
    (place : Path) : Prop where
  regular : d.IsRegular log.options.root place
  whole : ∀ name id, d.node? (place ++ [name]) = some (.file id) → ∃ descriptor r first rest range,
    log.readable? name (d.content id) = some (descriptor, r) ∧ r.validEnd = (d.content id).length ∧
      r.records = first :: rest ∧ find first.id descriptor.dataEncoding = .ok range

/-- Two lists give the same if they have the same items that give anything. -/
theorem filterMap_perm {α β : Type} {xs ys : List α} {f g : α → Option β} (hx : xs.Nodup) (hy : ys.Nodup)
    (hsame : ∀ x b, x ∈ xs ∧ f x = some b ↔ x ∈ ys ∧ g x = some b) : (xs.filterMap f).Perm (ys.filterMap g) := by
  -- with its item, nothing is given twice
  have hpairs : ∀ (zs : List α) (k : α → Option β),
      zs.filterMap k = (zs.filterMap fun z => (k z).map (z, ·)).map (·.2) := by
    intro zs k
    rw [List.map_filterMap]
    congr 1
    funext z
    cases k z <;> rfl
  have hnodup : ∀ {zs : List α} (k : α → Option β), zs.Nodup → (zs.filterMap fun z => (k z).map (z, ·)).Nodup := by
    intro zs k hz
    refine hz.filterMap fun z z' pair hpair hpair' => ?_
    obtain ⟨_, _, hb⟩ := Option.map_eq_some_iff.1 hpair
    obtain ⟨_, _, hb'⟩ := Option.map_eq_some_iff.1 hpair'
    exact congrArg Prod.fst (hb.trans hb'.symm)
  rw [hpairs xs f, hpairs ys g]
  apply List.Perm.map
  rw [List.perm_ext_iff_of_nodup (hnodup f hx) (hnodup g hy)]
  rintro ⟨z, b⟩
  have hmem : ∀ (zs : List α) (k : α → Option β),
      (z, b) ∈ (zs.filterMap fun z => (k z).map (z, ·)) ↔ z ∈ zs ∧ k z = some b := by
    intro zs k
    rw [List.mem_filterMap]
    constructor
    · rintro ⟨w, hw, hb⟩
      obtain ⟨c, hc, he⟩ := Option.map_eq_some_iff.1 hb
      cases he
      exact ⟨hw, hc⟩
    · rintro ⟨hz, hb⟩
      exact ⟨z, hz, by rw [hb]; rfl⟩
  rw [hmem, hmem, hsame]

section

variable [Codecs] {log : Log} {find : Bytes → String → Except String (UInt32 × UInt32)} {additional : Duration}
  {clock clock' : Clock} {d : Disk} {place : Path} {inner : List String} {s : Rescan} {name : String} {id : FileId}
  {bytes : Bytes} {descriptor : Descriptor} {r : Replay}

/-- Of a file that can be read to its end there is nothing to complain about. -/
theorem replay_of_validEnd (h : log.readable? name bytes = some (descriptor, r)) (hend : r.validEnd = bytes.length) :
    r.warning = none ∧ replay descriptor.encoding log.options.readBuffer (.ofBytes bytes) = .ok r := by
  have hb := pos_of_readable? h
  obtain ⟨xs, tail, -, hx, ht, rfl, rfl⟩ := exists_joined_of_readable? hb h
  obtain ⟨warning, hw, hreplay⟩ := replay_joined hb hx ht
  have htail : tail = [] := by
    rw [List.length_append] at hend
    exact List.eq_nil_of_length_eq_zero (by dsimp only at hend; omega)
  rw [hw.2 htail] at hreplay
  exact ⟨rfl, hreplay⟩

/-- A visit to a file that is all of a block. -/
theorem idle_file (hset : Settled log find d place) (hh : d.IsHome log.options.root place inner)
    (hf : d.node? (place ++ [name]) = some (.file id)) (h : Idle d s) :
    Idle d (log.visit (.ofPure find) additional clock s (name, .file id)) := by
  obtain ⟨descriptor, r, first, rest, range, hr, hend, hrecords, hrange⟩ := hset.whole name id hf
  obtain ⟨hn, ht⟩ := hset.regular.name name id hf
  obtain ⟨-, hc⟩ := hset.regular.file name id hf
  obtain ⟨hp, hne, -⟩ := exists_replay_of_readable? hr
  obtain ⟨hw, hreplay⟩ := replay_of_validEnd hr hend
  have hopen := Disk.openRead_name hh hn ht hf
  have hfinds : Finds log d name descriptor id r := ⟨hp, hopen, (Disk.source_of_isCalm hc).symm ▸ hreplay, hne⟩
  have hderive : Deriver.ofPure find first.id descriptor.dataEncoding d = (.ok range, d) := congrArg (·, d) hrange
  have hbegun := idle_note h (.begins name)
  obtain rfl := h.disk
  obtain ⟨b, events, hroutine, hrecover⟩ := recover_of_length (s := s.note (.beginningReplay name)) log name additional
    clock hw hderive (Disk.openAppend_of_openRead hopen) hend.symm
  rw [visit_of_ne additional clock (by simp),
    replayFile_eq_recover (s := s.note (.beginningReplay name)) additional clock hfinds hrecords, hrecover]
  have hevents := List.forall_mem_append.2 ⟨hbegun.events, hroutine⟩
  exact ⟨rfl, List.forall_mem_append.2 ⟨hevents, List.forall_mem_singleton.2 (.completes name _)⟩⟩

/-- The whole directory. -/
theorem idle_foldl (hset : Settled log find d place) (hh : d.IsHome log.options.root place inner)
    {items : List (String × Node)} (hitems : ∀ item ∈ items, d.node? (place ++ [item.1]) = some item.2)
    (h : Idle d s) : Idle d (items.foldl (log.visit (.ofPure find) additional clock) s) := by
  induction items generalizing s with
  | nil => exact h
  | cons item items ih =>
    obtain ⟨name, node⟩ := item
    have hnode := hitems _ List.mem_cons_self
    apply ih fun item hmem => hitems item (List.mem_cons_of_mem _ hmem)
    obtain rfl | ⟨id, rfl⟩ := hset.regular.node name node hnode
    · rw [visit, if_pos rfl]
      exact h
    · exact idle_file hset hh hnode h

theorem idle_of_settled (hset : Settled log find d place) (h : log.rescan (.ofPure find) additional clock d = .ok s) :
    Idle d s := by
  obtain ⟨inner, hhome⟩ := Disk.exists_isHome hset.regular
  rw [rescan, Disk.list_of_find? hset.regular.found] at h
  cases h
  exact idle_foldl hset hhome (fun _ hitem => (Disk.mem_listing_iff hset.regular.nodup).1 hitem) ⟨rfl, by simp⟩

omit [Codecs] in
theorem sublist_of_removeFile {d' : Disk} {path : Path} (h : d.removeFile path = .ok d') :
    d'.entries.Sublist d.entries := by
  unfold Disk.removeFile at h
  split at h
  · cases h
  · cases h
  · cases h
  · cases h
    exact List.filter_sublist

theorem sublist_visit {derive : Deriver} (hq : Quiet derive) (s : Rescan) (item : String × Node) :
    (log.visit derive additional clock s item).disk.entries.Sublist s.disk.entries := by
  obtain ⟨name, node⟩ := item
  obtain hv | ⟨descriptor, id, r, hv⟩ := @visit_cases _ log derive additional clock hq s name node
  · obtain hd | hd := hv.disk
    · rw [hd]
    · exact sublist_of_removeFile hd
  · rw [hv.disk, (Block.trim_frame id r.validEnd s.disk).1]

theorem sublist_foldl {derive : Deriver} (hq : Quiet derive) (s : Rescan) (items : List (String × Node)) :
    (items.foldl (log.visit derive additional clock) s).disk.entries.Sublist s.disk.entries := by
  induction items generalizing s with
  | nil => exact List.Sublist.refl _
  | cons item items ih => exact (ih _).trans (sublist_visit hq s item)

theorem readable?_of_zero (hz : log.options.readBuffer = 0) (name : String) (bytes : Bytes) :
    log.readable? name bytes = none := by
  rw [Option.eq_none_iff_forall_ne_some]
  rintro ⟨descriptor, r⟩ hr
  exact absurd hz (Nat.ne_of_gt (pos_of_readable? hr))

/-- The first rescan, whatever the size of the buffer. -/
theorem exists_progress_of_isRegular (hd : d.IsRegular log.options.root place) :
    ∃ inner s, log.rescan (.ofPure find) additional clock d = .ok s ∧
      Progress log find additional clock d place inner (d.listing place) s := by
  apply exists_progress hd
  intro inner before s name id h hnew hf
  apply progress_file h hd hnew hf
  obtain hz | hb := Nat.eq_zero_or_pos log.options.readBuffer
  · rw [readable?_of_zero hz, readable?_of_zero hz]
  · exact readable?_of_progress hb h name id

/-- What is left of a file with a block reads as the file did. -/
theorem readable?_of_kept {b : Block} {d' : Disk}
    (hblock : log.block? find additional (clock name) name id (d.content id) = some b)
    (hcut : d'.content id = (d.content id).take b.writer.size) :
    log.readable? name (d'.content id) = log.readable? name (d.content id) := by
  obtain ⟨descriptor, r, hr, hend⟩ := exists_readable?_of_block? hblock
  rw [hcut, ← hend]
  exact readable?_take (pos_of_readable? hr) hr name

theorem settled_of_progress (hd : d.IsRegular log.options.root place)
    (h : Progress log find additional clock d place inner (d.listing place) s)
    (hsub : s.disk.entries.Sublist d.entries) : Settled log find s.disk place ∧ s.disk.Extends d := by
  have hnodup : (s.disk.entries.map (·.1)).Nodup := hd.nodup.sublist (hsub.map _)
  have hextends : s.disk.Extends d := by
    intro k node hn
    by_cases hk : k = []
    · rw [hk, Disk.node?, if_pos rfl] at hn ⊢
      exact hn
    · rw [Disk.node?_eq_some_iff hnodup hk] at hn
      exact (Disk.node?_eq_some_iff hd.nodup hk).2 (hsub.subset hn)
  refine ⟨⟨⟨Disk.find?_of_isHome h.home, hnodup, fun name node hn => hd.node name node (hextends _ _ hn),
    fun name id hn => hd.name name id (hextends _ _ hn), fun name id hn => ?_⟩, fun name id hn => ?_⟩, hextends⟩
  · obtain ⟨hid, hc⟩ := hd.file name id (hextends _ _ hn)
    exact ⟨h.length ▸ hid, h.calm id hid hc⟩
  · have hlisted := (Disk.mem_listing_iff hd.nodup).2 (hextends _ _ hn)
    cases hblock : log.block? find additional (clock name) name id (d.content id) with
    | none => cases (h.removed name id hlisted hblock).symm.trans hn
    | some b =>
      have hcut := h.cut name id b hlisted hblock
      obtain ⟨descriptor, r, first, rest, range, hr, hend, hrecords, hrange⟩ := exists_range_of_block? hblock
      refine ⟨descriptor, r, first, rest, range, (readable?_of_kept hblock hcut).trans hr, ?_, hrecords, hrange⟩
      rw [hcut, List.length_take, ← hend, Nat.min_eq_left (validEnd_le (pos_of_readable? hr) hr)]

theorem settled_of_perm {d' : Disk} (h : Settled log find d place) (hp : d'.entries.Perm d.entries)
    (hf : d'.files = d.files) : Settled log find d' place where
  regular := Disk.isRegular_of_perm h.regular hp hf
  whole name id hn := by
    rw [Disk.content, Disk.file_of_files hf]
    exact h.whole name id ((Disk.node?_of_perm h.regular.nodup hp _).symm.trans hn)

/-- The blocks of what is left of a directory are those that there were. -/
theorem blocks_perm (hd : d.IsRegular log.options.root place)
    (h : Progress log find additional clock d place inner (d.listing place) s)
    (hset : Settled log find s.disk place) (hextends : s.disk.Extends d) :
    (((s.disk.listing place).filterMap (log.blockOf? find additional clock' s.disk)).map Block.timeless).Perm
      (((d.listing place).filterMap (log.blockOf? find additional clock d)).map Block.timeless) := by
  have hrescanned := rescanned_of_progress hd h
  have hfile : ∀ {name id b}, log.block? find additional (clock name) name id (d.content id) = some b →
      s.disk.content id = (d.content id).take b.writer.size →
      (log.block? find additional (clock' name) name id (s.disk.content id)).map Block.timeless = some b.timeless := by
    intro name id b hblock hcut
    rw [timeless_block? find additional (clock name) (clock' name),
      (block?_congr find additional (clock name) id (readable?_of_kept hblock hcut)).1, hblock]
    rfl
  rw [List.map_filterMap, List.map_filterMap]
  apply filterMap_perm (List.Nodup.of_map _ (Disk.nodup_listing hset.regular.nodup place))
    (List.Nodup.of_map _ (Disk.nodup_listing hd.nodup place))
  rintro ⟨name, node⟩ b
  rw [Disk.mem_listing_iff hset.regular.nodup, Disk.mem_listing_iff hd.nodup]
  cases node with
  | directory => simp [blockOf?]
  | link target => simp [blockOf?]
  | file id =>
    constructor
    · rintro ⟨hnode, hb⟩
      have hnode' := hextends _ _ hnode
      cases hblock : log.block? find additional (clock name) name id (d.content id) with
      | none => cases (hrescanned.removed name id hnode' hblock).symm.trans hnode
      | some b₀ =>
        have hkept := hrescanned.kept name id b₀ hnode' hblock
        refine ⟨hnode', ?_⟩
        rw [blockOf?, hblock]
        exact (hfile hblock hkept.2).symm.trans hb
    · rintro ⟨hnode, hb⟩
      obtain ⟨b₀, hblock, rfl⟩ := Option.map_eq_some_iff.1 hb
      have hkept := hrescanned.kept name id b₀ hnode hblock
      exact ⟨hkept.1, hfile hblock hkept.2⟩

/-- A rescan of the disk `d` after the rescan that ended with `s`. -/
structure Repeats (s : Rescan) (d : Disk) (s' : Rescan) : Prop where
  disk : s'.disk = d
  blocks : (s'.blocks.map Block.timeless).Perm (s.blocks.map Block.timeless)
  events : ∀ event ∈ s'.events, event.IsRoutine

/-- A rescan leaves nothing to do for the next one, in whatever order this lists the directory and whatever time it
is then. -/
theorem repeats_of_rescan (hd : d.IsRegular log.options.root place)
    (find : Bytes → String → Except String (UInt32 × UInt32)) (additional : Duration) (clock clock' : Clock) :
    ∃ s, log.rescan (.ofPure find) additional clock d = .ok s ∧
      ∀ d' : Disk, d'.entries.Perm s.disk.entries → d'.files = s.disk.files →
        ∃ s', log.rescan (.ofPure find) additional clock' d' = .ok s' ∧ Repeats s d' s' := by
  obtain ⟨inner, s, hs, h⟩ := @exists_progress_of_isRegular _ log find additional clock d place hd
  refine ⟨s, hs, fun d' hp hf => ?_⟩
  have hsub : s.disk.entries.Sublist d.entries := by
    rw [rescan, Disk.list_of_find? hd.found] at hs
    cases hs
    exact sublist_foldl (fun _ _ _ => rfl) _ _
  obtain ⟨hset, hextends⟩ := settled_of_progress hd h hsub
  have hset' := settled_of_perm hset hp hf
  obtain ⟨inner', s', hs', h'⟩ := @exists_progress_of_isRegular _ log find additional clock' d' place hset'.regular
  obtain ⟨hdisk, hevents⟩ := idle_of_settled hset' hs'
  have hblocks' := (rescanned_of_progress hset'.regular h').blocks
  rw [blockOf?_of_files hf] at hblocks'
  refine ⟨s', hs', hdisk, ?_, hevents⟩
  calc (s'.blocks.map Block.timeless).Perm
        (((d'.listing place).filterMap (log.blockOf? find additional clock' s.disk)).map Block.timeless) :=
      hblocks'.map _
    List.Perm _ (((s.disk.listing place).filterMap (log.blockOf? find additional clock' s.disk)).map Block.timeless) :=
      ((Disk.listing_perm hp place).filterMap _).map _
    List.Perm _ (((d.listing place).filterMap (log.blockOf? find additional clock d)).map Block.timeless) :=
      blocks_perm hd h hset hextends
    List.Perm _ (s.blocks.map Block.timeless) := ((rescanned_of_progress hd h).blocks.map _).symm

end

theorem repeats_sampleDisk : ∃ s s',
    Log.rescan ⟨{ root := ["wal"], encoding := .none }⟩ (.ofPure fun _ _ => .ok (0, 0)) .zero (fun _ => 0)
        sampleDisk = .ok s ∧
      Log.rescan ⟨{ root := ["wal"], encoding := .none }⟩ (.ofPure fun _ _ => .ok (0, 0)) .zero (fun _ => 60)
        s.disk = .ok s' ∧
      Repeats s s.disk s' := by
  obtain ⟨s, hs, h⟩ := @repeats_of_rescan _ ⟨{ root := ["wal"], encoding := .none }⟩ _ _ isRegular_sampleDisk
    (fun _ _ => .ok (0, 0)) .zero (fun _ => 0) (fun _ => 60)
  obtain ⟨s', hs', hrepeats⟩ := h s.disk (List.Perm.refl _) rfl
  exact ⟨s, s', hs, hs', hrepeats⟩

end Log

end WriteAhead
