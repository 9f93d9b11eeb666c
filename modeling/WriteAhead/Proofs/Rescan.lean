import Mathlib.Data.List.Basic
import WriteAhead.Proofs.Directory
import WriteAhead.Proofs.Readable

/-!
Rescans of directories of regular files. Main statements: what a visit makes of a file depends on its name, its bytes
and what the clock says then (`visit_file`), and so what a rescan makes of a directory is what it makes of the files one
by one, in whatever order these are listed (`rescanned_of_isRegular`).
-/

namespace WriteAhead

open Page

/-- A deriver that only looks at what it is asked. -/
def Deriver.ofPure (find : Bytes → String → Except String (UInt32 × UInt32)) : Deriver :=
  fun id dataEncoding d => (find id dataEncoding, d)

namespace Log

theorem mem_concat_file {before : List (String × Node)} {name other : String} {id other' : FileId}
    (h : (other, Node.file other') ∈ before ++ [(name, .file id)]) :
    (other, Node.file other') ∈ before ∨ other = name ∧ other' = id := by
  obtain h | h := List.mem_append.1 h
  · exact .inl h
  · cases List.mem_singleton.1 h
    exact .inr ⟨rfl, rfl⟩

theorem filterMap_concat_reverse {α β : Type} (f : α → Option β) (xs : List α) (x : α) :
    ((xs ++ [x]).filterMap f).reverse = (f x).toList ++ (xs.filterMap f).reverse := by
  cases hx : f x <;> simp [List.filterMap_append, hx]

section

variable [Codecs] {log : Log} (find : Bytes → String → Except String (UInt32 × UInt32)) (additional : Duration)
  (clock : Clock) {place : Path} {inner : List String} {s : Rescan} {name : String} {id : FileId}

omit [Codecs] in
theorem remove_file (hh : s.disk.IsHome log.options.root place inner) (hn : Disk.IsPlain name)
    (ht : Disk.isText [name] = true) (hf : s.disk.node? (place ++ [name]) = some (.file id)) (event : Event) :
    ∃ events, (s.note event).remove (log.options.root ++ [name]) =
      { s with disk := s.disk.erase (place ++ [name]), events } := by
  have hremoved : (s.note event).disk.removeFile (log.options.root ++ [name]) = .ok (s.disk.erase (place ++ [name])) :=
    Disk.removeFile_name hh hn ht hf
  unfold Rescan.remove
  rw [hremoved]
  exact ⟨_, rfl⟩

theorem replayFile_of_unreadable (derive : Deriver) (ho : s.disk.openRead (log.options.root ++ [name]) = .ok (.file id))
    (hc : s.disk.IsCalm id) (h : log.readable? name (s.disk.content id) = none) :
    ∃ result, (log.replayFile name (log.options.root ++ [name]) derive additional clock s) = (result, s) ∧
      (result = .ok none ∨ ∃ fault, fault ≠ .io ∧ result = .error fault) := by
  unfold readable? at h
  unfold replayFile
  cases hp : Descriptor.parse name with
  | error fault =>
    refine ⟨_, rfl, .inr ⟨fault, ?_, rfl⟩⟩
    rintro rfl
    exact parse_ne_io hp
  | ok descriptor =>
    obtain ⟨r, hr⟩ := replayFrom_eq_ok (e := descriptor.encoding) log.options.readBuffer (.ofBytes (s.disk.content id))
      rfl (s.disk.content id) 0 []
    have hr : replay descriptor.encoding log.options.readBuffer (.ofBytes (s.disk.content id)) = .ok r := hr
    rw [hp] at h
    dsimp only at h ⊢
    rw [hr] at h
    rw [ho]
    dsimp only
    rw [Disk.source_of_isCalm hc, hr]
    dsimp only at h ⊢
    cases hrecords : r.records with
    | nil => exact ⟨_, rfl, .inl rfl⟩
    | cons first rest =>
      rw [if_neg (by simp [hrecords])] at h
      cases h

/-- What a visit makes of a file: without a block of its own the name goes, else the file is cut. -/
theorem visit_file (hh : s.disk.IsHome log.options.root place inner) (hn : Disk.IsPlain name)
    (ht : Disk.isText [name] = true) (hf : s.disk.node? (place ++ [name]) = some (.file id))
    (hid : id < s.disk.files.length) (hc : s.disk.IsCalm id) :
    ∃ events, log.visit (.ofPure find) additional clock s (name, .file id) =
      { disk := match log.block? find additional (clock name) name id (s.disk.content id) with
          | none => s.disk.erase (place ++ [name])
          | some b => (Block.trim id b.writer.size s.disk).2
        blocks := (log.block? find additional (clock name) name id (s.disk.content id)).toList ++ s.blocks
        hints := (log.hint? name (s.disk.content id)).toList ++ s.hints
        events } := by
  have hopen := Disk.openRead_name hh hn ht hf
  have hremove : ∀ s' event, s'.disk = s.disk → ∃ events, (Rescan.note s' event).remove (log.options.root ++ [name]) =
      { s' with disk := s.disk.erase (place ++ [name]), events } := by
    intro s' event hd
    rw [← hd] at hh hf ⊢
    exact remove_file hh hn ht hf event
  rw [visit_of_ne additional clock (by simp)]
  cases hr : log.readable? name (s.disk.content id) with
  | none =>
    have hhint : log.hint? name (s.disk.content id) = none := by rw [hint?, hr]; rfl
    have hblock : log.block? find additional (clock name) name id (s.disk.content id) = none := by rw [block?, hr]; rfl
    rw [hhint, hblock]
    obtain ⟨result, hresult, hfault⟩ := replayFile_of_unreadable (s := s.note (.beginningReplay name)) additional clock
      (.ofPure find) hopen hc hr
    rw [hresult]
    obtain rfl | ⟨fault, hne, rfl⟩ := hfault
    · exact hremove _ _ rfl
    · cases fault with
      | io => exact absurd rfl hne
      | _ => exact hremove _ _ rfl
  | some found =>
    obtain ⟨descriptor, r⟩ := found
    obtain ⟨hp, hne, warning, hreplay⟩ := exists_replay_of_readable? hr
    obtain ⟨first, rest, hfirst⟩ := List.exists_cons_of_ne_nil hne
    have hhint := hint?_eq hr hfirst
    have hfinds : Finds log (s.note (.beginningReplay name)).disk name descriptor id { r with warning } :=
      ⟨hp, hopen, (Disk.source_of_isCalm hc).symm ▸ hreplay, hne⟩
    rw [hhint, replayFile_eq_recover additional clock hfinds hfirst]
    cases hfind : find first.id descriptor.dataEncoding with
    | error reason =>
      have hderive : Deriver.ofPure find first.id descriptor.dataEncoding s.disk = (.error reason, s.disk) :=
        congrArg (·, s.disk) hfind
      obtain ⟨events, hrecover⟩ := exists_recover_of_error (s := s.note (.beginningReplay name)) log name
        (log.options.root ++ [name]) { r with warning } additional clock hderive
      rw [block?_eq_none hhint hfind, hrecover]
      exact hremove _ _ rfl
    | ok range =>
      have hderive : Deriver.ofPure find first.id descriptor.dataEncoding s.disk = (.ok range, s.disk) :=
        congrArg (·, s.disk) hfind
      obtain ⟨events, hrecover⟩ := exists_recover_of_ok (s := s.note (.beginningReplay name)) log name
        { r with warning } additional clock hderive (Disk.openAppend_of_openRead hopen)
      have hdisk : (s.note (.beginningReplay name)).disk = s.disk := rfl
      rw [block?_eq_some hr hhint hfind, hrecover, hdisk, (Block.trim_of_isCalm hid hc r.validEnd).1]
      exact ⟨_, rfl⟩

/-- The block of something in a directory, as the disk is. -/
def blockOf? (log : Log) (find : Bytes → String → Except String (UInt32 × UInt32)) (additional : Duration)
    (clock : Clock) (d : Disk) : String × Node → Option Block
  | (name, .file id) => log.block? find additional (clock name) name id (d.content id)
  | _ => none

/-- What the deriver is asked for it. -/
def hintOf? (log : Log) (d : Disk) : String × Node → Option (Bytes × String)
  | (name, .file id) => log.hint? name (d.content id)
  | _ => none

/-- How far a rescan is that began with the disk `d`, after what is listed in `before`. -/
structure Progress (log : Log) (find : Bytes → String → Except String (UInt32 × UInt32)) (additional : Duration)
    (clock : Clock) (d : Disk) (place : Path) (inner : List String) (before : List (String × Node)) (s : Rescan) :
    Prop where
  home : s.disk.IsHome log.options.root place inner
  length : s.disk.files.length = d.files.length
  calm : ∀ id < d.files.length, d.IsCalm id → s.disk.IsCalm id
  removed : ∀ name id, (name, .file id) ∈ before →
    log.block? find additional (clock name) name id (d.content id) = none → s.disk.node? (place ++ [name]) = none
  remains : ∀ k, (∀ name id, (name, .file id) ∈ before →
    log.block? find additional (clock name) name id (d.content id) = none → k ≠ place ++ [name]) →
      s.disk.node? k = d.node? k
  cut : ∀ name id b, (name, .file id) ∈ before →
    log.block? find additional (clock name) name id (d.content id) = some b →
      s.disk.content id = (d.content id).take b.writer.size
  uncut : ∀ id, (∀ name, (name, .file id) ∈ before →
    log.block? find additional (clock name) name id (d.content id) = none) → s.disk.file id = d.file id
  blocks : s.blocks = (before.filterMap (log.blockOf? find additional clock d)).reverse
  hints : s.hints = (before.filterMap (log.hintOf? d)).reverse

variable {find} {additional} {clock} {d : Disk} {before : List (String × Node)}

theorem cut_or_uncut_of_progress (h : Progress log find additional clock d place inner before s) (id : FileId) :
    s.disk.content id = d.content id ∨ ∃ other descriptor r, log.readable? other (d.content id) = some (descriptor, r) ∧
      s.disk.content id = (d.content id).take r.validEnd := by
  by_cases hcut : ∃ other b, (other, Node.file id) ∈ before ∧
      log.block? find additional (clock other) other id (d.content id) = some b
  · obtain ⟨other, b, hmem, hblock⟩ := hcut
    obtain ⟨descriptor, r, hr, hend⟩ := exists_readable?_of_block? hblock
    exact .inr ⟨other, descriptor, r, hr, hend ▸ h.cut other id b hmem hblock⟩
  · refine .inl (congrArg (·.content) (h.uncut id fun other hmem => ?_))
    rw [Option.eq_none_iff_forall_ne_some]
    exact fun b hblock => hcut ⟨other, b, hmem, hblock⟩

/-- What was done up to now does not change what can be read of a file. -/
theorem readable?_of_progress (hb : 0 < log.options.readBuffer)
    (h : Progress log find additional clock d place inner before s) (name : String) (id : FileId) :
    log.readable? name (s.disk.content id) = log.readable? name (d.content id) := by
  obtain hsame | ⟨other, descriptor, r, hr, hcut⟩ := cut_or_uncut_of_progress h id
  · rw [hsame]
  · rw [hcut]
    exact readable?_take hb hr name

/-- Cutting a file after all that was done leaves of it what cutting it first would have left. -/
theorem take_of_progress (h : Progress log find additional clock d place inner before s) {n : Nat}
    (hn : n ≤ (s.disk.content id).length) : (s.disk.content id).take n = (d.content id).take n := by
  obtain hsame | ⟨other, descriptor, r, hr, hcut⟩ := cut_or_uncut_of_progress h id
  · rw [hsame]
  · rw [hcut, List.length_take] at hn
    rw [hcut, List.take_take, Nat.min_eq_left (Nat.le_trans hn (Nat.min_le_left _ _))]

/-- A file without a block, which is removed. -/
theorem progress_removed {events : List Event} (h : Progress log find additional clock d place inner before s)
    (hf : s.disk.node? (place ++ [name]) = some (.file id))
    (hnone : log.block? find additional (clock name) name id (d.content id) = none) :
    Progress log find additional clock d place inner (before ++ [(name, .file id)])
      { disk := s.disk.erase (place ++ [name])
        blocks := s.blocks
        hints := (log.hint? name (d.content id)).toList ++ s.hints
        events } := by
  refine ⟨?_, h.length, fun other ho hc => Disk.isCalm_of_file (h.calm other ho hc) rfl,
    fun other id' hmem hblock => ?_, fun k hk => ?_, fun other id' b hmem hblock => ?_, fun id' hall => ?_, ?_, ?_⟩
  · refine Disk.isHome_erase h.home fun hn => ?_
    cases hf.symm.trans hn
  · by_cases he : other = name
    · rw [he]
      exact Disk.node?_erase _ (Disk.append_singleton_ne_nil place name)
    · have hne : place ++ [other] ≠ place ++ [name] := fun heq => he (List.append_singleton_inj.1 heq).2
      obtain hmem | ⟨rfl, -⟩ := mem_concat_file hmem
      · exact (Disk.node?_erase_of_ne _ hne).trans (h.removed other id' hmem hblock)
      · exact absurd rfl he
  · have hne := hk name id (List.mem_append_right _ List.mem_cons_self) hnone
    refine (Disk.node?_erase_of_ne _ hne).trans (h.remains k fun other id' hmem => ?_)
    exact hk other id' (List.mem_append_left _ hmem)
  · obtain hmem | ⟨rfl, rfl⟩ := mem_concat_file hmem
    · exact h.cut other id' b hmem hblock
    · cases hnone.symm.trans hblock
  · exact h.uncut id' fun other hmem => hall other (List.mem_append_left _ hmem)
  · rw [filterMap_concat_reverse, blockOf?, hnone, h.blocks]
    rfl
  · rw [filterMap_concat_reverse, hintOf?, h.hints]

/-- A file with a block, which is cut. -/
theorem progress_kept (hb : 0 < log.options.readBuffer) {events : List Event} {b : Block}
    (h : Progress log find additional clock d place inner before s) (hid : id < d.files.length) (hc : d.IsCalm id)
    (hsome : log.block? find additional (clock name) name id (d.content id) = some b) :
    Progress log find additional clock d place inner (before ++ [(name, .file id)])
      { disk := (Block.trim id b.writer.size s.disk).2
        blocks := b :: s.blocks
        hints := (log.hint? name (d.content id)).toList ++ s.hints
        events } := by
  obtain ⟨descriptor, r, hr, hend⟩ := exists_readable?_of_block? hsome
  obtain ⟨hentries, hlength, hframe⟩ := Block.trim_frame id b.writer.size s.disk
  obtain ⟨hcut, hcalm⟩ := Block.trim_of_isCalm (h.length.symm ▸ hid) (h.calm id hid hc) b.writer.size
  have hle : b.writer.size ≤ (s.disk.content id).length :=
    hend ▸ validEnd_le hb ((readable?_of_progress hb h name id).trans hr)
  have hcontent : (Block.trim id b.writer.size s.disk).2.content id = (d.content id).take b.writer.size := by
    have htrimmed := (Block.file_trim (h.length.symm ▸ hid) hle).1
    rw [hcut, if_pos rfl, take_of_progress h hle] at htrimmed
    exact htrimmed
  refine ⟨Disk.isHome_of_entries h.home hentries, hlength.trans h.length, fun other ho hc => ?_,
    fun other id' hmem hblock => ?_, fun k hk => ?_, fun other id' b' hmem hblock => ?_, fun id' hall => ?_, ?_, ?_⟩
  · by_cases he : other = id
    · exact he ▸ hcalm
    · exact Disk.isCalm_of_file (h.calm other ho hc) (hframe other he)
  · obtain hmem | ⟨rfl, rfl⟩ := mem_concat_file hmem
    · exact (Disk.node?_of_entries hentries _).trans (h.removed other id' hmem hblock)
    · cases hsome.symm.trans hblock
  · refine (Disk.node?_of_entries hentries k).trans (h.remains k fun other id' hmem => ?_)
    exact hk other id' (List.mem_append_left _ hmem)
  · by_cases he : id' = id
    · subst he
      obtain ⟨descriptor', r', hr', hend'⟩ := exists_readable?_of_block? hblock
      rw [← hend', validEnd_eq hb hr' hr, hend]
      exact hcontent
    · obtain hmem | ⟨-, rfl⟩ := mem_concat_file hmem
      · exact (congrArg (·.content) (hframe id' he)).trans (h.cut other id' b' hmem hblock)
      · exact absurd rfl he
  · have he : id' ≠ id := by
      rintro rfl
      cases hsome.symm.trans (hall name (List.mem_append_right _ List.mem_cons_self))
    exact (hframe id' he).trans (h.uncut id' fun other hmem => hall other (List.mem_append_left _ hmem))
  · rw [filterMap_concat_reverse, blockOf?, hsome, h.blocks]
    rfl
  · rw [filterMap_concat_reverse, hintOf?, h.hints]

/-- The next file. -/
theorem progress_file (h : Progress log find additional clock d place inner before s)
    (hd : d.IsRegular log.options.root place) (hnew : name ∉ before.map (·.1))
    (hf : d.node? (place ++ [name]) = some (.file id))
    (hsame : log.readable? name (s.disk.content id) = log.readable? name (d.content id)) :
    Progress log find additional clock d place inner (before ++ [(name, .file id)])
      (log.visit (.ofPure find) additional clock s (name, .file id)) := by
  obtain ⟨hn, ht⟩ := hd.name name id hf
  obtain ⟨hid, hc⟩ := hd.file name id hf
  have hnode : s.disk.node? (place ++ [name]) = some (.file id) := by
    refine (h.remains _ fun other id' hmem _ he => ?_).trans hf
    rw [(List.append_singleton_inj.1 he).2] at hnew
    exact hnew (List.mem_map.2 ⟨_, hmem, rfl⟩)
  obtain ⟨events, hvisit⟩ :=
    visit_file find additional clock h.home hn ht hnode (h.length.symm ▸ hid) (h.calm id hid hc)
  obtain ⟨hblock, hhint⟩ := block?_congr find additional (clock name) id hsame
  rw [hblock, hhint] at hvisit
  rw [hvisit]
  cases hfound : log.block? find additional (clock name) name id (d.content id) with
  | none => exact progress_removed h hnode hfound
  | some b =>
    obtain ⟨descriptor, r, hr, -⟩ := exists_readable?_of_block? hfound
    exact progress_kept (pos_of_readable? hr) h hid hc hfound

theorem progress_directory (h : Progress log find additional clock d place inner before s) (name : String) :
    Progress log find additional clock d place inner (before ++ [(name, .directory)])
      (log.visit (.ofPure find) additional clock s (name, .directory)) := by
  have hmem : ∀ {other id},
      (other, Node.file id) ∈ before ++ [(name, .directory)] ↔ (other, Node.file id) ∈ before := by simp
  have hvisit : log.visit (.ofPure find) additional clock s (name, .directory) = s := by
    simp [visit]
  have hblock : log.blockOf? find additional clock d (name, .directory) = none := rfl
  have hhint : log.hintOf? d (name, .directory) = none := rfl
  rw [hvisit]
  refine { h with removed := ?_, remains := ?_, cut := ?_, uncut := ?_, blocks := ?_, hints := ?_ }
  · exact fun other id ho => h.removed other id (hmem.1 ho)
  · exact fun k hk => h.remains k fun other id ho => hk other id (hmem.2 ho)
  · exact fun other id b ho => h.cut other id b (hmem.1 ho)
  · exact fun id hall => h.uncut id fun other ho => hall other (hmem.2 ho)
  · rw [filterMap_concat_reverse, hblock, h.blocks]
    rfl
  · rw [filterMap_concat_reverse, hhint, h.hints]
    rfl

/-- Whatever is listed next, given what a file does. -/
theorem progress_foldl (hd : d.IsRegular log.options.root place)
    (hfile : ∀ {before s name id}, Progress log find additional clock d place inner before s → name ∉ before.map (·.1) →
      d.node? (place ++ [name]) = some (.file id) → Progress log find additional clock d place inner
        (before ++ [(name, .file id)]) (log.visit (.ofPure find) additional clock s (name, .file id)))
    {after : List (String × Node)} (hafter : ∀ item ∈ after, d.node? (place ++ [item.1]) = some item.2)
    (hnodup : ((before ++ after).map (·.1)).Nodup) (h : Progress log find additional clock d place inner before s) :
    Progress log find additional clock d place inner (before ++ after)
      (after.foldl (log.visit (.ofPure find) additional clock) s) := by
  induction after generalizing before s with
  | nil =>
    rw [List.append_nil]
    exact h
  | cons item after ih =>
    obtain ⟨name, node⟩ := item
    have hnode := hafter _ List.mem_cons_self
    have hnew : name ∉ before.map (·.1) := by
      rw [List.map_append, List.map_cons, List.nodup_append] at hnodup
      exact fun hmem => hnodup.2.2 name hmem name List.mem_cons_self rfl
    have hnext : Progress log find additional clock d place inner (before ++ [(name, node)])
        (log.visit (.ofPure find) additional clock s (name, node)) := by
      obtain rfl | ⟨id, rfl⟩ := hd.node name node hnode
      · exact progress_directory h name
      · exact hfile h hnew hnode
    rw [List.append_cons] at hnodup ⊢
    exact ih (fun item hmem => hafter item (List.mem_cons_of_mem _ hmem)) hnodup hnext

/-- The whole directory. -/
theorem exists_progress (hd : d.IsRegular log.options.root place)
    (hfile : ∀ {inner before s name id}, Progress log find additional clock d place inner before s →
      name ∉ before.map (·.1) → d.node? (place ++ [name]) = some (.file id) →
      Progress log find additional clock d place inner (before ++ [(name, .file id)])
        (log.visit (.ofPure find) additional clock s (name, .file id))) :
    ∃ inner s, log.rescan (.ofPure find) additional clock d = .ok s ∧
      Progress log find additional clock d place inner (d.listing place) s := by
  obtain ⟨inner, hhome⟩ := Disk.exists_isHome hd
  have hstart : Progress log find additional clock d place inner [] { disk := d } :=
    ⟨hhome, rfl, fun _ _ hc => hc, by simp, fun _ _ => rfl, by simp, fun _ _ => rfl, rfl, rfl⟩
  have hlisted : ∀ item ∈ d.listing place, d.node? (place ++ [item.1]) = some item.2 :=
    fun _ hitem => (Disk.mem_listing_iff hd.nodup).1 hitem
  have h := progress_foldl hd hfile hlisted (Disk.nodup_listing hd.nodup place) hstart
  rw [List.nil_append] at h
  exact ⟨inner, _, by rw [rescan, Disk.list_of_find? hd.found], h⟩

/-- What a rescan makes of the directory `place` of the disk `d`. Files with a block are cut to it; all other files
are removed, and nothing else is. The clock is read for each block anew. -/
structure Rescanned (log : Log) (find : Bytes → String → Except String (UInt32 × UInt32)) (additional : Duration)
    (clock : Clock) (d : Disk) (place : Path) (s : Rescan) : Prop where
  blocks : s.blocks.Perm ((d.listing place).filterMap (log.blockOf? find additional clock d))
  /-- The time range that was found for the first record, adjusted. Sums that are too large wrap around. -/
  ranges : ∀ b ∈ s.blocks, ∃ name, b.path = log.options.root ++ [name] ∧ ∃ first start stop,
    b.index.head? = some first ∧ find first.id b.descriptor.dataEncoding = .ok (start, stop) ∧
    b.info.start = some (if (clock name).toNat ≤
      start.toNat + (log.options.slack.seconds.toNat + additional.seconds.toNat) % UInt64.size then start
        else clock name) ∧
    b.info.stop = some (if stop.toNat ≤ ((clock name).toNat + log.options.slack.seconds.toNat) % UInt64.size then stop
      else clock name)
  hints : s.hints.Perm ((d.listing place).filterMap (log.hintOf? d))
  kept : ∀ name id b, d.node? (place ++ [name]) = some (.file id) →
    log.block? find additional (clock name) name id (d.content id) = some b →
      s.disk.node? (place ++ [name]) = some (.file id) ∧ s.disk.content id = (d.content id).take b.writer.size
  removed : ∀ name id, d.node? (place ++ [name]) = some (.file id) →
    log.block? find additional (clock name) name id (d.content id) = none → s.disk.node? (place ++ [name]) = none
  remains : ∀ k, (∀ name id, k = place ++ [name] → d.node? k ≠ some (.file id)) → s.disk.node? k = d.node? k
  uncut : ∀ id, (∀ name, d.node? (place ++ [name]) = some (.file id) →
    log.block? find additional (clock name) name id (d.content id) = none) → s.disk.file id = d.file id

theorem rescanned_of_progress (hd : d.IsRegular log.options.root place)
    (h : Progress log find additional clock d place inner (d.listing place) s) :
    Rescanned log find additional clock d place s := by
  have hmem : ∀ {name node}, (name, node) ∈ d.listing place ↔ d.node? (place ++ [name]) = some node :=
    Disk.mem_listing_iff hd.nodup
  refine ⟨?_, fun b hb => ?_, ?_, fun name id b hf hblock => ⟨?_, h.cut name id b (hmem.2 hf) hblock⟩,
    fun name id hf => h.removed name id (hmem.2 hf), fun k hk => h.remains k ?_,
    fun id hall => h.uncut id fun name hlisted => hall name (hmem.1 hlisted)⟩
  · rw [h.blocks]
    exact List.reverse_perm _
  · rw [h.blocks, List.mem_reverse, List.mem_filterMap] at hb
    obtain ⟨⟨name, node⟩, -, hblock⟩ := hb
    cases node with
    | file id => exact ⟨name, range_of_block? hblock⟩
    | directory | link => cases hblock
  · rw [h.hints]
    exact List.reverse_perm _
  · refine (h.remains _ fun other id' hlisted hnone he => ?_).trans hf
    cases (List.append_singleton_inj.1 he).2
    cases hf.symm.trans (hmem.1 hlisted)
    cases hblock.symm.trans hnone
  · rintro other id' hlisted - rfl
    exact hk other id' rfl (hmem.1 hlisted)

theorem exists_rescanned (hb : 0 < log.options.readBuffer) (hd : d.IsRegular log.options.root place) :
    ∃ s, log.rescan (.ofPure find) additional clock d = .ok s ∧ Rescanned log find additional clock d place s := by
  obtain ⟨inner, s, hs, h⟩ := exists_progress hd fun h hnew hf =>
    progress_file h hd hnew hf (readable?_of_progress hb h _ _)
  exact ⟨s, hs, rescanned_of_progress hd h⟩

theorem blockOf?_of_files {d' : Disk} (hf : d'.files = d.files) :
    log.blockOf? find additional clock d' = log.blockOf? find additional clock d := by
  funext ⟨name, node⟩
  cases node with
  | file id => rw [blockOf?, blockOf?, Disk.content, Disk.file_of_files hf, Disk.content]
  | directory => rfl
  | link target => rfl

/-- Two rescans of one directory, listed in different orders, at different times. -/
structure Agreeing (s s' : Rescan) : Prop where
  blocks : (s'.blocks.map Block.timeless).Perm (s.blocks.map Block.timeless)
  hints : s'.hints.Perm s.hints
  node : ∀ k, s'.disk.node? k = s.disk.node? k
  content : ∀ id, s'.disk.content id = s.disk.content id

/-- The time range of each file is the same at both readings of the clock. If the readings are the same, it is. -/
def Alike (log : Log) (find : Bytes → String → Except String (UInt32 × UInt32)) (additional : Duration)
    (clock clock' : Clock) (d : Disk) (place : Path) : Prop :=
  ∀ name id, d.node? (place ++ [name]) = some (.file id) →
    log.range? find additional (clock' name) name (d.content id) =
      log.range? find additional (clock name) name (d.content id)

variable {clock' : Clock} {d' : Disk} {s' : Rescan}

theorem timeless_blockOf? (clock clock' : Clock) (item : String × Node) :
    (log.blockOf? find additional clock' d item).map Block.timeless =
      (log.blockOf? find additional clock d item).map Block.timeless := by
  obtain ⟨name, node⟩ := item
  cases node with
  | file id => exact timeless_block? find additional (clock name) (clock' name) name id (d.content id)
  | directory | link => rfl

theorem blockOf?_of_alike (hd : d.IsRegular log.options.root place) (h : Alike log find additional clock clock' d place)
    {item : String × Node} (hitem : item ∈ d.listing place) :
    log.blockOf? find additional clock' d item = log.blockOf? find additional clock d item := by
  obtain ⟨name, node⟩ := item
  cases node with
  | file id => rw [blockOf?, blockOf?, block?, block?, h name id ((Disk.mem_listing_iff hd.nodup).1 hitem)]
  | directory | link => rfl

theorem node?_of_rescanned (hd : d.IsRegular log.options.root place) (hp : d'.entries.Perm d.entries)
    (hf : d'.files = d.files) (h : Rescanned log find additional clock d place s)
    (h' : Rescanned log find additional clock' d' place s') (k : Path) : s'.disk.node? k = s.disk.node? k := by
  have hnode := Disk.node?_of_perm hd.nodup hp
  have hcontent : ∀ id, d'.content id = d.content id := fun id => congrArg (·.content) (Disk.file_of_files hf id)
  by_cases hk : ∃ name id, k = place ++ [name] ∧ d.node? k = some (.file id)
  · obtain ⟨name, id, rfl, hfound⟩ := hk
    have hfound' := (hnode _).trans hfound
    -- Whether there is a block is the same at both readings of the clock, only its time range need not be.
    cases hblock : log.block? find additional (clock name) name id (d.content id) with
    | none =>
      have hblock' := block?_eq_none_of_now hblock (clock' name)
      rw [h.removed name id hfound hblock, h'.removed name id hfound' ((hcontent id).symm ▸ hblock')]
    | some b =>
      obtain ⟨b', hblock', -⟩ := exists_block?_of_now hblock (clock' name)
      rw [(h.kept name id b hfound hblock).1, (h'.kept name id b' hfound' ((hcontent id).symm ▸ hblock')).1]
  · have hnot : ∀ name id, k = place ++ [name] → d.node? k ≠ some (.file id) :=
      fun name id he hfound => hk ⟨name, id, he, hfound⟩
    rw [h.remains k hnot, h'.remains k (fun name id he => (hnode k).symm ▸ hnot name id he), hnode]

theorem content_of_rescanned (hd : d.IsRegular log.options.root place) (hp : d'.entries.Perm d.entries)
    (hf : d'.files = d.files) (h : Rescanned log find additional clock d place s)
    (h' : Rescanned log find additional clock' d' place s') (id : FileId) : s'.disk.content id = s.disk.content id := by
  have hnode := Disk.node?_of_perm hd.nodup hp
  have hfile := Disk.file_of_files hf
  have hcontent : d'.content id = d.content id := congrArg (·.content) (hfile id)
  by_cases hid : ∃ name b, d.node? (place ++ [name]) = some (.file id) ∧
      log.block? find additional (clock name) name id (d.content id) = some b
  · obtain ⟨name, b, hfound, hblock⟩ := hid
    obtain ⟨b', hblock', hsame⟩ := exists_block?_of_now hblock (clock' name)
    have hsize : b'.writer.size = b.writer.size := congrArg (·.writer.size) hsame
    rw [(h.kept name id b hfound hblock).2,
      (h'.kept name id b' ((hnode _).trans hfound) (hcontent.symm ▸ hblock')).2, hcontent, hsize]
  · have hnone : ∀ name, d.node? (place ++ [name]) = some (.file id) →
        log.block? find additional (clock name) name id (d.content id) = none := by
      intro name hfound
      rw [Option.eq_none_iff_forall_ne_some]
      exact fun b hblock => hid ⟨name, b, hfound, hblock⟩
    have huncut := h.uncut id hnone
    have huncut' := h'.uncut id fun name hfound =>
      hcontent.symm ▸ block?_eq_none_of_now (hnone name ((hnode _).symm.trans hfound)) (clock' name)
    rw [Disk.content, huncut', hfile, ← huncut, Disk.content]

theorem agreeing_of_perm (hd : d.IsRegular log.options.root place) (hp : d'.entries.Perm d.entries)
    (hf : d'.files = d.files) (h : Rescanned log find additional clock d place s)
    (h' : Rescanned log find additional clock' d' place s') : Agreeing s s' := by
  have hhintOf : log.hintOf? d' = log.hintOf? d := by
    funext ⟨name, node⟩
    cases node <;> simp only [hintOf?, Disk.content, Disk.file_of_files hf]
  have hlisting := Disk.listing_perm hp place
  refine ⟨?_, ?_, node?_of_rescanned hd hp hf h h', content_of_rescanned hd hp hf h h'⟩
  · have hblocks := (h'.blocks.trans (hlisting.filterMap _)).map Block.timeless
    rw [blockOf?_of_files hf, List.map_filterMap] at hblocks
    simp only [timeless_blockOf? clock clock'] at hblocks
    rw [← List.map_filterMap] at hblocks
    exact hblocks.trans (h.blocks.map Block.timeless).symm
  · exact h'.hints.trans (hhintOf ▸ (hlisting.filterMap _).trans h.hints.symm)

/-- A rescan of a directory of regular files takes back the block of each that holds one, whatever the others are.
The order in which they are listed does not matter, and but for the time ranges, the clock does not either. -/
theorem rescanned_of_isRegular (hb : 0 < log.options.readBuffer) (hd : d.IsRegular log.options.root place)
    (find : Bytes → String → Except String (UInt32 × UInt32)) (additional : Duration) (clock : Clock) :
    ∃ s, log.rescan (.ofPure find) additional clock d = .ok s ∧ Rescanned log find additional clock d place s ∧
      ∀ (d' : Disk) (clock' : Clock), d'.entries.Perm d.entries → d'.files = d.files →
        ∃ s', log.rescan (.ofPure find) additional clock' d' = .ok s' ∧ Agreeing s s' ∧
          (Alike log find additional clock clock' d place → s'.blocks.Perm s.blocks) := by
  obtain ⟨s, hs, h⟩ := @exists_rescanned _ log find additional clock place d hb hd
  refine ⟨s, hs, h, fun d' clock' hp hf => ?_⟩
  obtain ⟨s', hs', h'⟩ :=
    @exists_rescanned _ log find additional clock' place d' hb (Disk.isRegular_of_perm hd hp hf)
  refine ⟨s', hs', agreeing_of_perm hd hp hf h h', fun halike => ?_⟩
  have hblocks := h'.blocks.trans ((Disk.listing_perm hp place).filterMap _)
  rw [blockOf?_of_files hf, List.filterMap_congr fun _ => blockOf?_of_alike hd halike] at hblocks
  exact hblocks.trans h.blocks.symm

end

/-- A block with something behind its page, and a file that is none. -/
def sampleDisk : Disk where
  files := [{ content := samplePage ++ [84] }, { content := [1] }]
  entries := [(["wal"], .directory), (["wal", Descriptor.filename ⟨.zero, "t", .none, ""⟩], .file 0),
    (["wal", "junk"], .file 1)]

theorem isRegular_sampleDisk : sampleDisk.IsRegular ["wal"] ["wal"] := by
  have hwal : Disk.IsPlain "wal" := ⟨by decide, by decide, by decide⟩
  have hnodup : (sampleDisk.entries.map (·.1)).Nodup := by decide
  have hnode : ∀ name node, sampleDisk.node? (["wal"] ++ [name]) = some node →
      name = Descriptor.filename ⟨.zero, "t", .none, ""⟩ ∧ node = .file 0 ∨ name = "junk" ∧ node = .file 1 := by
    intro name node hn
    rw [Disk.node?_eq_some_iff hnodup (by simp)] at hn
    simpa [sampleDisk] using hn
  refine ⟨Disk.find?_of_leads (by decide) (.enter hwal rfl (.here _ _)), hnodup, fun name node hn => ?_,
    fun name id hn => ?_, fun name id hn => ?_⟩
  · obtain ⟨-, rfl⟩ | ⟨-, rfl⟩ := hnode name node hn
    · exact .inr ⟨0, rfl⟩
    · exact .inr ⟨1, rfl⟩
  · obtain ⟨rfl, -⟩ | ⟨rfl, -⟩ := hnode name _ hn
    · exact ⟨⟨by decide, by decide, by decide⟩, by decide⟩
    · exact ⟨⟨by decide, by decide, by decide⟩, by decide⟩
  · obtain ⟨-, he⟩ | ⟨-, he⟩ := hnode name _ hn
    · cases he
      exact ⟨by decide, ⟨rfl, rfl, rfl, rfl⟩, rfl⟩
    · cases he
      exact ⟨by decide, ⟨rfl, rfl, rfl, rfl⟩, rfl⟩

theorem rescanned_sampleDisk : ∃ s,
    Log.rescan ⟨{ root := ["wal"], encoding := .none }⟩ (.ofPure fun _ _ => .ok (1600000000, 1700000000))
        (.ofSeconds 100000000) (fun _ => 1700000000) sampleDisk = .ok s ∧
      Rescanned ⟨{ root := ["wal"], encoding := .none }⟩ (fun _ _ => .ok (1600000000, 1700000000))
        (.ofSeconds 100000000) (fun _ => 1700000000) sampleDisk ["wal"] s ∧
      s.blocks.map (fun b => (b.info.start, b.info.stop)) = [(some 1600000000, some 1700000000)] ∧
      s.disk.node? ["wal", "junk"] = none := by
  obtain ⟨s, hs, h, -⟩ := @rescanned_of_isRegular _ ⟨{ root := ["wal"], encoding := .none }⟩ _ _ (Nat.succ_pos _)
    isRegular_sampleDisk (fun _ _ => .ok (1600000000, 1700000000)) (.ofSeconds 100000000) (fun _ => 1700000000)
  have hblocks := h.blocks.map fun b => (b.info.start, b.info.stop)
  have hrange : ((sampleDisk.listing ["wal"]).filterMap (blockOf? ⟨{ root := ["wal"], encoding := .none }⟩
      (fun _ _ => .ok (1600000000, 1700000000)) (.ofSeconds 100000000) (fun _ => 1700000000) sampleDisk)).map
        (fun b => (b.info.start, b.info.stop)) = [(some 1600000000, some 1700000000)] := by decide +kernel
  rw [hrange] at hblocks
  exact ⟨s, hs, h, List.perm_singleton.1 hblocks, h.removed "junk" 1 rfl rfl⟩

end Log

end WriteAhead
