import WriteAhead.Proofs.Filename
import WriteAhead.Proofs.Spared

/-!
Files that cannot be read to their end. Main statements: if reading fails behind a page, a rescan leaves the file as
it is and does with the others what it does without it (`leftAlone_of_breaks`), but if it fails within a page, this
is taken for damage (`replay_of_torn`), and the file may be removed (`not_forall_leftAlone`).
-/

namespace WriteAhead

open Page

namespace Log

/-- Two rescans that differ in nothing but what they say of one file. -/
structure SameBut (name : String) (s s' : Rescan) : Prop where
  disk : s.disk = s'.disk
  blocks : s.blocks = s'.blocks
  hints : s.hints = s'.hints
  events : (s.events.filter fun event => event.file? ≠ some name) =
    s'.events.filter fun event => event.file? ≠ some name

section

variable {s s' : Rescan}

theorem remove_frame (s : Rescan) (path : Path) : ∃ disk more, ∀ events,
    Rescan.remove { s with events } path = { s with disk, events := events ++ more } := by
  cases hremove : s.disk.removeFile path with
  | error fault =>
    refine ⟨s.disk, [.notRemoved], fun events => ?_⟩
    rw [Rescan.remove, hremove]
    rfl
  | ok disk =>
    refine ⟨disk, [], fun events => ?_⟩
    rw [Rescan.remove, hremove, List.append_nil]

/-- What was noted before has no influence on what comes of a file. -/
theorem recover_frame (log : Log) (name : String) (descriptor : Descriptor) (path : Path) (r : Replay) (first : Record)
    (derive : Deriver) (additional : Duration) (clock : Clock) (s : Rescan) :
    ∃ (result : Except Error Block) (s' : Rescan) (more : List Event), ∀ events,
      log.recover name descriptor path r first derive additional clock { s with events } =
        (result, { s' with events := events ++ more }) := by
  obtain ⟨noted, hnoted⟩ : ∃ noted, ∀ events,
      (if r.warning.isSome then Rescan.note { s with events } (.damagedTail name r.records.length)
        else { s with events }) = { s with events := events ++ noted } := by
    by_cases hw : r.warning.isSome
    · exact ⟨[_], fun _ => if_pos hw⟩
    · exact ⟨[], fun _ => by rw [if_neg hw, List.append_nil]⟩
  cases hderive : derive first.id descriptor.dataEncoding s.disk with
  | mk range disk =>
    let asked : Rescan := { s with disk, hints := (first.id, descriptor.dataEncoding) :: s.hints }
    cases range with
    | error reason =>
      refine ⟨.error (.corruption (.noTimeRange reason)), asked, noted, fun events => ?_⟩
      rw [recover, hnoted]
      dsimp only
      rw [hderive]
    | ok range =>
      cases hblock : Block.ofReplay descriptor path r log.options disk with
      | mk result disk' =>
        cases result with
        | error fault =>
          refine ⟨.error fault, { asked with disk := disk' }, noted, fun events => ?_⟩
          rw [recover, hnoted]
          dsimp only
          rw [hderive]
          dsimp only
          rw [hblock]
        | ok b =>
          let adjusted := b.adjust (clock name) range.1 range.2 additional
          refine ⟨.ok (b.setRange adjusted.1.1 adjusted.1.2), { asked with disk := disk' }, noted ++ adjusted.2,
            fun events => ?_⟩
          rw [recover, hnoted]
          dsimp only
          rw [hderive]
          dsimp only
          rw [hblock]
          dsimp only
          rw [List.append_assoc]

theorem replayFile_frame [Codecs] (log : Log) (name : String) (path : Path) (derive : Deriver) (additional : Duration)
    (clock : Clock) (s : Rescan) :
    ∃ (result : Except Error (Option Block)) (s' : Rescan) (more : List Event), ∀ events,
      log.replayFile name path derive additional clock { s with events } =
        (result, { s' with events := events ++ more }) := by
  unfold replayFile
  cases Descriptor.parse name with
  | error fault => exact ⟨_, s, [], fun _ => by rw [List.append_nil]⟩
  | ok descriptor =>
    dsimp only
    cases s.disk.openRead path with
    | error fault => exact ⟨_, s, [], fun _ => by rw [List.append_nil]⟩
    | ok handle =>
      dsimp only
      cases replay descriptor.encoding log.options.readBuffer (s.disk.source handle) with
      | error fault => exact ⟨_, s, [], fun _ => by rw [List.append_nil]⟩
      | ok r =>
        dsimp only
        cases r.records with
        | nil => exact ⟨_, s, [], fun _ => by rw [List.append_nil]⟩
        | cons first rest =>
          obtain ⟨result, s', more, h⟩ := recover_frame log name descriptor path r first derive additional clock s
          refine ⟨result.map some, s', more, fun events => ?_⟩
          dsimp only
          rw [h]

theorem settle_frame (name : String) (path : Path) (result : Except Error (Option Block)) (s : Rescan) :
    ∃ (s' : Rescan) (more : List Event), ∀ events,
      settle name path (result, { s with events }) = { s' with events := events ++ more } := by
  have hremove : ∀ event, ∃ (s' : Rescan) (more : List Event), ∀ events,
      (Rescan.note { s with events } event).remove path = { s' with events := events ++ more } := by
    intro event
    obtain ⟨disk, more, h⟩ := remove_frame s path
    refine ⟨{ s with disk }, event :: more, fun events => ?_⟩
    rw [Rescan.note, h, List.append_assoc]
    rfl
  cases result with
  | error fault =>
    cases fault with
    | io => exact ⟨s, [.unreadable name], fun _ => rfl⟩
    | _ => exact hremove _
  | ok found =>
    cases found with
    | none => exact hremove _
    | some b => exact ⟨{ s with blocks := b :: s.blocks }, [.replayComplete name b.index.length], fun _ => rfl⟩

theorem visit_frame [Codecs] (log : Log) (derive : Deriver) (additional : Duration) (clock : Clock) (s : Rescan)
    (entry : String × Node) : ∃ (s' : Rescan) (more : List Event), ∀ events,
      log.visit derive additional clock { s with events } entry = { s' with events := events ++ more } := by
  obtain ⟨name, node⟩ := entry
  by_cases hn : node = .directory
  · refine ⟨s, [], fun events => ?_⟩
    rw [visit, if_pos hn, List.append_nil]
  · obtain ⟨result, s₁, more, hreplay⟩ :=
      replayFile_frame log name (log.options.root ++ [name]) derive additional clock s
    obtain ⟨s₂, more', hsettle⟩ := settle_frame name (log.options.root ++ [name]) result s₁
    refine ⟨s₂, .beginningReplay name :: more ++ more', fun events => ?_⟩
    rw [visit_of_ne additional clock hn, Rescan.note, hreplay, hsettle]
    simp

theorem sameBut_visit [Codecs] {log : Log} {derive : Deriver} {additional : Duration} {clock : Clock} {name : String}
    (h : SameBut name s s') (entry : String × Node) :
    SameBut name (log.visit derive additional clock s entry) (log.visit derive additional clock s' entry) := by
  obtain ⟨disk, blocks, hints, events⟩ := s
  obtain ⟨disk', blocks', hints', events'⟩ := s'
  obtain ⟨rfl, rfl, rfl, hevents⟩ := h
  obtain ⟨s₁, more, hvisit⟩ := visit_frame log derive additional clock ⟨disk, blocks, hints, []⟩ entry
  dsimp only at hvisit hevents
  rw [hvisit events, hvisit events']
  refine ⟨rfl, rfl, rfl, ?_⟩
  rw [List.filter_append, List.filter_append, hevents]

end

/-- The file under `name` in the directory `place` begins with the pages `xs`. Reading it fails behind these and the
bytes `torn`, whatever follows in the file. -/
structure Breaks [Codecs] (d : Disk) (place : Path) (name : String) (id : FileId) (descriptor : Descriptor)
    (xs : List Entry) (torn : Bytes) : Prop where
  node : d.node? (place ++ [name]) = some (.file id)
  parse : Descriptor.parse name = .ok descriptor
  valid : ∀ x ∈ xs, x.IsValid descriptor.encoding
  bytes : (d.source (.file id)).bytes = joined xs ++ torn
  fails : (d.source (.file id)).fails = true

/-- A rescan of the disk `d` that ends with `s` leaves a file as it is, gives no block for it, and does with the other
files what it does without it. -/
structure LeftAlone [Codecs] (log : Log) (derive : Deriver) (additional : Duration) (clock : Clock) (d : Disk)
    (place : Path) (name : String) (id : FileId) (s : Rescan) : Prop where
  node : s.disk.node? (place ++ [name]) = some (.file id)
  file : s.disk.file id = d.file id
  blocks : ∀ b ∈ s.blocks, b.file ≠ id
  others : ∀ entries, d.list log.options.root = .ok entries → SameBut name s
    ((entries.filter fun entry => entry.1 ≠ name).foldl (log.visit derive additional clock) { disk := d })

/-- Up to now the file was left alone. -/
structure Waits [Codecs] (d : Disk) (place : Path) (name : String) (id : FileId) (descriptor : Descriptor)
    (xs : List Entry) (s : Rescan) : Prop where
  fewer : Disk.Extends s.disk d
  breaks : Breaks s.disk place name id descriptor xs []
  file : s.disk.file id = d.file id
  blocks : ∀ b ∈ s.blocks, b.file ≠ id

section

variable [Codecs] {log : Log} {derive : Deriver} {additional : Duration} {clock : Clock} {d d' : Disk} {place : Path}
  {name other : String} {id : FileId} {descriptor descriptor' : Descriptor} {xs : List Entry} {torn : Bytes}
  {s s₀ : Rescan} {r : Replay}

theorem breaks_of_file (h : Breaks d place name id descriptor xs torn)
    (hn : d'.node? (place ++ [name]) = d.node? (place ++ [name])) (hf : d'.file id = d.file id) :
    Breaks d' place name id descriptor xs torn := by
  have hsource : d'.source (.file id) = d.source (.file id) := by rw [Disk.source, hf, Disk.source]
  exact ⟨hn.trans h.node, h.parse, h.valid, hsource ▸ h.bytes, hsource ▸ h.fails⟩

theorem length_of_breaks (h : Breaks d place name id descriptor xs torn) :
    0 + (joined xs).length ≤ (d.source (.file id)).length := by
  have hle := Disk.length_bytes_source d id
  rw [h.bytes, List.length_append] at hle
  omega

/-- Where the next page should begin, the failure is seen. -/
theorem replay_of_breaks (hb : 0 < log.options.readBuffer) (h : Breaks d place name id descriptor xs []) :
    replay descriptor.encoding log.options.readBuffer (d.source (.file id)) = .error .io := by
  rw [replay, h.bytes, replayFrom_joined hb h.valid [] [] (length_of_breaks h), replayFrom, h.fails]
  rfl

/-- Under no name of the file there are readable records. -/
theorem not_finds_of_breaks (hb : 0 < log.options.readBuffer) (h : Breaks d place name id descriptor xs []) :
    ¬ Finds log d other descriptor' id r := by
  intro hf
  obtain ⟨ys, tail, hne, hfound⟩ := exists_entries_of_finds hf
  have hsplit : joined xs ++ [] = joined ys ++ tail := by rw [← h.bytes, hfound.split]
  cases xs with
  | nil => exact joined_ne_nil hfound.valid hne (List.append_eq_nil_iff.1 hsplit.symm).1
  | cons x xs =>
    obtain ⟨y, ys, rfl⟩ := List.exists_cons_of_ne_nil hne
    rw [joined_cons, joined_cons, List.append_assoc, List.append_assoc] at hsplit
    have he := encoding_eq_of_isPage_append (h.valid x List.mem_cons_self) (hfound.valid y List.mem_cons_self) hsplit
    have hreplay := hf.replay
    rw [← he, replay_of_breaks hb h] at hreplay
    cases hreplay

theorem replayFile_of_waits (hb : 0 < log.options.readBuffer)
    (hd : d.find? true log.options.root = .ok (place, some .directory)) (h : Waits d place name id descriptor xs s) :
    log.replayFile name (log.options.root ++ [name]) derive additional clock s = (.error .io, s) := by
  rw [replayFile, h.breaks.parse]
  dsimp only
  cases ho : s.disk.openRead (log.options.root ++ [name]) with
  | error fault => rfl
  | ok handle =>
    dsimp only
    cases handle with
    | directory => rw [replay_directory]
    | file other =>
      cases Disk.openRead_of_extends h.fewer hd h.breaks.node ho
      rw [replay_of_breaks hb h.breaks]

/-- The turn of the file itself. -/
theorem visit_of_waits (hb : 0 < log.options.readBuffer)
    (hd : d.find? true log.options.root = .ok (place, some .directory)) (h : Waits d place name id descriptor xs s)
    (node : Node) : ∃ events, log.visit derive additional clock s (name, node) = { s with events } ∧
      (events.filter fun event => event.file? ≠ some name) = s.events.filter fun event => event.file? ≠ some name := by
  by_cases hn : node = .directory
  · exact ⟨s.events, by rw [visit, if_pos hn], rfl⟩
  · have hnoted : Waits d place name id descriptor xs (s.note (.beginningReplay name)) :=
      ⟨h.fewer, h.breaks, h.file, h.blocks⟩
    refine ⟨s.events ++ [.beginningReplay name] ++ [.unreadable name], ?_, ?_⟩
    · rw [visit_of_ne additional clock hn, replayFile_of_waits hb hd hnoted]
      rfl
    · simp [List.filter_append, Event.file?]

theorem waits_visit (hb : 0 < log.options.readBuffer) (hq : Quiet derive)
    (hd : d.find? true log.options.root = .ok (place, some .directory)) (h : Waits d place name id descriptor xs s)
    (entry : String × Node) : Waits d place name id descriptor xs (log.visit derive additional clock s entry) := by
  obtain ⟨other, node⟩ := entry
  by_cases hname : other = name
  · subst hname
    obtain ⟨events, hvisit, -⟩ := @visit_of_waits _ log derive additional clock _ _ _ _ _ _ s hb hd h node
    rw [hvisit]
    exact ⟨h.fewer, h.breaks, h.file, h.blocks⟩
  have hne : place ++ [name] ≠ place ++ [other] := fun he => hname (List.append_singleton_inj.1 he).2.symm
  obtain hv | ⟨descriptor', file, r, hv⟩ := @visit_cases _ log derive additional clock hq s other node
  · obtain ⟨hfewer, hfiles, hnode⟩ := frame_of_passes hd h.fewer hv
    have hfile := Disk.file_of_files hfiles id
    exact ⟨hfewer, breaks_of_file h.breaks (hnode _ hne) hfile, hfile.trans h.file, hv.blocks ▸ h.blocks⟩
  · have hid : file ≠ id := by
      rintro rfl
      exact not_finds_of_breaks hb h.breaks hv.finds
    obtain ⟨hentries, -, hframe⟩ := Block.trim_frame file r.validEnd s.disk
    rw [← hv.disk] at hentries hframe
    have hfile := hframe id hid.symm
    have hnode := Disk.node?_of_entries hentries
    refine ⟨fun k node hk => h.fewer k node ((hnode k).symm.trans hk), breaks_of_file h.breaks (hnode _) hfile,
      hfile.trans h.file, fun b hmem => ?_⟩
    obtain ⟨-, hblocks⟩ | ⟨-, start, stop, hblocks⟩ := hv.blocks
    · exact h.blocks b (hblocks ▸ hmem)
    · rw [hblocks] at hmem
      obtain rfl | hmem := List.mem_cons.1 hmem
      · exact hid
      · exact h.blocks b hmem

/-- What comes of the others is what would come of them alone. -/
theorem waits_foldl (hb : 0 < log.options.readBuffer) (hq : Quiet derive)
    (hd : d.find? true log.options.root = .ok (place, some .directory)) (h : Waits d place name id descriptor xs s)
    (hs : SameBut name s s₀) (entries : List (String × Node)) :
    Waits d place name id descriptor xs (entries.foldl (log.visit derive additional clock) s) ∧
      SameBut name (entries.foldl (log.visit derive additional clock) s)
        ((entries.filter fun entry => entry.1 ≠ name).foldl (log.visit derive additional clock) s₀) := by
  induction entries generalizing s s₀ with
  | nil => exact ⟨h, hs⟩
  | cons entry entries ih =>
    have hnext := @waits_visit _ log derive additional clock _ _ _ _ _ _ s hb hq hd h entry
    by_cases hname : entry.1 = name
    · rw [List.filter_cons_of_neg (by simpa using hname)]
      apply ih hnext
      obtain ⟨other, node⟩ := entry
      obtain rfl : other = name := hname
      obtain ⟨events, hvisit, hevents⟩ := @visit_of_waits _ log derive additional clock _ _ _ _ _ _ s hb hd h node
      rw [hvisit]
      exact ⟨hs.disk, hs.blocks, hs.hints, hevents.trans hs.events⟩
    · rw [List.filter_cons_of_pos (by simpa using hname)]
      exact ih hnext (sameBut_visit hs entry)

/-- A file that cannot be read on behind a page keeps its name and its bytes, and has no effect on the other files. -/
theorem leftAlone_of_breaks (hb : 0 < log.options.readBuffer) (hq : Quiet derive)
    (hd : d.find? true log.options.root = .ok (place, some .directory))
    (h : Breaks d place name id descriptor xs []) (additional : Duration) (clock : Clock) :
    ∃ s, log.rescan derive additional clock d = .ok s ∧ LeftAlone log derive additional clock d place name id s := by
  obtain ⟨entries, hentries⟩ : ∃ entries, d.list log.options.root = .ok entries := ⟨_, by rw [Disk.list, hd]⟩
  have hstart : Waits d place name id descriptor xs { disk := d } := ⟨fun _ _ hk => hk, h, rfl, by simp⟩
  obtain ⟨hwaits, hsame⟩ := waits_foldl hb hq hd hstart ⟨rfl, rfl, rfl, rfl⟩ entries
  refine ⟨_, by rw [rescan, hentries], hwaits.breaks.node, hwaits.file, hwaits.blocks, fun entries' he => ?_⟩
  cases hentries.symm.trans he
  exact hsame

end

/-- A page and something behind it, of which so many bytes can be read. -/
def brokenDisk (readable : Nat) : Disk where
  files := [{ content := samplePage ++ [84], readable := some readable }]
  entries := [(["wal"], .directory), (["wal", Descriptor.filename ⟨.zero, "t", .none, ""⟩], .file 0)]

theorem isHome_brokenDisk (readable : Nat) : (brokenDisk readable).IsHome ["wal"] ["wal"] [] := by
  have hwal : Disk.IsPlain "wal" := ⟨by decide, by decide, by decide⟩
  exact ⟨Disk.find?_of_leads (by decide) (.enter hwal rfl (.here _ _)), by simp⟩

theorem breaks_brokenDisk (readable : Nat) {xs : List Entry} {torn : Bytes} (hx : ∀ x ∈ xs, x.IsValid .none)
    (hbytes : (samplePage ++ [84]).take readable = joined xs ++ torn) : Breaks (brokenDisk readable) ["wal"]
      (Descriptor.filename ⟨.zero, "t", .none, ""⟩) 0 ⟨.zero, "t", .none, ""⟩ xs torn where
  node := rfl
  parse := Descriptor.parse_filename (@Descriptor.isWritable_of_create .zero "t" "" .none _ rfl)
  valid := hx
  bytes := hbytes
  fails := rfl

theorem leftAlone_brokenDisk : ∃ s,
    Log.rescan ⟨{ root := ["wal"], encoding := .none }⟩ (fun _ _ d => (.ok (0, 0), d)) .zero (fun _ => 0)
        (brokenDisk 26) = .ok s ∧
      LeftAlone ⟨{ root := ["wal"], encoding := .none }⟩ (fun _ _ d => (.ok (0, 0), d)) .zero (fun _ => 0)
        (brokenDisk 26) ["wal"] (Descriptor.filename ⟨.zero, "t", .none, ""⟩) 0 s := by
  have hbreaks := @breaks_brokenDisk 26 [⟨[7], [8], samplePage⟩] [] (List.forall_mem_singleton.2 isPage_sample) rfl
  have hfound := Disk.find?_of_isHome (isHome_brokenDisk 26)
  exact @leftAlone_of_breaks _ ⟨{ root := ["wal"], encoding := .none }⟩ _ _ _ _ _ _ _ (Nat.succ_pos _)
    (fun _ _ _ => rfl) hfound hbreaks .zero (fun _ => 0)

/-- Within a page, a failure is not told from the end of the file. -/
theorem replay_of_torn [Codecs] {log : Log} {d : Disk} {place : Path} {name : String} {id : FileId}
    {descriptor : Descriptor} {xs : List Entry} {torn : Bytes} (hb : 0 < log.options.readBuffer)
    (h : Breaks d place name id descriptor xs torn) (hne : torn ≠ []) (ht : NoPage descriptor.encoding torn) :
    ∃ fault, replay descriptor.encoding log.options.readBuffer (d.source (.file id)) =
      .ok ⟨layout 0 xs, (joined xs).length, some fault⟩ := by
  have hend : torn.isEmpty = false := by simpa using hne
  rw [replay, h.bytes, replayFrom_joined hb h.valid torn [] (length_of_breaks h), replayFrom, hend, Bool.false_and,
    if_neg (by simp), if_neg (by simp; omega)]
  split
  · exact ⟨_, by rw [List.append_nil, List.reverse_reverse, Nat.zero_add]⟩
  · next hnext =>
    obtain ⟨p, rfl, hp, -⟩ := isPage_of_next hnext
    exact absurd hp (ht p _ _ (List.prefix_append _ _))

/-- If not even the first page can be read, the file counts as empty. -/
theorem visit_of_torn [Codecs] {log : Log} {derive : Deriver} {additional : Duration} {clock : Clock} {s : Rescan}
    {place : Path} {inner : List String} {name : String} {id : FileId} {descriptor : Descriptor} {torn : Bytes}
    (hb : 0 < log.options.readBuffer) (hh : s.disk.IsHome log.options.root place inner) (hn : Disk.IsPlain name)
    (ht : Disk.isText [name] = true) (h : Breaks s.disk place name id descriptor [] torn) (hne : torn ≠ [])
    (hp : NoPage descriptor.encoding torn) :
    (log.visit derive additional clock s (name, .file id)).disk = s.disk.erase (place ++ [name]) := by
  obtain ⟨fault, hreplay⟩ := replay_of_torn hb h hne hp
  have hopen := Disk.openRead_name hh hn ht h.node
  have hfile : log.replayFile name (log.options.root ++ [name]) derive additional clock
      (s.note (.beginningReplay name)) = (.ok none, s.note (.beginningReplay name)) := by
    rw [replayFile, h.parse]
    dsimp only [Rescan.note]
    rw [hopen]
    dsimp only
    rw [hreplay]
    rfl
  rw [visit_of_ne additional clock (by simp), hfile, settle, Rescan.remove, Rescan.note, Rescan.note,
    Disk.removeFile_name hh hn ht h.node]

/-- A file may be gone although there is a page in it that could not be read to its end. -/
theorem not_forall_leftAlone : ¬ ∀ (log : Log) (derive : Deriver) (additional : Duration) (clock : Clock) (d : Disk)
    (place : Path) (name : String) (id : FileId) (descriptor : Descriptor) (xs : List Entry) (x : Entry) (torn : Bytes),
    0 < log.options.readBuffer → Quiet derive → d.find? true log.options.root = .ok (place, some .directory) →
    Breaks d place name id descriptor xs torn → x.IsValid descriptor.encoding → torn <+: x.page → torn ≠ x.page →
    joined xs ++ x.page <+: d.content id →
    ∃ s, log.rescan derive additional clock d = .ok s ∧ LeftAlone log derive additional clock d place name id s := by
  intro h
  have hbreaks : Breaks (brokenDisk 13) _ _ _ _ [] (samplePage.take 13) := breaks_brokenDisk 13 (by simp) rfl
  have hhome := isHome_brokenDisk 13
  have hname : Disk.IsPlain (Descriptor.filename ⟨.zero, "t", .none, ""⟩) := ⟨by decide, by decide, by decide⟩
  have hnopage : NoPage .none (samplePage.take 13) := noPage_of_torn isPage_sample (List.take_prefix _ _) (by decide)
  obtain ⟨s, hs, hleft⟩ := h ⟨{ root := ["wal"], encoding := .none }⟩ (fun _ _ d => (.ok (0, 0), d)) .zero (fun _ => 0)
    (brokenDisk 13) _ _ _ _ [] ⟨[7], [8], samplePage⟩ _ (Nat.succ_pos _) (fun _ _ _ => rfl)
    (Disk.find?_of_isHome hhome) hbreaks isPage_sample (List.take_prefix _ _) (by decide) ⟨[84], rfl⟩
  have hlist : (brokenDisk 13).list ["wal"] = .ok [(Descriptor.filename ⟨.zero, "t", .none, ""⟩, .file 0)] := by
    rw [Disk.list, Disk.find?_of_isHome hhome]
    rfl
  rw [rescan, hlist] at hs
  cases hs
  have hnode := hleft.node
  rw [List.foldl_cons, List.foldl_nil, visit_of_torn (Nat.succ_pos _) hhome hname (by decide) hbreaks (by decide)
    hnopage, Disk.node?_erase _ (Disk.append_singleton_ne_nil _ _)] at hnode
  cases hnode

end Log

end WriteAhead
