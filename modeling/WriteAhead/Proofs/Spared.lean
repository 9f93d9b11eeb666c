import WriteAhead.Proofs.Home
import WriteAhead.Proofs.Recovery

/-!
Files that no rescan takes away. Main statements: a file that begins with a page for which the deriver finds a time
range is spared by a visit, whatever is visited (`spared_visit`), and so by a rescan (`spared_rescan`).
-/

namespace WriteAhead

open Page

namespace Log

/-- A file in the directory `place` under a name that is accepted. It begins with a page, and there is a time range to
be found for the object in it. -/
structure Worthy [Codecs] (derive : Deriver) (d : Disk) (place : Path) (name : String) (id : FileId)
    (descriptor : Descriptor) (x : Entry) : Prop where
  node : d.node? (place ++ [name]) = some (.file id)
  parse : Descriptor.parse name = .ok descriptor
  valid : x.IsValid descriptor.encoding
  begins : x.page <+: (d.source (.file id)).bytes
  derives : ∀ d, ∃ range, (derive x.id descriptor.dataEncoding d).1 = .ok range

/-- The file is still worth keeping, and nothing was added to the disk `d`. -/
structure Spared [Codecs] (derive : Deriver) (d : Disk) (place : Path) (name : String) (id : FileId)
    (descriptor : Descriptor) (x : Entry) (s : Rescan) : Prop where
  fewer : Disk.Extends s.disk d
  worthy : Worthy derive s.disk place name id descriptor x

variable [Codecs] {log : Log} {derive : Deriver} (additional : Duration) (clock : Clock) {d d' : Disk} {place : Path}
  {name other : String} {id : FileId} {descriptor : Descriptor} {x : Entry} {s s' : Rescan}

theorem worthy_of_file (h : Worthy derive d place name id descriptor x)
    (hn : d'.node? (place ++ [name]) = d.node? (place ++ [name])) (hf : d'.file id = d.file id) :
    Worthy derive d' place name id descriptor x := by
  refine { h with node := hn.trans h.node, begins := ?_ }
  rw [Disk.prefix_source_iff, Disk.content, hf]
  exact Disk.prefix_source_iff.1 h.begins

/-- Under whatever name, the page in front is among those that are found. -/
theorem validEnd_of_finds (h : Worthy derive d place name id descriptor x) {descriptor' : Descriptor} {r : Replay}
    (hf : Finds log d other descriptor' id r) :
    x.page.length ≤ r.validEnd ∧ r.validEnd ≤ (d.content id).length := by
  obtain ⟨ys, tail, hne, hfound⟩ := exists_entries_of_finds hf
  have hend : r.validEnd = (joined ys).length := hfound.valid_end.trans (Nat.zero_add _)
  have hbytes : joined ys <+: (d.source (.file id)).bytes := ⟨tail, hfound.split.symm⟩
  refine ⟨?_, hend ▸ (Disk.prefix_source_iff.1 hbytes).1.length_le⟩
  obtain ⟨y, ys, rfl⟩ := List.exists_cons_of_ne_nil hne
  obtain ⟨more, hmore⟩ := h.begins
  have hvalid := hfound.valid y List.mem_cons_self
  have hsplit : x.page ++ more = y.page ++ (joined ys ++ tail) := by
    rw [hmore, hfound.split, joined_cons, List.append_assoc]
  rw [← encoding_eq_of_isPage_append h.valid hvalid hsplit] at hvalid
  rw [hend, (eq_of_isPage_append h.valid hvalid hsplit).1]
  exact length_page_le List.mem_cons_self

omit [Codecs] in
/-- A visit without a block changes no file, and takes away no other name than its own. -/
theorem frame_of_passes (hd : d.find? true log.options.root = .ok (place, some .directory))
    (he : Disk.Extends s.disk d) (hv : Passes log s other s') : Disk.Extends s'.disk d ∧
      s'.disk.files = s.disk.files ∧ ∀ k, k ≠ place ++ [other] → s'.disk.node? k = s.disk.node? k := by
  obtain hdisk | hdisk := hv.disk
  · rw [hdisk]
    exact ⟨he, rfl, fun _ _ => rfl⟩
  · obtain ⟨-, herase⟩ := Disk.removeFile_of_extends he hd hdisk
    refine ⟨fun k node hk => ?_, Disk.files_of_removeFile hdisk, fun k hk => herase ▸ Disk.node?_erase_of_ne _ hk⟩
    by_cases hother : k = place ++ [other]
    · rw [herase, hother, Disk.node?_erase _ (Disk.append_singleton_ne_nil place other)] at hk
      cases hk
    · rw [herase, Disk.node?_erase_of_ne _ hother] at hk
      exact he k node hk

theorem spared_of_passes (hd : d.find? true log.options.root = .ok (place, some .directory)) (hn : other ≠ name)
    (h : Spared derive d place name id descriptor x s) (hv : Passes log s other s') :
    Spared derive d place name id descriptor x s' := by
  obtain ⟨hfewer, hfiles, hnode⟩ := frame_of_passes hd h.fewer hv
  have hne : place ++ [name] ≠ place ++ [other] := fun he => hn (List.append_singleton_inj.1 he).2.symm
  exact ⟨hfewer, worthy_of_file h.worthy (hnode _ hne) (Disk.file_of_files hfiles id)⟩

/-- Cutting the file for a block leaves the page in front. -/
theorem spared_of_recovers (h : Spared derive d place name id descriptor x s) {descriptor' : Descriptor} {file : FileId}
    {r : Replay} (hv : Recovers log s other descriptor' file r s') : Spared derive d place name id descriptor x s' := by
  obtain ⟨hentries, -, hframe⟩ := Block.trim_frame file r.validEnd s.disk
  rw [← hv.disk] at hentries hframe
  have hnode := Disk.node?_of_entries hentries
  refine ⟨fun k node hk => h.fewer k node ((hnode k).symm.trans hk), ?_⟩
  by_cases hid : id = file
  · subst hid
    obtain ⟨hle, hend⟩ := validEnd_of_finds h.worthy hv.finds
    obtain ⟨hcontent, hreadable⟩ := Disk.prefix_source_iff.1 h.worthy.begins
    have hid : id < s.disk.files.length := Disk.lt_of_content_ne_nil fun hnil => by
      have hlength := headerSize_le_length h.worthy.valid
      rw [hnil, List.prefix_nil] at hcontent
      rw [hcontent] at hlength
      exact absurd hlength (by decide)
    obtain ⟨hcut, hsame⟩ := Block.file_trim hid hend
    rw [← hv.disk] at hcut hsame
    refine { h.worthy with node := (hnode _).trans h.worthy.node, begins := Disk.prefix_source_iff.2 ⟨?_, ?_⟩ }
    · rw [Disk.content, hcut]
      split
      · exact List.prefix_take_iff.2 ⟨hcontent, hle⟩
      · exact hcontent
    · rw [hsame]
      exact hreadable
  · exact worthy_of_file h.worthy (hnode _) (hframe id hid)

/-- The file is found under its name, unless calls for it fail. -/
theorem replayFile_of_spared (hb : 0 < log.options.readBuffer)
    (hd : d.find? true log.options.root = .ok (place, some .directory))
    (h : Spared derive d place name id descriptor x s) :
    log.replayFile name (log.options.root ++ [name]) derive additional clock s = (.error .io, s) ∨
      ∃ r rest, Finds log s.disk name descriptor id r ∧ r.records = x.record 0 :: rest := by
  cases ho : s.disk.openRead (log.options.root ++ [name]) with
  | error fault =>
    left
    rw [replayFile, h.worthy.parse]
    dsimp only
    rw [ho]
  | ok handle =>
    cases hr : replay descriptor.encoding log.options.readBuffer (s.disk.source handle) with
    | error fault =>
      left
      rw [replayFile, h.worthy.parse]
      dsimp only
      rw [ho]
      dsimp only
      rw [hr, replayFrom_eq_error hr]
    | ok r =>
      cases handle with
      | directory => cases (replay_directory _ _ s.disk).symm.trans hr
      | file other =>
        cases Disk.openRead_of_extends h.fewer hd h.worthy.node ho
        obtain ⟨rest, hrest⟩ := exists_records_of_prefix hb h.worthy.valid h.worthy.begins
          (Disk.length_bytes_source s.disk id) hr
        have hne : r.records ≠ [] := hrest ▸ List.cons_ne_nil _ _
        exact .inr ⟨r, rest, ⟨h.worthy.parse, ho, hr, hne⟩, hrest⟩

theorem spared_visit (hb : 0 < log.options.readBuffer) (hq : Quiet derive)
    (hd : d.find? true log.options.root = .ok (place, some .directory))
    (h : Spared derive d place name id descriptor x s) (entry : String × Node) :
    Spared derive d place name id descriptor x (log.visit derive additional clock s entry) := by
  obtain ⟨other, node⟩ := entry
  by_cases hname : other = name
  · subst hname
    by_cases hn : node = .directory
    · rw [visit]
      exact (if_pos hn).symm ▸ h
    · obtain hfile | ⟨r, rest, hf, hr⟩ := replayFile_of_spared additional clock
        (s := s.note (.beginningReplay other)) hb hd ⟨h.fewer, h.worthy⟩
      · rw [visit_of_ne additional clock hn, hfile]
        exact ⟨h.fewer, h.worthy⟩
      · obtain ⟨range, hrange⟩ := h.worthy.derives s.disk
        have hderive : derive (x.record 0).id descriptor.dataEncoding s.disk = (.ok range, s.disk) :=
          Prod.ext hrange (hq _ _ _)
        exact spared_of_recovers h (recovers_of_finds additional clock hn hf hr hderive)
  · obtain hv | ⟨descriptor', file, r, hv⟩ := visit_cases additional clock hq s other node
    · exact spared_of_passes hd hname h hv
    · exact spared_of_recovers h hv

theorem spared_foldl (hb : 0 < log.options.readBuffer) (hq : Quiet derive)
    (hd : d.find? true log.options.root = .ok (place, some .directory))
    (h : Spared derive d place name id descriptor x s) (entries : List (String × Node)) :
    Spared derive d place name id descriptor x (entries.foldl (log.visit derive additional clock) s) := by
  induction entries generalizing s with
  | nil => exact h
  | cons entry entries ih => exact ih (spared_visit additional clock hb hq hd h entry)

/-- A rescan leaves the file its name, and the page in front. -/
theorem spared_rescan (hb : 0 < log.options.readBuffer) (hq : Quiet derive)
    (hd : d.find? true log.options.root = .ok (place, some .directory))
    (h : Worthy derive d place name id descriptor x) :
    ∃ s, log.rescan derive additional clock d = .ok s ∧ Worthy derive s.disk place name id descriptor x := by
  have hlist : ∃ entries, d.list log.options.root = .ok entries := ⟨_, by rw [Disk.list, hd]⟩
  obtain ⟨entries, hentries⟩ := hlist
  have hstart : Spared derive d place name id descriptor x { disk := d } := ⟨fun _ _ hk => hk, h⟩
  exact ⟨_, by rw [rescan, hentries], (spared_foldl additional clock hb hq hd hstart entries).worthy⟩

end Log

end WriteAhead
