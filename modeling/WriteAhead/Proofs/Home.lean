import WriteAhead.Proofs.Paths

/-!
A directory whose path does not lead through what is in it. Main statements: what is in it can be
found, made and removed, and the directory stays found (`find?_append`, `removeFile_of_isHome`,
`list_of_isHome`).
-/

namespace WriteAhead.Disk

/-- `root` leads to the directory `place`, whatever is in it besides the directories `inner`. -/
structure IsHome (d : Disk) (root place : Path) (inner : List String) : Prop where
  found : (d.outside place inner).find? true root = .ok (place, some .directory)
  inner : ∀ name ∈ inner, d.node? (place ++ [name]) = some .directory

section

variable {d d' : Disk} {root place : Path} {inner : List String} {name : String}

theorem isText_append (a b : Path) : isText (a ++ b) = (isText a && isText b) :=
  List.all_append

theorem append_singleton_ne_nil (place : Path) (name : String) : place ++ [name] ≠ [] :=
  List.append_ne_nil_of_right_ne_nil _ (List.cons_ne_nil _ _)

/-- Names in the directory may go, except for the directories `inner`. -/
theorem isHome_of_filter (h : IsHome d root place inner) {keep : Path → Bool}
    (he : d'.entries = d.entries.filter fun entry => keep entry.1)
    (hk : ∀ k, isOutside place inner k = true → keep k = true) : IsHome d' root place inner := by
  refine ⟨(outside_of_filter he hk) ▸ h.found, fun name hn => ?_⟩
  have hout : isOutside place inner (place ++ [name]) = true := by
    rw [isOutside_append]
    simpa using hn
  rw [node?_filter he (append_singleton_ne_nil place name), if_pos (hk _ hout), h.inner name hn]

theorem isHome_of_entries (h : IsHome d root place inner) (he : d'.entries = d.entries) :
    IsHome d' root place inner := by
  have hall : d'.entries = d.entries.filter fun entry => (fun _ => true) entry.1 := by
    rw [he, List.filter_eq_self.2 fun _ _ => rfl]
  exact isHome_of_filter h hall fun _ _ => rfl

theorem isHome_put (h : IsHome d root place inner) (hn : name ∉ inner) (node : Node) :
    IsHome (d.put (place ++ [name]) node) root place inner := by
  refine ⟨?_, fun other ho => ?_⟩
  · rw [outside_put (isOutside_concat_of_notMem hn)]
    exact h.found
  · have hne : place ++ [other] ≠ place ++ [name] := by
      intro he
      rw [(List.append_singleton_inj.1 he).2] at ho
      exact hn ho
    rw [node?_put_of_ne d hne, h.inner other ho]

theorem isHome_erase (h : IsHome d root place inner) (hn : d.node? (place ++ [name]) ≠ some .directory) :
    IsHome (d.erase (place ++ [name])) root place inner := by
  refine @isHome_of_filter _ _ _ _ _ h (fun k => decide (k ≠ place ++ [name])) rfl fun k hk => ?_
  rw [decide_eq_true_eq]
  rintro rfl
  rw [isOutside_append, List.contains_iff_mem] at hk
  exact hn (h.inner name hk)

theorem isText_of_isHome (h : IsHome d root place inner) : isText root = true :=
  (leads_of_find? h.found).1

theorem leads_of_isHome (h : IsHome d root place inner) : Leads d true maxLinks [] root place := by
  obtain ⟨-, hl, hn⟩ := leads_of_find? h.found
  exact leads_of_extends (extends_outside d place inner) hl hn

theorem node?_of_isHome (h : IsHome d root place inner) : d.node? place = some .directory :=
  extends_outside d place inner _ _ (leads_of_find? h.found).2.2

theorem find?_of_isHome (h : IsHome d root place inner) : d.find? true root = .ok (place, some .directory) := by
  rw [find?_of_leads (isText_of_isHome h) (leads_of_isHome h), node?_of_isHome h]

/-- What is in the directory is looked up as from there. -/
theorem find?_append (h : d.find? true root = .ok (place, some .directory)) :
    ∃ links, ∀ follow name, isText [name] = true →
      d.find? follow (root ++ [name]) = (d.locate follow links place [name]).map fun goal => (goal, d.node? goal) := by
  obtain ⟨ht, hl, hn⟩ := leads_of_find? h
  obtain ⟨links, hlinks⟩ := locate_append hl hn
  refine ⟨links, fun follow name ht' => ?_⟩
  rw [find?, isText_append, ht, ht', Bool.and_self, if_pos rfl, hlinks follow [name] (List.cons_ne_nil _ _)]

/-- What a name leads to besides directories is in the directory under this name, unless a link there is followed. -/
theorem goal_of_find? (h : d.find? true root = .ok (place, some .directory)) {follow : Bool} {goal : Path} {node : Node}
    (hf : d.find? follow (root ++ [name]) = .ok (goal, some node)) (hn : node ≠ .directory)
    (hl : follow = true → ∀ target, d.node? (place ++ [name]) ≠ some (.link target)) : goal = place ++ [name] := by
  obtain ⟨hroot, hleads, hplace⟩ := leads_of_find? h
  obtain ⟨ht, -, hgoal⟩ := leads_of_find? hf
  rw [isText_append, hroot, Bool.true_and] at ht
  obtain ⟨links, hlinks⟩ := find?_append h
  rw [hlinks follow name ht] at hf
  cases hlocate : d.locate follow links place [name] with
  | error fault =>
    rw [hlocate] at hf
    cases hf
  | ok goal' =>
    rw [hlocate] at hf
    obtain ⟨rfl, -⟩ := Prod.mk.inj (Except.ok.inj hf)
    cases leads_of_locate hlocate with
    | stay next =>
      cases next
      cases hn (Option.some.inj (hgoal.symm.trans hplace))
    | back next =>
      cases next
      have hparent := rooted_of_leads (rooted_nil d) hleads _ List.prefix_rfl
      cases hn (Option.some.inj (hgoal.symm.trans hparent))
    | enter _ _ next =>
      cases next
      rfl
    | free | file | link => rfl
    | jump _ node go => exact absurd node (hl (go.resolve_left (not_not_intro rfl)) _)

theorem locate_name {links : Nat} (h : IsPlain name) : d.locate false links place [name] = .ok (place ++ [name]) := by
  rw [locate_plain h]
  cases d.node? (place ++ [name]) with
  | none => rfl
  | some node =>
    cases node with
    | directory => exact locate.eq_1 ..
    | file | link => rfl

theorem find?_concat (h : d.find? true root = .ok (place, some .directory)) (hn : IsPlain name)
    (ht : isText [name] = true) :
    d.find? false (root ++ [name]) = .ok (place ++ [name], d.node? (place ++ [name])) := by
  obtain ⟨links, hlinks⟩ := find?_append h
  rw [hlinks false name ht, locate_name hn]
  rfl

theorem find?_concat_of_ne_link (h : d.find? true root = .ok (place, some .directory)) (hn : IsPlain name)
    (ht : isText [name] = true) (hl : ∀ target, d.node? (place ++ [name]) ≠ some (.link target)) :
    d.find? true (root ++ [name]) = .ok (place ++ [name], d.node? (place ++ [name])) := by
  obtain ⟨links, hlinks⟩ := find?_append h
  have hlocate : d.locate true links place [name] = .ok (place ++ [name]) := by
    rw [locate_plain hn]
    cases hnode : d.node? (place ++ [name]) with
    | none => rfl
    | some node =>
      cases node with
      | directory => exact locate.eq_1 ..
      | file => rfl
      | link target => exact absurd hnode (hl target)
  rw [hlinks true name ht, hlocate]
  rfl

theorem openRead_concat (h : d.find? true root = .ok (place, some .directory)) (hn : IsPlain name)
    (ht : isText [name] = true) {id : FileId} (hf : d.node? (place ++ [name]) = some (.file id)) :
    d.openRead (root ++ [name]) = .ok (.file id) := by
  have hl : ∀ target, d.node? (place ++ [name]) ≠ some (.link target) := by
    intro target hlink
    cases hf.symm.trans hlink
  rw [openRead, find?_concat_of_ne_link h hn ht hl, hf]

theorem removeFile_concat (h : d.find? true root = .ok (place, some .directory)) (hn : IsPlain name)
    (ht : isText [name] = true) {id : FileId} (hf : d.node? (place ++ [name]) = some (.file id)) :
    d.removeFile (root ++ [name]) = .ok (d.erase (place ++ [name])) := by
  rw [removeFile, find?_concat h hn ht, hf]

/-- A name that nothing can have is refused. -/
theorem find?_concat_eq_refused (h : d.find? true root = .ok (place, some .directory)) (hself : name ≠ ".")
    (hparent : name ≠ "..") (hn : ¬ (IsPlain name ∧ isText [name] = true)) (follow : Bool) :
    d.find? follow (root ++ [name]) = .error .refused := by
  by_cases ht : isText [name] = true
  · have hname : isName name = false := Bool.eq_false_iff.2 fun hname => hn ⟨⟨hself, hparent, hname⟩, ht⟩
    obtain ⟨links, hlinks⟩ := find?_append h
    rw [hlinks follow name ht, locate, if_neg hself, if_neg hparent, hname]
    rfl
  · have htext : ¬ isText (root ++ [name]) = true := by
      rw [isText_append, Bool.and_eq_true]
      exact fun hboth => ht hboth.2
    rw [find?, if_neg htext]

theorem find?_name (h : IsHome d root place inner) (hn : IsPlain name) (ht : isText [name] = true) :
    d.find? false (root ++ [name]) = .ok (place ++ [name], d.node? (place ++ [name])) :=
  find?_concat (find?_of_isHome h) hn ht

theorem find?_name_of_ne_link (h : IsHome d root place inner) (hn : IsPlain name) (ht : isText [name] = true)
    (hl : ∀ target, d.node? (place ++ [name]) ≠ some (.link target)) :
    d.find? true (root ++ [name]) = .ok (place ++ [name], d.node? (place ++ [name])) :=
  find?_concat_of_ne_link (find?_of_isHome h) hn ht hl

theorem openRead_name (h : IsHome d root place inner) (hn : IsPlain name) (ht : isText [name] = true) {id : FileId}
    (hf : d.node? (place ++ [name]) = some (.file id)) : d.openRead (root ++ [name]) = .ok (.file id) :=
  openRead_concat (find?_of_isHome h) hn ht hf

theorem removeFile_name (h : IsHome d root place inner) (hn : IsPlain name) (ht : isText [name] = true) {id : FileId}
    (hf : d.node? (place ++ [name]) = some (.file id)) :
    d.removeFile (root ++ [name]) = .ok (d.erase (place ++ [name])) :=
  removeFile_concat (find?_of_isHome h) hn ht hf

/-- The names of a directory that can be looked up, and what they would be found as. -/
theorem plain_of_find? (h : IsHome d root place inner) (hself : name ≠ ".") (hparent : name ≠ "..") {follow : Bool}
    {goal : Path} {node : Option Node} (hf : d.find? follow (root ++ [name]) = .ok (goal, node)) :
    IsPlain name ∧ isText [name] = true := by
  refine Classical.byContradiction fun hn => ?_
  cases hf.symm.trans (find?_concat_eq_refused (find?_of_isHome h) hself hparent hn follow)

/-- Removing takes nothing away but one name in the directory, also where some of the disk is gone already. -/
theorem removeFile_of_extends {d₀ : Disk} (he : Extends d d₀) (h : d₀.find? true root = .ok (place, some .directory))
    (hr : d.removeFile (root ++ [name]) = .ok d') :
    d.node? (place ++ [name]) ≠ some .directory ∧ d' = d.erase (place ++ [name]) := by
  unfold removeFile at hr
  split at hr
  · cases hr
  · cases hr
  · cases hr
  · next goal node hnode hfind =>
    cases hr
    have hgoal := goal_of_find? h (find?_of_extends he hfind) hnode (by simp)
    subst hgoal
    exact ⟨fun hn => hnode (Option.some.inj ((leads_of_find? hfind).2.2.symm.trans hn)), rfl⟩

theorem removeFile_of_isHome (h : IsHome d root place inner) (hr : d.removeFile (root ++ [name]) = .ok d') :
    d.node? (place ++ [name]) ≠ some .directory ∧ d' = d.erase (place ++ [name]) :=
  removeFile_of_extends (fun _ _ hn => hn) (find?_of_isHome h) hr

theorem openRead_of_extends {d₀ : Disk} (he : Extends d d₀) (h : d₀.find? true root = .ok (place, some .directory))
    {id : FileId} (hf : d.node? (place ++ [name]) = some (.file id)) {other : FileId}
    (ho : d.openRead (root ++ [name]) = .ok (.file other)) : other = id := by
  unfold openRead at ho
  split at ho
  · cases ho
  · cases ho
  · next goal id' hfind =>
    cases ho
    have hl : true = true → ∀ target, d₀.node? (place ++ [name]) ≠ some (.link target) := by
      intro _ target hlink
      cases (he _ _ hf).symm.trans hlink
    have hgoal := goal_of_find? h (find?_of_extends he hfind) (by simp) hl
    subst hgoal
    cases hf.symm.trans (leads_of_find? hfind).2.2
    rfl
  · cases ho
  · cases ho

theorem removeTree_of_isHome (h : IsHome d root place inner) (hn : IsPlain name) (ht : isText [name] = true) :
    d.removeTree (root ++ [name]) =
      match d.node? (place ++ [name]) with
      | none => .error .missing
      | some (.file _) => .error .refused
      | some _ => .ok (d.eraseTree (place ++ [name])) := by
  rw [removeTree, find?_name h hn ht]
  cases hnode : d.node? (place ++ [name]) with
  | none => rfl
  | some node => cases node <;> rfl

theorem list_of_isHome (h : IsHome d root place inner) : ∃ entries, d.list root = .ok entries ∧
    ∀ name node, d.node? (place ++ [name]) = some node → (name, node) ∈ entries := by
  refine ⟨_, by rw [list, find?_of_isHome h], fun name node hn => ?_⟩
  rw [node?, if_neg (List.append_ne_nil_of_right_ne_nil _ (List.cons_ne_nil _ _))] at hn
  obtain ⟨before, after, hsplit, -⟩ := List.lookup_eq_some_iff.1 hn
  refine List.mem_filterMap.2 ⟨(place ++ [name], node), hsplit ▸ List.mem_append_right _ List.mem_cons_self, ?_⟩
  simp

theorem makeTree_of_isHome (h : IsHome d root place inner) (names path : Path) (hp : path ++ names = root) :
    makeTree path names d = (.ok (), d) := by
  induction names generalizing path with
  | nil => rfl
  | cons name names ih =>
    have hsplit : (path ++ [name]) ++ names = root := by rw [List.append_assoc, List.singleton_append, hp]
    have hfind : ∃ q, d.find? true (path ++ [name]) = .ok (q, some .directory) := by
      by_cases hlast : names = []
      · rw [hlast, List.append_nil] at hsplit
        exact ⟨place, hsplit ▸ find?_of_isHome h⟩
      · obtain ⟨q, hq, hnode⟩ := exists_leads_of_append hlast (rooted_nil d) (hsplit ▸ leads_of_isHome h)
        have ht := isText_of_isHome h
        rw [← hsplit, isText_append, Bool.and_eq_true] at ht
        exact ⟨q, by rw [find?_of_leads ht.1 hq, hnode]⟩
    obtain ⟨q, hfind⟩ := hfind
    rw [makeTree, makeDirectory, hfind]
    exact ih _ hsplit

/-- There is nothing to be made for a directory that is there. -/
theorem makePath_of_isHome (h : IsHome d root place inner) : d.makePath root = (.ok (), d) := by
  rw [makePath, if_pos (isText_of_isHome h), makeTree_of_isHome h root [] rfl]

end

end WriteAhead.Disk
