import WriteAhead.Disk

/-!
Where paths lead to. Main statements: a path that leads somewhere still leads there when more
entries are added (`leads_of_extends`), every directory on the way can be reached by a part of the
path (`exists_leads_of_append`), and the rest of the path can be followed from there
(`locate_append`).
-/

namespace WriteAhead.Disk

/-- A name that is looked up, and not a way to stay or to go back. -/
structure IsPlain (name : String) : Prop where
  ne_self : name ≠ "."
  ne_parent : name ≠ ".."
  isName : isName name = true

/-- `path` leads from the directory `place` to a place, with so many links to be followed at most. -/
inductive Leads (d : Disk) (follow : Bool) : (links : Nat) → (place path goal : Path) → Prop
  | here (links : Nat) (place : Path) : Leads d follow links place [] place
  | stay {links : Nat} {place rest goal : Path} (next : Leads d follow links place rest goal) :
      Leads d follow links place ("." :: rest) goal
  | back {links : Nat} {place rest goal : Path} (next : Leads d follow links place.dropLast rest goal) :
      Leads d follow links place (".." :: rest) goal
  | enter {links : Nat} {place rest goal : Path} {name : String} (plain : IsPlain name)
      (node : d.node? (place ++ [name]) = some .directory) (next : Leads d follow links (place ++ [name]) rest goal) :
      Leads d follow links place (name :: rest) goal
  | free {links : Nat} {place : Path} {name : String} (plain : IsPlain name)
      (node : d.node? (place ++ [name]) = none) : Leads d follow links place [name] (place ++ [name])
  | file {links : Nat} {place : Path} {name : String} {id : FileId} (plain : IsPlain name)
      (node : d.node? (place ++ [name]) = some (.file id)) : Leads d follow links place [name] (place ++ [name])
  | link {links : Nat} {place target : Path} {name : String} (plain : IsPlain name) (stop : follow = false)
      (node : d.node? (place ++ [name]) = some (.link target)) : Leads d follow links place [name] (place ++ [name])
  | jump {links : Nat} {place target rest goal : Path} {name : String} (plain : IsPlain name)
      (node : d.node? (place ++ [name]) = some (.link target)) (go : rest ≠ [] ∨ follow = true)
      (next : Leads d follow links place (target ++ rest) goal) : Leads d follow (links + 1) place (name :: rest) goal

section

variable {d : Disk} {follow : Bool} {links : Nat} {place rest goal : Path} {name : String}

theorem locate_stay : d.locate follow links place ("." :: rest) = d.locate follow links place rest := by
  rw [locate, if_pos rfl]

theorem locate_back : d.locate follow links place (".." :: rest) = d.locate follow links place.dropLast rest := by
  rw [locate, if_neg (by decide), if_pos rfl]

theorem locate_plain (h : IsPlain name) : d.locate follow links place (name :: rest) =
    match d.node? (place ++ [name]) with
    | none => if rest.isEmpty then .ok (place ++ [name]) else .error .missing
    | some .directory => d.locate follow links (place ++ [name]) rest
    | some (.file _) => if rest.isEmpty then .ok (place ++ [name]) else .error .refused
    | some (.link target) =>
      if rest.isEmpty && !follow then .ok (place ++ [name])
      else match links with
        | 0 => .error .refused
        | links + 1 => d.locate follow links place (target ++ rest) := by
  have hname : ¬ (!isName name) = true := by simp [h.isName]
  rw [locate]
  exact (if_neg h.ne_self).trans ((if_neg h.ne_parent).trans (if_neg hname))

theorem locate_enter (h : IsPlain name) (hn : d.node? (place ++ [name]) = some .directory) :
    d.locate follow links place (name :: rest) = d.locate follow links (place ++ [name]) rest := by
  rw [locate_plain h, hn]

theorem locate_jump (h : IsPlain name) {target : Path} (hn : d.node? (place ++ [name]) = some (.link target))
    (hgo : rest ≠ [] ∨ follow = true) :
    d.locate follow (links + 1) place (name :: rest) = d.locate follow links place (target ++ rest) := by
  have hstop : ¬ (rest.isEmpty && !follow) = true := by
    obtain hne | hf := hgo <;> simp_all
  rw [locate_plain h, hn]
  exact if_neg hstop

theorem locate_of_leads (h : Leads d follow links place rest goal) : d.locate follow links place rest = .ok goal := by
  induction h with
  | here => rw [locate]
  | stay _ ih => rw [locate_stay, ih]
  | back _ ih => rw [locate_back, ih]
  | enter plain node _ ih => rw [locate_enter plain node, ih]
  | free plain node =>
    rw [locate_plain plain, node]
    rfl
  | file plain node =>
    rw [locate_plain plain, node]
    rfl
  | link plain stop node =>
    rw [locate_plain plain, node]
    exact if_pos (by simp [stop])
  | jump plain node go _ ih => rw [locate_jump plain node go, ih]

theorem leads_of_locate (h : d.locate follow links place rest = .ok goal) : Leads d follow links place rest goal := by
  fun_induction locate d follow links place rest with
  | case1 =>
    cases h
    exact .here _ _
  | case2 _ _ _ ih => exact .stay (ih h)
  | case3 _ _ _ _ ih => exact .back (ih h)
  | case4 => cases h
  | case5 _ _ _ _ h1 h2 h3 hn he =>
    cases h
    cases List.isEmpty_iff.1 he
    exact .free ⟨h1, h2, by simpa using h3⟩ hn
  | case6 => cases h
  | case7 _ _ _ _ h1 h2 h3 hn ih => exact .enter ⟨h1, h2, by simpa using h3⟩ hn (ih h)
  | case8 _ _ _ _ h1 h2 h3 _ hn he =>
    cases h
    cases List.isEmpty_iff.1 he
    exact .file ⟨h1, h2, by simpa using h3⟩ hn
  | case9 => cases h
  | case10 _ _ _ _ h1 h2 h3 _ hn hs =>
    cases h
    simp only [Bool.and_eq_true, List.isEmpty_iff, Bool.not_eq_true'] at hs
    cases hs.1
    exact .link ⟨h1, h2, by simpa using h3⟩ hs.2 hn
  | case11 => cases h
  | case12 _ _ rest h1 h2 h3 _ hn hs _ ih =>
    refine .jump ⟨h1, h2, by simpa using h3⟩ hn ?_ (ih h)
    by_cases hr : rest = [] <;> simp_all

theorem leads_of_find? {path : Path} {node : Option Node} (h : d.find? follow path = .ok (goal, node)) :
    isText path = true ∧ Leads d follow maxLinks [] path goal ∧ d.node? goal = node := by
  unfold find? at h
  split at h
  · next ht =>
    cases hl : d.locate follow maxLinks [] path with
    | error fault =>
      rw [hl] at h
      cases h
    | ok place =>
      rw [hl] at h
      cases h
      exact ⟨ht, leads_of_locate hl, rfl⟩
  · cases h

theorem find?_of_leads {path : Path} (ht : isText path = true) (h : Leads d follow maxLinks [] path goal) :
    d.find? follow path = .ok (goal, d.node? goal) := by
  rw [find?, if_pos ht, locate_of_leads h]
  rfl

end

/-- Everything in `d` is also in `d'`. -/
def Extends (d d' : Disk) : Prop := ∀ place node, d.node? place = some node → d'.node? place = some node

/-- All that `place` lies in are directories. -/
def Rooted (d : Disk) (place : Path) : Prop := ∀ q, q <+: place → d.node? q = some .directory

section

variable {d d' : Disk} {follow : Bool} {links : Nat} {place goal : Path}

theorem leads_of_extends (he : Extends d d') {path : Path} (h : Leads d follow links place path goal) {node : Node}
    (hn : d.node? goal = some node) : Leads d' follow links place path goal := by
  induction h with
  | here => exact .here _ _
  | stay _ ih => exact .stay (ih hn)
  | back _ ih => exact .back (ih hn)
  | enter plain node _ ih => exact .enter plain (he _ _ node) (ih hn)
  | free plain node => cases node.symm.trans hn
  | file plain node => exact .file plain (he _ _ node)
  | link plain stop node => exact .link plain stop (he _ _ node)
  | jump plain node go _ ih => exact .jump plain (he _ _ node) go (ih hn)

theorem find?_of_extends (he : Extends d d') {path : Path} {node : Node}
    (h : d.find? follow path = .ok (goal, some node)) : d'.find? follow path = .ok (goal, some node) := by
  obtain ⟨ht, hl, hn⟩ := leads_of_find? h
  rw [find?_of_leads ht (leads_of_extends he hl hn), he goal node hn]

theorem rooted_nil (d : Disk) : Rooted d [] := by
  intro q hq
  rw [List.prefix_nil.1 hq]
  rfl

theorem rooted_concat {name : String} (h : Rooted d place) (hn : d.node? (place ++ [name]) = some .directory) :
    Rooted d (place ++ [name]) := by
  intro q hq
  obtain rfl | hq := List.prefix_concat_iff.1 hq
  · exact hn
  · exact h q hq

theorem rooted_dropLast (h : Rooted d place) : Rooted d place.dropLast :=
  fun q hq => h q (hq.trans (List.dropLast_prefix place))

theorem rooted_of_leads {path : Path} (hr : Rooted d place) (h : Leads d follow links place path goal) :
    Rooted d goal.dropLast := by
  induction h with
  | here => exact rooted_dropLast hr
  | stay _ ih => exact ih hr
  | back _ ih => exact ih (rooted_dropLast hr)
  | enter _ node _ ih => exact ih (rooted_concat hr node)
  | jump _ _ _ _ ih => exact ih hr
  | free | file | link =>
    rw [List.dropLast_concat]
    exact hr

theorem exists_leads_of_append {a b : Path} (hb : b ≠ []) (hr : Rooted d place)
    (h : Leads d follow links place (a ++ b) goal) :
    ∃ q, Leads d true links place a q ∧ d.node? q = some .directory := by
  generalize hp : a ++ b = path at h
  induction h generalizing a with
  | here => exact absurd (List.append_eq_nil_iff.1 hp).2 hb
  | stay _ ih =>
    cases a with
    | nil => exact ⟨_, .here _ _, hr _ List.prefix_rfl⟩
    | cons _ a =>
      obtain ⟨rfl, rfl⟩ := List.cons.inj hp
      obtain ⟨q, hq, hn⟩ := ih hr rfl
      exact ⟨q, .stay hq, hn⟩
  | back _ ih =>
    cases a with
    | nil => exact ⟨_, .here _ _, hr _ List.prefix_rfl⟩
    | cons _ a =>
      obtain ⟨rfl, rfl⟩ := List.cons.inj hp
      obtain ⟨q, hq, hn⟩ := ih (rooted_dropLast hr) rfl
      exact ⟨q, .back hq, hn⟩
  | enter plain node _ ih =>
    cases a with
    | nil => exact ⟨_, .here _ _, hr _ List.prefix_rfl⟩
    | cons _ a =>
      obtain ⟨rfl, rfl⟩ := List.cons.inj hp
      obtain ⟨q, hq, hn⟩ := ih (rooted_concat hr node) rfl
      exact ⟨q, .enter plain node hq, hn⟩
  | jump plain node go _ ih =>
    cases a with
    | nil => exact ⟨_, .here _ _, hr _ List.prefix_rfl⟩
    | cons _ a =>
      obtain ⟨rfl, rfl⟩ := List.cons.inj hp
      obtain ⟨q, hq, hn⟩ := ih hr (List.append_assoc _ _ _)
      exact ⟨q, .jump plain node (.inr rfl) hq, hn⟩
  | free | file | link =>
    cases a with
    | nil => exact ⟨_, .here _ _, hr _ List.prefix_rfl⟩
    | cons _ a =>
      have hnil : a ++ b = [] := (List.cons.inj hp).2
      exact absurd (List.append_eq_nil_iff.1 hnil).2 hb

/-- Behind a directory a path is followed as from there. -/
theorem locate_append {a q : Path} (h : Leads d true links place a q) (hq : d.node? q = some .directory) :
    ∃ links', ∀ (follow : Bool) (b : Path), b ≠ [] →
      d.locate follow links place (a ++ b) = d.locate follow links' q b := by
  induction h with
  | here links place => exact ⟨links, fun _ _ _ => rfl⟩
  | stay _ ih =>
    obtain ⟨links', ih⟩ := ih hq
    exact ⟨links', fun follow b hb => by rw [List.cons_append, locate_stay, ih follow b hb]⟩
  | back _ ih =>
    obtain ⟨links', ih⟩ := ih hq
    exact ⟨links', fun follow b hb => by rw [List.cons_append, locate_back, ih follow b hb]⟩
  | enter plain node _ ih =>
    obtain ⟨links', ih⟩ := ih hq
    exact ⟨links', fun follow b hb => by rw [List.cons_append, locate_enter plain node, ih follow b hb]⟩
  | jump plain node go _ ih =>
    obtain ⟨links', ih⟩ := ih hq
    refine ⟨links', fun follow b hb => ?_⟩
    rw [List.cons_append, locate_jump plain node (.inl (List.append_ne_nil_of_right_ne_nil _ hb)), ← List.append_assoc,
      ih follow b hb]
  | free _ node => cases node.symm.trans hq
  | file _ node => cases node.symm.trans hq
  | link _ stop => cases stop

end

theorem lookup_filter {α β : Type} [BEq α] [LawfulBEq α] (keep : α → Bool) (entries : List (α × β)) (k : α) :
    (entries.filter fun entry => keep entry.1).lookup k = if keep k then entries.lookup k else none := by
  induction entries with
  | nil => exact (ite_self none).symm
  | cons entry entries ih =>
    obtain ⟨k', v⟩ := entry
    rw [List.filter_cons, List.lookup_cons]
    by_cases he : k = k'
    · subst he
      by_cases hk : keep k
      · rw [if_pos hk, if_pos hk, List.lookup_cons, BEq.rfl]
      · rw [if_neg hk, ih, if_neg hk, if_neg hk]
    · have hne : (k == k') = false := by simpa using he
      by_cases hk : keep k'
      · rw [if_pos hk, List.lookup_cons, hne, ih]
      · rw [if_neg hk, ih, hne]

theorem node?_of_entries {d d' : Disk} (h : d'.entries = d.entries) (k : Path) : d'.node? k = d.node? k := by
  rw [node?, node?, h]

theorem node?_filter {d d' : Disk} {keep : Path → Bool} (h : d'.entries = d.entries.filter fun entry => keep entry.1)
    {place : Path} (hp : place ≠ []) : d'.node? place = if keep place then d.node? place else none := by
  rw [node?, if_neg hp, h, lookup_filter, node?, if_neg hp]

theorem node?_erase (d : Disk) {place : Path} (hp : place ≠ []) : (d.erase place).node? place = none := by
  rw [@node?_filter d _ (fun k => decide (k ≠ place)) rfl _ hp, if_neg (by simp)]

theorem node?_erase_of_ne (d : Disk) {place k : Path} (hk : k ≠ place) : (d.erase place).node? k = d.node? k := by
  by_cases hnil : k = []
  · rw [node?, if_pos hnil, node?, if_pos hnil]
  · rw [@node?_filter d _ (fun other => decide (other ≠ place)) rfl _ hnil, if_pos (decide_eq_true hk)]

theorem node?_put (d : Disk) {place : Path} (hp : place ≠ []) (node : Node) :
    (d.put place node).node? place = some node := by
  have hkept : (d.entries.filter fun entry => decide (entry.1 ≠ place)).lookup place = none := by
    rw [lookup_filter fun k => decide (k ≠ place)]
    simp
  rw [node?, if_neg hp, put, List.lookup_append, hkept]
  simp

theorem node?_put_of_ne (d : Disk) {place k : Path} (hk : k ≠ place) (node : Node) :
    (d.put place node).node? k = d.node? k := by
  by_cases hnil : k = []
  · rw [node?, if_pos hnil, node?, if_pos hnil]
  · have hlast : [(place, node)].lookup k = none := by
      rw [List.lookup_cons, beq_false_of_ne hk, List.lookup_nil]
    rw [node?, if_neg hnil, put, List.lookup_append, hlast, Option.or_none, lookup_filter fun k => decide (k ≠ place),
      if_pos (decide_eq_true hk), node?, if_neg hnil]

/-- Whether a place is not in the directory `place`, or is in one of the directories `inner` there. -/
def isOutside (place : Path) (inner : List String) (k : Path) : Bool :=
  !place.isPrefixOf k ||
    match k.drop place.length with
    | [] => true
    | name :: _ => inner.contains name

/-- The disk without what is in the directory `place`, except for the directories `inner` there. -/
def outside (d : Disk) (place : Path) (inner : List String) : Disk :=
  { entries := d.entries.filter fun entry => isOutside place inner entry.1 }

section

variable {d d' : Disk} {place : Path} {inner : List String}

theorem isOutside_append (place : Path) (inner : List String) (name : String) (rest : Path) :
    isOutside place inner (place ++ name :: rest) = inner.contains name := by
  have hprefix : place.isPrefixOf (place ++ name :: rest) = true :=
    List.isPrefixOf_iff_prefix.2 (List.prefix_append _ _)
  rw [isOutside, hprefix, List.drop_left]
  rfl

theorem isOutside_concat_of_notMem {name : String} (h : name ∉ inner) :
    isOutside place inner (place ++ [name]) = false := by
  rw [isOutside_append]
  simpa using h

theorem extends_outside (d : Disk) (place : Path) (inner : List String) : Extends (d.outside place inner) d := by
  intro k node hk
  by_cases hnil : k = []
  · subst hnil
    exact hk
  · rw [node?_filter rfl hnil] at hk
    split at hk
    · exact hk
    · cases hk

theorem outside_of_filter {keep : Path → Bool} (h : d'.entries = d.entries.filter fun entry => keep entry.1)
    (hk : ∀ k, isOutside place inner k = true → keep k = true) : d'.outside place inner = d.outside place inner := by
  unfold outside
  rw [h, List.filter_filter]
  congr 1
  apply List.filter_congr
  intro entry _
  cases ho : isOutside place inner entry.1 with
  | false => rfl
  | true => rw [hk _ ho]; rfl

theorem outside_put {k : Path} (hk : isOutside place inner k = false) (node : Node) :
    (d.put k node).outside place inner = d.outside place inner := by
  have hfilter : (d.put k node).outside place inner = (d.erase k).outside place inner := by
    simp [outside, put, erase, hk]
  rw [hfilter]
  refine @outside_of_filter _ _ _ _ (fun other => decide (other ≠ k)) rfl ?_
  intro other ho
  rw [decide_eq_true_eq]
  rintro rfl
  cases hk.symm.trans ho

end

end WriteAhead.Disk
