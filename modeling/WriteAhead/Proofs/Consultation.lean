import WriteAhead.Proofs.Faults
import WriteAhead.Proofs.Isolation

/-!
What combiners are asked. Main statements: the records under an id come to one of five ends, of which three follow a
question (`outcome_gathered`), and in a full iteration there is one question about each id that has several records,
all of them readable, whatever is answered; a look-up of the id puts the same question (`consults_of_iterate`).
-/

namespace WriteAhead

/-- A combiner with a memory, on which its answers may depend. -/
structure Advisor (σ : Type) where
  answer : σ → Combiner
  /-- What it remembers after a question. -/
  remember : σ → CombinerCall → σ

def Advisor.after {σ : Type} (a : Advisor σ) (s : σ) (calls : List CombinerCall) : σ := calls.foldl a.remember s

namespace Iteration

/-- What one step gives, and what the combiner was asked for it. -/
abbrev Log := List (Option (Except Error (Bytes × Bytes)) × List CombinerCall)

variable [Codecs] {σ : Type}

/-- The next step, with a combiner that remembers `s`. -/
def nextBy (it : Iteration) (a : Advisor σ) (s : σ) (d : Disk) : Step := { it with combiner := a.answer s }.next d

/-- The steps of an iteration up to the one that gives nothing, each on a disk of which `on` holds. -/
inductive Walks (a : Advisor σ) (on : Disk → Prop) : σ → Iteration → Log → Prop
  | done {s : σ} {it : Iteration} {d : Disk} (ready : on d) (stop : (it.nextBy a s d).item = none) :
      Walks a on s it [(none, (it.nextBy a s d).calls)]
  | step {s : σ} {it : Iteration} {d : Disk} {item : Except Error (Bytes × Bytes)} {log : Log} (ready : on d)
      (go : (it.nextBy a s d).item = some item)
      (more : Walks a on (a.after s (it.nextBy a s d).calls) (it.nextBy a s d).rest log) :
      Walks a on s it ((some item, (it.nextBy a s d).calls) :: log)

end Iteration

namespace Block

/-- An iteration with the groups of some ids before it. -/
def standing (b : Block) (handle : Handle) (combiner : Combiner) (ids : List Bytes) : Iteration :=
  { b.opened handle combiner with groups := ids.map b.index.forId }

theorem isOpen_standing (b : Block) (handle : Handle) (combiner : Combiner) (ids : List Bytes) :
    (b.standing handle combiner ids).IsOpen handle :=
  Iteration.isOpen_groups (isOpen_opened b handle combiner) _

theorem standing_ids (b : Block) (handle : Handle) (combiner : Combiner) :
    b.standing handle combiner b.index.ids = b.opened handle combiner := by
  rw [standing, ← Index.grouped_eq_map]
  rfl

/-- The id is written in lowercase. -/
theorem message_combine (id : Bytes) (count : Nat) : (Error.combine id count).message =
    s!"Unable to combine {count} objects for id " ++
      String.ofList (id.flatMap fun byte => [Nat.digitChar (byte.toNat / 16), Nat.digitChar (byte.toNat % 16)]) := by
  have hdigit : ∀ n < 16, Bytes.hexDigit n = n.digitChar := by decide
  have hdigits (byte : UInt8) : [Bytes.hexDigit (byte.toNat / 16), Bytes.hexDigit (byte.toNat % 16)] =
      [Nat.digitChar (byte.toNat / 16), Nat.digitChar (byte.toNat % 16)] := by
    have hbyte := byte.toNat_lt
    rw [hdigit (byte.toNat / 16) (by omega), hdigit (byte.toNat % 16) (by omega)]
  simp only [← hdigits]
  rfl

section

variable [Codecs]

/-- There is something to ask about `id`: it has two records or more, and all of their pages can be read. -/
structure Asks (b : Block) (source : Source) (id : Bytes) (call : CombinerCall) : Prop where
  several : 2 ≤ (b.index.forId id).length
  dataEncoding : call.dataEncoding = b.descriptor.dataEncoding
  objects : List.Forall₂ (fun r object => Page.readAt b.descriptor.encoding source r = .ok (id, object))
    (b.index.forId id) call.objects

/-- What comes of `id`, and what `combiner` is asked for it. -/
inductive Outcome (b : Block) (source : Source) (combiner : Combiner) (id : Bytes) :
    Except Error Bytes → List CombinerCall → Prop
  /-- Of the first page that cannot be read it is said why. -/
  | unreadable {before after : List Record} {r : Record} {fault : Error}
      (records : b.index.forId id = before ++ r :: after)
      (readable : ∀ earlier ∈ before, ∃ page, Page.readAt b.descriptor.encoding source earlier = .ok page)
      (fails : Page.readAt b.descriptor.encoding source r = .error fault) (ofPage : fault.IsOfPage) :
      Outcome b source combiner id (.error fault) []
  | single {r : Record} {object : Bytes} (records : b.index.forId id = [r])
      (reads : Page.readAt b.descriptor.encoding source r = .ok (id, object)) :
      Outcome b source combiner id (.ok object) []
  | merged {call : CombinerCall} {object : Bytes} (asks : b.Asks source id call)
      (answer : combiner call.dataEncoding call.objects = .ok (some object)) :
      Outcome b source combiner id (.ok object) [call]
  | refused {call : CombinerCall} (asks : b.Asks source id call)
      (answer : combiner call.dataEncoding call.objects = .ok none) :
      Outcome b source combiner id (.error (.combine id (b.index.forId id).length)) [call]
  | failed {call : CombinerCall} {fault : Error} (asks : b.Asks source id call)
      (answer : combiner call.dataEncoding call.objects = .error fault) :
      Outcome b source combiner id (.error fault) [call]

variable {b : Block} {source : Source} {combiner : Combiner} {id : Bytes}

/-- Records under one id can all be read if each page can be, and it has this id then. -/
theorem mapM_readAt_eq_ok_iff {e : Encoding} {records : List Record} (h : ∀ r ∈ records, r.id = id)
    {objects : List Bytes} : (records.mapM fun r => (Page.readAt e source r).map (·.2)) = .ok objects ↔
      List.Forall₂ (fun r object => Page.readAt e source r = .ok (id, object)) records objects := by
  rw [mapM_eq_ok_iff, List.forall₂_iff_get, List.forall₂_iff_get]
  refine and_congr_right fun _ => forall_congr' fun i => forall_congr' fun hi => forall_congr' fun hi' => ?_
  rw [map_eq_ok_iff]
  constructor
  · rintro ⟨⟨other, object⟩, hpage, rfl⟩
    rw [hpage, (Page.readAt_eq_ok_iff.1 hpage).2.1, h _ (List.get_mem ..)]
  · intro hpage
    exact ⟨_, hpage, rfl⟩

/-- The question about an id, if there is one. -/
def question? (b : Block) (source : Source) (id : Bytes) : Option CombinerCall :=
  match (b.index.forId id).mapM fun r => (Page.readAt b.descriptor.encoding source r).map (·.2) with
  | .error _ => none
  | .ok objects => if 2 ≤ objects.length then some ⟨b.descriptor.dataEncoding, objects⟩ else none

theorem question?_eq_some_iff {call : CombinerCall} : b.question? source id = some call ↔ b.Asks source id call := by
  have hids : ∀ r ∈ b.index.forId id, r.id = id := fun r => Index.id_of_mem_forId
  constructor
  · intro h
    unfold question? at h
    split at h
    · cases h
    · next objects hobjects =>
      have hforall := (mapM_readAt_eq_ok_iff hids).1 hobjects
      split at h
      · next hseveral =>
        cases h
        exact ⟨hforall.length_eq ▸ hseveral, rfl, hforall⟩
      · cases h
  · rintro ⟨several, dataEncoding, objects⟩
    rw [question?, (mapM_readAt_eq_ok_iff hids).2 objects]
    dsimp only
    rw [if_pos (objects.length_eq ▸ several), ← dataEncoding]

/-- What is asked about an id does not depend on what is answered. -/
theorem calls_gathered (b : Block) (source : Source) (combiner : Combiner) (id : Bytes) :
    (b.gathered source combiner id).calls = (b.question? source id).toList := by
  rw [gathered, question?]
  cases (b.index.forId id).mapM fun r => (Page.readAt b.descriptor.encoding source r).map (·.2) with
  | error fault => rfl
  | ok objects =>
    dsimp only
    rw [calls_combine]
    split <;> rfl

theorem outcome_gathered (h : id ∈ b.index.ids) (combiner : Combiner) :
    b.Outcome source combiner id (b.gathered source combiner id).result (b.question? source id).toList := by
  rw [← calls_gathered b source combiner, gathered]
  cases hread : (b.index.forId id).mapM fun r => (Page.readAt b.descriptor.encoding source r).map (·.2) with
  | error fault =>
    obtain ⟨before, r, after, hrecords, hreadable, hr⟩ := exists_of_mapM_eq_error hread
    have hfails := map_eq_error_iff.1 hr
    refine .unreadable hrecords (fun earlier hearlier => ?_) hfails (Page.isOfPage_of_readAt hfails)
    obtain ⟨object, hobject⟩ := hreadable earlier hearlier
    obtain ⟨page, hpage, -⟩ := map_eq_ok_iff.1 hobject
    exact ⟨page, hpage⟩
  | ok objects =>
    have hforall := (mapM_readAt_eq_ok_iff fun r => Index.id_of_mem_forId).1 hread
    rcases objects with _ | ⟨x, _ | ⟨y, rest⟩⟩
    · exact absurd h (Index.forId_eq_nil_iff.1 (List.forall₂_nil_right_iff.1 hforall))
    · obtain ⟨r, rest, hr, hrest, hrecords⟩ := List.forall₂_cons_right_iff.1 hforall
      rw [List.forall₂_nil_right_iff.1 hrest] at hrecords
      exact .single hrecords hr
    · have hlength := hforall.length_eq
      have hasks : b.Asks source id ⟨b.descriptor.dataEncoding, x :: y :: rest⟩ :=
        ⟨hlength ▸ Nat.le_add_left 2 rest.length, rfl, hforall⟩
      dsimp only [combine]
      rw [← hlength]
      split
      · next hanswer => exact .failed hasks hanswer
      · next hanswer => exact .refused hasks hanswer
      · next hanswer => exact .merged hasks hanswer

theorem exists_of_emptyGroup {other : Bytes} {calls : List CombinerCall}
    (h : b.Outcome source combiner id (.error (.corruption (.emptyGroup other))) calls) :
    ∃ call ∈ calls, combiner call.dataEncoding call.objects = .error (.corruption (.emptyGroup other)) := by
  cases h with
  | unreadable records readable fails ofPage => exact ofPage.elim
  | failed asks answer => exact ⟨_, List.mem_singleton_self _, answer⟩

/-- The questions about the ids of a block, in ascending order of these. -/
def asked (b : Block) (source : Source) : List (Bytes × CombinerCall) :=
  b.index.ids.filterMap fun id => (b.question? source id).map (id, ·)

theorem mem_asked_iff {call : CombinerCall} : (id, call) ∈ b.asked source ↔ b.Asks source id call := by
  rw [asked, List.mem_filterMap]
  constructor
  · rintro ⟨other, -, hquestion⟩
    obtain ⟨found, hfound, hpair⟩ := Option.map_eq_some_iff.1 hquestion
    cases hpair
    exact question?_eq_some_iff.1 hfound
  · intro h
    refine ⟨id, by_contra fun hid => ?_, by rw [question?_eq_some_iff.2 h, Option.map_some]⟩
    have hseveral := h.several
    rw [Index.forId_eq_nil_iff.2 hid] at hseveral
    cases hseveral

theorem pairwise_asked (b : Block) (source : Source) : ((b.asked source).map (·.1)).Pairwise (· < ·) := by
  rw [List.pairwise_map]
  refine (Index.pairwise_ids b.index).filterMap _ fun id id' hlt x hx y hy => ?_
  obtain ⟨-, -, rfl⟩ := Option.map_eq_some_iff.1 hx
  obtain ⟨-, -, rfl⟩ := Option.map_eq_some_iff.1 hy
  exact hlt

variable {σ : Type} {a : Advisor σ} {s : σ} {handle : Handle} {d : Disk} {ids : List Bytes}

/-- The steps of an iteration with the groups of some ids before it. -/
def walk (b : Block) (source : Source) (a : Advisor σ) : σ → List Bytes → Iteration.Log
  | _, [] => [(none, [])]
  | s, id :: ids =>
    let combined := b.gathered source (a.answer s) id
    (some (combined.result.map (id, ·)), combined.calls) :: walk b source a (a.after s combined.calls) ids

theorem nextBy_nil (b : Block) (handle : Handle) (combiner : Combiner) (a : Advisor σ) (s : σ) (d : Disk) :
    (b.standing handle combiner []).nextBy a s d = ⟨none, [], (b.standing handle (a.answer s) []).close⟩ :=
  Iteration.next_of_nil (isOpen_standing b handle (a.answer s) []) rfl d

theorem nextBy_cons (hid : id ∈ b.index.ids) (hs : d.source handle = source) (combiner : Combiner) (a : Advisor σ)
    (s : σ) (ids : List Bytes) : (b.standing handle combiner (id :: ids)).nextBy a s d =
      ⟨some ((b.gathered source (a.answer s) id).result.map (id, ·)), (b.gathered source (a.answer s) id).calls,
        b.standing handle (a.answer s) ids⟩ := by
  have hobject : (b.standing handle (a.answer s) (id :: ids)).nextObject source (b.index.forId id) =
      ⟨(b.gathered source (a.answer s) id).result.map (id, ·), (b.gathered source (a.answer s) id).calls⟩ :=
    nextObject_forId hid handle source (a.answer s)
  refine (Iteration.next_of_cons (isOpen_standing b handle (a.answer s) (id :: ids)) rfl d).trans ?_
  rw [Iteration.itemOf, hs, hobject]
  rfl

/-- There is one step for each id, and then one that gives nothing. -/
theorem walks_iff {on : Disk → Prop} (hon : ∃ d, on d) (hs : ∀ d, on d → d.source handle = source)
    (hids : ∀ id ∈ ids, id ∈ b.index.ids) (a : Advisor σ) (s : σ) (combiner : Combiner) {log : Iteration.Log} :
    (b.standing handle combiner ids).Walks a on s log ↔ log = b.walk source a s ids := by
  obtain ⟨d, hd⟩ := hon
  induction ids generalizing s combiner log with
  | nil =>
    constructor
    · intro h
      cases h with
      | done ready stop => rw [nextBy_nil, walk]
      | step ready go more =>
        rw [nextBy_nil] at go
        cases go
    · rintro rfl
      have hdone : (b.standing handle combiner []).Walks a on s _ := .done hd (by rw [nextBy_nil])
      rwa [nextBy_nil] at hdone
  | cons id ids ih =>
    obtain ⟨hid, hids⟩ := List.forall_mem_cons.1 hids
    constructor
    · intro h
      cases h with
      | done ready stop =>
        rw [nextBy_cons hid (hs _ ready)] at stop
        cases stop
      | step ready go more =>
        rw [nextBy_cons hid (hs _ ready)] at go more ⊢
        cases go
        rw [walk, (ih hids _ _).1 more]
    · rintro rfl
      have hnext := nextBy_cons hid (hs d hd) combiner a s ids
      have hmore := (ih hids (a.after s (b.gathered source (a.answer s) id).calls) (a.answer s)).2 rfl
      have hstep : (b.standing handle combiner (id :: ids)).Walks a on s _ :=
        .step hd (congrArg Iteration.Step.item hnext) (by rw [hnext]; exact hmore)
      rwa [hnext] at hstep

theorem calls_walk (b : Block) (source : Source) (a : Advisor σ) (s : σ) (ids : List Bytes) :
    (b.walk source a s ids).flatMap (·.2) = ids.filterMap (b.question? source) := by
  induction ids generalizing s with
  | nil => rfl
  | cons id ids ih =>
    rw [walk, List.flatMap_cons, ih, calls_gathered, List.filterMap_cons]
    cases b.question? source id <;> rfl

/-- The combiner that is asked about an id has been asked about those before it. -/
theorem getElem?_walk (b : Block) (source : Source) (a : Advisor σ) (s : σ) {i : Nat} (h : ids[i]? = some id) :
    ∃ s', s' = a.after s (((b.walk source a s ids).take i).flatMap (·.2)) ∧ (b.walk source a s ids)[i]? =
      some (some ((b.gathered source (a.answer s') id).result.map (id, ·)),
        (b.gathered source (a.answer s') id).calls) := by
  induction ids generalizing s i with
  | nil => cases h
  | cons first ids ih =>
    cases i with
    | zero =>
      cases h
      exact ⟨s, rfl, rfl⟩
    | succ i =>
      obtain ⟨s', hs', hi⟩ := ih (a.after s (b.gathered source (a.answer s) first).calls) h
      refine ⟨s', ?_, hi⟩
      rw [hs', walk, List.take_succ_cons, List.flatMap_cons]
      exact List.foldl_append.symm

theorem drop_walk (b : Block) (source : Source) (a : Advisor σ) (s : σ) (ids : List Bytes) :
    (b.walk source a s ids).drop ids.length = [(none, [])] := by
  induction ids generalizing s with
  | nil => rfl
  | cons id ids ih => exact ih _

/-- What is asked in the steps `steps` of a full iteration, if its file as open under `handle` gives `source`, and that
look-ups ask the same. -/
structure Consults (b : Block) (handle : Handle) (source : Source) (a : Advisor σ) (s : σ) (ids : List Bytes)
    (asked : List (Bytes × CombinerCall)) (steps : Iteration.Log) : Prop where
  ascending : ids.Pairwise (· < ·)
  indexed : ∀ id, id ∈ ids ↔ ∃ r ∈ b.index, r.id = id
  /-- There is one question about each id about which there is something to ask, in ascending order of the ids. -/
  asked_iff : ∀ id call, (id, call) ∈ asked ↔ b.Asks source id call
  ordered : (asked.map (·.1)).Pairwise (· < ·)
  calls : steps.flatMap (·.2) = asked.map (·.2)
  drained : ∀ combiner d it n, b.iterate combiner d = .ok it → it.handle = some handle → d.source handle = source →
    ids.length < n → (Iteration.drain d n it).2.1 = asked.map (·.2)
  /-- The combiner has been asked about the ids before. Whichever is given to a look-up, it is asked the same, as long
  as the look-up finds the same in its file. -/
  step : ∀ (i : Nat) (id : Bytes), ids[i]? = some id → ∃ result calls,
    steps[i]? = some (some (result.map (id, ·)), calls) ∧
    b.Outcome source (a.answer (a.after s ((steps.take i).flatMap (·.2)))) id result calls ∧
    ∀ combiner d other, b.openReader d = .ok other → ∃ result' calls',
      (b.find id combiner d).1 = ⟨result'.map some, calls'⟩ ∧ b.Outcome (d.source other) combiner id result' calls' ∧
      (d.source other = source → calls' = calls)
  ended : steps.drop ids.length = [(none, [])]
  absent : ∀ id, id ∉ ids → ∀ combiner d, (b.find id combiner d).1 = ⟨.ok none, []⟩
  unopened : ∀ id combiner d fault, b.openReader d = .error fault → (b.find id combiner d).1.calls = []
  /-- That there is no object for an id can only be the answer of the combiner itself. -/
  nonempty : ∀ source combiner id calls other,
    b.Outcome source combiner id (.error (.corruption (.emptyGroup other))) calls →
    ∃ call ∈ calls, combiner call.dataEncoding call.objects = .error (.corruption (.emptyGroup other))
  refusal : ∀ (id : Bytes) (count : Nat), (Error.combine id count).message =
    s!"Unable to combine {count} objects for id " ++
      String.ofList (id.flatMap fun byte => [Nat.digitChar (byte.toNat / 16), Nat.digitChar (byte.toNat % 16)])

theorem calls_find_of_openReader {fault : Error} (h : b.openReader d = .error fault) (combiner : Combiner) :
    (b.find id combiner d).1.calls = [] := by
  rw [find]
  cases b.index.forId id with
  | nil => rfl
  | cons r rest => rw [h]

theorem map_asked (b : Block) (source : Source) :
    (b.asked source).map (·.2) = b.index.ids.filterMap (b.question? source) := by
  rw [asked, List.map_filterMap]
  simp only [Option.map_map, Function.comp_def, Option.map_id']

theorem calls_drain_opened (b : Block) (handle : Handle) (combiner : Combiner) (d : Disk) {n : Nat}
    (hn : b.index.ids.length < n) : (Iteration.drain d n (b.opened handle combiner)).2.1 =
      (b.asked (d.source handle)).map (·.2) := by
  rw [Index.ids, List.length_map] at hn
  rw [Iteration.calls_drain (isOpen_opened b handle combiner) d hn, map_asked, List.filterMap_eq_flatMap_toList]
  change b.index.grouped.flatMap _ = _
  rw [Index.grouped_eq_map, List.flatMap_map]
  refine List.flatMap_congr fun id hid => ?_
  rw [nextObject_forId hid, calls_gathered]

/-- Combiners are asked as they are promised to be, whatever has become of the file. -/
theorem consults_of_iterate {it : Iteration} (h : b.iterate (a.answer s) d = .ok it) :
    ∃ handle ids asked steps, it.handle = some handle ∧
      (∀ steps', it.Walks a (fun d' => d'.source handle = d.source handle) s steps' ↔ steps' = steps) ∧
      b.Consults handle (d.source handle) a s ids asked steps := by
  obtain ⟨handle, rfl⟩ := eq_opened_of_iterate h
  refine ⟨handle, b.index.ids, b.asked (d.source handle), b.walk (d.source handle) a s b.index.ids, rfl,
    fun steps' => ?_, Index.pairwise_ids b.index, fun _ => Index.mem_ids_iff, fun _ _ => mem_asked_iff,
    pairwise_asked b _, ?_, fun combiner d' it n hit hhandle hd hn => ?_, fun i id hi => ?_, drop_walk b _ a s _,
    fun id hid combiner d' => find_of_notMem hid combiner d',
    fun id combiner d' fault hfault => calls_find_of_openReader hfault combiner,
    fun source combiner id calls other => exists_of_emptyGroup, message_combine⟩
  · have hon : ∃ d', Disk.source d' handle = d.source handle := ⟨d, rfl⟩
    rw [← standing_ids]
    exact walks_iff hon (fun d' hd => hd) (fun id hid => hid) a s _
  · rw [calls_walk, map_asked]
  · obtain ⟨other, rfl⟩ := eq_opened_of_iterate hit
    cases hhandle
    rw [← hd]
    exact calls_drain_opened b _ combiner d' hn
  · have hid := List.mem_of_getElem? hi
    obtain ⟨s', hs', hstep⟩ := getElem?_walk b (d.source handle) a s hi
    rw [calls_gathered] at hstep
    refine ⟨_, _, hstep, hs' ▸ outcome_gathered hid _, fun combiner d' other hopen => ?_⟩
    have hfind := find_of_mem hopen hid combiner
    rw [calls_gathered] at hfind
    exact ⟨_, _, hfind, outcome_gathered hid combiner, fun hsame => by rw [hsame]⟩

end

/-- It answers with the first object once, and then no more. -/
def once : Advisor Bool where
  answer fresh _ objects := .ok (if fresh then objects.head? else none)
  remember _ _ := false

theorem consults_sample : ∃ it handle ids asked steps, sample.iterate (once.answer true) (sampleFile []) = .ok it ∧
    it.Walks once (fun d => d.source handle = (sampleFile []).source handle) true steps ∧
    sample.Consults handle ((sampleFile []).source handle) once true ids asked steps ∧
    ([7], ⟨"", [[8], [8]]⟩) ∈ asked := by
  have hit := iterate_of_shows (shows_sample []) (once.answer true)
  obtain ⟨handle, ids, asked, steps, hhandle, hwalks, hconsults⟩ := consults_of_iterate hit
  cases hhandle
  have hread : Page.readAt .none (.ofBytes (Page.samplePage ++ [])) ⟨[7], 0, 26⟩ = .ok ([7], [8]) :=
    Page.readAt_eq_ok_iff.2 ⟨by decide, rfl, Page.isPage_sample, rfl⟩
  have hasks : sample.Asks (.ofBytes (Page.samplePage ++ [])) [7] ⟨"", [[8], [8]]⟩ :=
    ⟨by decide, rfl, .cons hread (.cons hread .nil)⟩
  exact ⟨_, _, ids, asked, steps, hit, (hwalks steps).2 rfl, hconsults, (hconsults.asked_iff _ _).2 hasks⟩

end Block

end WriteAhead
