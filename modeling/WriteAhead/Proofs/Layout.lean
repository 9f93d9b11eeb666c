import WriteAhead.Proofs.ValidPage

/-!
Files as sequences of valid pages. Main statements: the pages in front of what begins with no page
are determined by the bytes (`entries_unique`), and every object is read at the place of its page
(`readAt_getElem?`).
-/

namespace WriteAhead.Page

/-- An object under an id, and the page that holds it. -/
structure Entry where
  id : Bytes
  object : Bytes
  page : Bytes

namespace Entry

def IsValid [Codecs] (e : Encoding) (x : Entry) : Prop := IsPage e x.page x.id x.object

def record (start : Nat) (x : Entry) : Record := ⟨x.id, start, UInt32.ofNat x.page.length⟩

end Entry

def joined (xs : List Entry) : Bytes := xs.flatMap (·.page)

/-- The records of pages that follow each other from `start` on. -/
def layout (start : Nat) : List Entry → Index
  | [] => []
  | x :: xs => x.record start :: layout (start + x.page.length) xs

def NoPage [Codecs] (e : Encoding) (bytes : Bytes) : Prop :=
  ∀ p id object, p <+: bytes → ¬ IsPage e p id object

@[simp] theorem joined_nil : joined [] = [] := rfl

@[simp] theorem joined_cons (x : Entry) (xs : List Entry) : joined (x :: xs) = x.page ++ joined xs := rfl

@[simp] theorem joined_append (xs ys : List Entry) : joined (xs ++ ys) = joined xs ++ joined ys :=
  List.flatMap_append

theorem joined_eq_flatten (xs : List Entry) : joined xs = (xs.map (·.page)).flatten :=
  List.flatMap_def

theorem length_page_le {x : Entry} {xs : List Entry} (h : x ∈ xs) : x.page.length ≤ (joined xs).length := by
  induction xs with
  | nil => cases h
  | cons y xs ih =>
    rw [joined_cons, List.length_append]
    obtain rfl | h := List.mem_cons.1 h
    · exact Nat.le_add_right _ _
    · exact Nat.le_trans (ih h) (Nat.le_add_left _ _)

@[simp] theorem length_layout (start : Nat) (xs : List Entry) : (layout start xs).length = xs.length := by
  induction xs generalizing start with
  | nil => rfl
  | cons x xs ih => rw [layout, List.length_cons, ih, List.length_cons]

theorem layout_append (start : Nat) (xs ys : List Entry) :
    layout start (xs ++ ys) = layout start xs ++ layout (start + (joined xs).length) ys := by
  induction xs generalizing start with
  | nil => rfl
  | cons x xs ih =>
    rw [List.cons_append, layout, ih, layout, List.cons_append, joined_cons, List.length_append, Nat.add_assoc]

theorem take_layout (start : Nat) (xs : List Entry) (k : Nat) :
    (layout start xs).take k = layout start (xs.take k) := by
  induction xs generalizing start k with
  | nil => rw [layout, List.take_nil, List.take_nil, layout]
  | cons x xs ih =>
    cases k with
    | zero => rfl
    | succ k => rw [layout, List.take_succ_cons, ih, List.take_succ_cons, layout]

theorem map_id_layout (start : Nat) (xs : List Entry) : (layout start xs).map (·.id) = xs.map (·.id) := by
  induction xs generalizing start with
  | nil => rfl
  | cons x xs ih => rw [layout, List.map_cons, ih, List.map_cons, Entry.record]

theorem length_forId_layout (start : Nat) (xs : List Entry) (id : Bytes) :
    ((layout start xs).forId id).length = ((xs.filter fun x => x.id == id).map (·.object)).length := by
  have hids := congrArg (fun ids => (ids.filter fun other => other == id).length) (map_id_layout start xs)
  rw [List.filter_map, List.filter_map, List.length_map, List.length_map] at hids
  rw [List.length_map]
  exact hids

theorem getElem?_layout (start : Nat) (xs : List Entry) (i : Nat) :
    (layout start xs)[i]? = xs[i]?.map (Entry.record (start + (joined (xs.take i)).length)) := by
  induction xs generalizing start i with
  | nil => rfl
  | cons x xs ih =>
    cases i with
    | zero => rfl
    | succ i =>
      simp only [layout, List.getElem?_cons_succ, List.take_succ_cons, joined_cons, List.length_append]
      rw [ih, Nat.add_assoc]

theorem tiles_layout (start : Nat) {xs : List Entry} (h : ∀ x ∈ xs, x.page.length < UInt32.size) :
    (layout start xs).Tiles start (start + (joined xs).length) := by
  induction xs generalizing start with
  | nil => rfl
  | cons x xs ih =>
    have hx : (UInt32.ofNat x.page.length).toNat = x.page.length :=
      UInt32.toNat_ofNat_of_lt' (h x List.mem_cons_self)
    refine ⟨rfl, ?_⟩
    rw [joined_cons, List.length_append, ← Nat.add_assoc, Entry.record, hx]
    exact ih _ fun y hy => h y (List.mem_cons_of_mem _ hy)

section

variable [Codecs] {e : Encoding}

theorem noPage_nil : NoPage e [] := by
  intro p id object hp hv
  have hlen := headerSize_le_length hv
  rw [List.prefix_nil.1 hp] at hlen
  cases hlen

theorem joined_ne_nil {xs : List Entry} (hx : ∀ x ∈ xs, x.IsValid e) (hne : xs ≠ []) : joined xs ≠ [] := by
  obtain ⟨x, xs, rfl⟩ := List.exists_cons_of_ne_nil hne
  intro h
  have hlen := headerSize_le_length (hx x List.mem_cons_self)
  have hle := length_page_le (List.mem_cons_self (a := x) (l := xs))
  rw [h] at hle
  exact absurd (Nat.le_trans hlen hle) (by decide)

/-- What is torn off in the middle of a page does not begin with one. -/
theorem noPage_of_torn {page torn id object : Bytes} (hpage : IsPage e page id object) (ht : torn <+: page)
    (hne : torn ≠ page) : NoPage e torn :=
  fun _ _ _ hp => not_isPage_of_torn hpage ht hne hp

/-- In front of pages of another encoding there is nothing to be read. -/
theorem noPage_of_ne {e' : Encoding} (hne : e ≠ e') {xs : List Entry} (hx : ∀ x ∈ xs, x.IsValid e') (hxs : xs ≠ [])
    (tail : Bytes) : NoPage e (joined xs ++ tail) := by
  obtain ⟨x, xs, rfl⟩ := List.exists_cons_of_ne_nil hxs
  rintro p id object ⟨rest, hrest⟩ hp
  rw [joined_cons, List.append_assoc] at hrest
  exact hne (encoding_eq_of_isPage_append hp (hx x List.mem_cons_self) hrest)

theorem entries_unique {xs ys : List Entry} {tail tail' : Bytes} (hx : ∀ x ∈ xs, x.IsValid e)
    (hy : ∀ y ∈ ys, y.IsValid e) (ht : NoPage e tail) (ht' : NoPage e tail')
    (h : joined xs ++ tail = joined ys ++ tail') : xs = ys ∧ tail = tail' := by
  induction xs generalizing ys with
  | nil =>
    cases ys with
    | nil => exact ⟨rfl, h⟩
    | cons y ys =>
      rw [joined_nil, List.nil_append, joined_cons, List.append_assoc] at h
      exact absurd (hy y List.mem_cons_self) (ht _ _ _ ⟨_, h.symm⟩)
  | cons x xs ih =>
    cases ys with
    | nil =>
      rw [joined_nil, List.nil_append, joined_cons, List.append_assoc] at h
      exact absurd (hx x List.mem_cons_self) (ht' _ _ _ ⟨_, h⟩)
    | cons y ys =>
      rw [joined_cons, joined_cons, List.append_assoc, List.append_assoc] at h
      obtain ⟨hpage, hrest, hid, hobject⟩ := eq_of_isPage_append (hx x List.mem_cons_self) (hy y List.mem_cons_self) h
      obtain ⟨rfl, htail⟩ := ih (fun z hz => hx z (List.mem_cons_of_mem _ hz))
        (fun z hz => hy z (List.mem_cons_of_mem _ hz)) hrest
      obtain ⟨id, object, page⟩ := x
      obtain ⟨id', object', page'⟩ := y
      cases hid
      cases hobject
      cases hpage
      exact ⟨rfl, htail⟩

theorem readAt_record {x : Entry} (hx : x.IsValid e) (hlen : x.page.length < UInt32.size) {before : Bytes}
    (hs : before.length ≤ maxSeek) (rest : Bytes) :
    readAt e (.ofBytes (before ++ (x.page ++ rest))) (x.record before.length) = .ok (x.id, x.object) := by
  obtain ⟨h, hpage, hnext⟩ := next_of_isPage hx before.length none (by simp) rest
  have hn : (UInt32.ofNat x.page.length).toNat = x.page.length :=
    UInt32.toNat_ofNat_of_lt' hlen
  have hbytes : (Source.ofBytes (before ++ (x.page ++ rest))).bytes.drop before.length = x.page ++ rest :=
    List.drop_left
  simp only [readAt, Entry.record, hbytes, hnext, hn, hpage, if_neg (Nat.not_lt.2 hs), ne_eq, not_true, if_false]

theorem readAt_getElem? {xs : List Entry} (hx : ∀ x ∈ xs, x.IsValid e ∧ x.page.length < UInt32.size) {i : Nat}
    {x : Entry} (hi : xs[i]? = some x) (hs : (joined (xs.take i)).length ≤ maxSeek) (rest : Bytes) :
    readAt e (.ofBytes (joined xs ++ rest)) (x.record (joined (xs.take i)).length) = .ok (x.id, x.object) := by
  obtain ⟨hlt, rfl⟩ := List.getElem?_eq_some_iff.1 hi
  have hsplit : joined xs ++ rest =
      joined (xs.take i) ++ (xs[i].page ++ (joined (xs.drop (i + 1)) ++ rest)) := by
    have hxs : xs = xs.take i ++ xs[i] :: xs.drop (i + 1) := by
      rw [← List.drop_eq_getElem_cons hlt, List.take_append_drop]
    have hj := congrArg joined hxs
    rw [joined_append, joined_cons] at hj
    rw [hj, List.append_assoc, List.append_assoc]
  obtain ⟨hv, hlen⟩ := hx _ (List.getElem_mem hlt)
  rw [hsplit]
  exact readAt_record hv hlen hs _

/-- What the records of some ids give, if something stands in front of the pages and behind them. -/
theorem mapM_readAt_filter {α : Type} (p : Bytes → Bool) (f : Bytes × Bytes → α) {xs : List Entry}
    (hx : ∀ x ∈ xs, x.IsValid e ∧ x.page.length < UInt32.size) (before rest : Bytes)
    (hs : (before ++ joined xs).length ≤ maxSeek) :
    ((layout before.length xs).filter fun r => p r.id).mapM
        (fun r => (readAt e (.ofBytes (before ++ (joined xs ++ rest))) r).map f) =
      .ok ((xs.filter fun x => p x.id).map fun x => f (x.id, x.object)) := by
  induction xs generalizing before with
  | nil => rfl
  | cons x xs ih =>
    obtain ⟨hvalid, hlen⟩ := hx x List.mem_cons_self
    have hbefore : before.length ≤ maxSeek := by
      rw [List.length_append] at hs
      exact Nat.le_trans (Nat.le_add_right _ _) hs
    have hsplit : before ++ joined (x :: xs) = (before ++ x.page) ++ joined xs := by
      rw [joined_cons, List.append_assoc]
    have hread := readAt_record hvalid hlen hbefore (joined xs ++ rest)
    have hrest := ih (fun y hy => hx y (List.mem_cons_of_mem _ hy)) (before ++ x.page) (hsplit ▸ hs)
    rw [List.append_assoc, List.length_append] at hrest
    rw [layout, List.filter_cons, List.filter_cons, joined_cons, List.append_assoc]
    by_cases hp : p x.id = true
    · have hp' : p (x.record before.length).id = true := hp
      rw [if_pos hp', if_pos hp, List.mapM_cons, hread]
      exact congrArg (fun result => do return f (x.id, x.object) :: (← result)) hrest
    · have hp' : ¬ p (x.record before.length).id = true := hp
      rw [if_neg hp', if_neg hp]
      exact hrest

end

end WriteAhead.Page
