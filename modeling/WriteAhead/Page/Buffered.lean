import WriteAhead.Page.Reader

/-!
Reading pages through a buffer. A read call may give less than it is asked for, and a request for no less
than the buffer holds goes past it. Main statement: what is read does not depend on the buffer
(`follows_content`).
-/

namespace WriteAhead.Page

/-- A file that is read through a buffer. -/
structure Buffered where
  capacity : Nat
  /-- What was read from the file and not handed on yet. -/
  held : Bytes := []
  /-- What the file still gives. -/
  ahead : Bytes
  /-- Whether reading fails then, instead of coming to an end. -/
  fails : Bool
  /-- How many bytes besides one the coming read calls give at most; later ones give all that is asked for. -/
  portions : List Nat := []

/-- Reads through a buffer, or fails for good. -/
def Reading (α : Type) := Buffered → Except Error (α × Buffered)

namespace Reading

instance : Monad Reading where
  pure a := fun b => .ok (a, b)
  bind m f := fun b =>
    match m b with
    | .ok (a, b) => f a b
    | .error fault => .error fault

/-- Decides without reading. -/
def lift {α : Type} (result : Except Error α) : Reading α := fun b => result.map (·, b)

section

variable {α β : Type} {m : Reading α} {f : α → Reading β} {b b' : Buffered}

theorem bind_ok {a : α} (h : m b = .ok (a, b')) : (m >>= f) b = f a b' := by
  simp only [bind, h]

theorem bind_error {fault : Error} (h : m b = .error fault) : (m >>= f) b = .error fault := by
  simp only [bind, h]

end

end Reading

namespace Buffered

/-- How many of so many bytes the next read call gives, if the file has as many. -/
def granted (want : Nat) (b : Buffered) : Nat :=
  match b.portions with
  | [] => want
  | portion :: _ => min want (portion + 1)

/-- One read call. -/
def fetch (want : Nat) : Reading Bytes := fun b =>
  if b.ahead.isEmpty && b.fails then .error .io
  else
    .ok (b.ahead.take (b.granted want),
      { b with ahead := b.ahead.drop (b.granted want), portions := b.portions.tail })

/-- Fills the buffer if nothing is held. -/
def fill (b : Buffered) : Except Error Buffered :=
  if b.held.isEmpty then (fetch b.capacity b).map fun (held, b) => { b with held } else .ok b

/-- Hands on some bytes, so many at most. -/
def read (want : Nat) : Reading Bytes := fun b =>
  if b.held.isEmpty && b.capacity ≤ want then fetch want b
  else b.fill.map fun b => (b.held.take want, { b with held := b.held.drop want })

/-- Hands on so many bytes. That there are not as many is a failure. -/
def readExact (want : Nat) : Reading Bytes := fun b =>
  if want = 0 then .ok ([], b)
  else match read want b with
    | .error fault => .error fault
    | .ok ([], _) => .error .io
    | .ok (first :: part, b) =>
      (readExact (want - (part.length + 1)) b).map fun (more, b) => (first :: part ++ more, b)
termination_by want

/-- What is still to be read. -/
def rest (b : Buffered) : Bytes := b.held ++ b.ahead

/-- What becomes of a file and its buffer when `part` is read. -/
structure After (b : Buffered) (part : Bytes) (b' : Buffered) : Prop where
  capacity : b'.capacity = b.capacity
  fails : b'.fails = b.fails
  rest : b.rest = part ++ b'.rest

variable {b : Buffered} {want : Nat}

theorem isEmpty_rest (h : b.held ≠ []) : b.rest.isEmpty = false := by
  rw [rest, List.isEmpty_eq_false_iff]
  exact List.append_ne_nil_of_left_ne_nil h _

theorem granted_le (want : Nat) (b : Buffered) : b.granted want ≤ want := by
  unfold granted
  split
  · exact Nat.le_refl _
  · exact Nat.min_le_left _ _

theorem granted_pos (hw : 0 < want) (b : Buffered) : 0 < b.granted want := by
  unfold granted
  split
  · exact hw
  · omega

/-- A read call gives something, unless there is nothing. -/
theorem fetch_cases (hh : b.held = []) (hw : 0 < want) :
    (b.rest = [] ∧ (fetch want b = if b.fails then .error .io else .ok ([], { b with portions := b.portions.tail }))) ∨
      ∃ part b', fetch want b = .ok (part, b') ∧ part ≠ [] ∧ part.length ≤ want ∧ b'.held = [] ∧ After b part b' := by
  unfold fetch
  cases ha : b.ahead with
  | nil =>
    refine .inl ⟨by rw [rest, hh, ha, List.append_nil], ?_⟩
    cases b.fails <;> simp
  | cons x ahead =>
    refine .inr ⟨_, _, if_neg (by simp), ?_, ?_, hh, rfl, rfl, ?_⟩
    · rw [List.take_cons (granted_pos hw b)]
      exact List.cons_ne_nil _ _
    · exact Nat.le_trans (List.length_take_le _ _) (granted_le want b)
    · rw [rest, rest, hh, ha, List.nil_append, List.nil_append, List.take_append_drop]

/-- Filling the buffer hands nothing on. -/
theorem after_of_fill {b' : Buffered} (h : b.fill = .ok b') : After b [] b' := by
  unfold fill at h
  split at h
  · next hh =>
    unfold fetch at h
    split at h
    · cases h
    · cases h
      refine ⟨rfl, rfl, ?_⟩
      rw [rest, rest, List.take_append_drop, List.isEmpty_iff.1 hh]
  · cases h
    exact ⟨rfl, rfl, rfl⟩

/-- Filling a buffer that can hold something gives something, too. -/
theorem fill_cases (hc : b.held = [] → 0 < b.capacity) :
    (b.rest = [] ∧ (b.fails = true ∧ b.fill = .error .io ∨ b.fails = false ∧ ∃ b', b.fill = .ok b' ∧ b'.held = [])) ∨
      ∃ b', b.fill = .ok b' ∧ b'.held ≠ [] ∧ After b [] b' := by
  unfold fill
  cases hh : b.held with
  | nil =>
    rw [List.isEmpty_nil, if_pos rfl]
    obtain ⟨hnil, hfetch⟩ | ⟨part, b', hfetch, hne, -, hheld, hafter⟩ := fetch_cases hh (hc hh)
    · refine .inl ⟨hnil, ?_⟩
      rw [hfetch]
      cases b.fails with
      | false => exact .inr ⟨rfl, _, rfl, rfl⟩
      | true => exact .inl ⟨rfl, rfl⟩
    · refine .inr ⟨{ b' with held := part }, by rw [hfetch]; rfl, hne, hafter.capacity, hafter.fails, ?_⟩
      rw [hafter.rest, rest, hheld, List.nil_append, List.nil_append]
      rfl
  | cons x held =>
    refine .inr ⟨b, if_neg (by simp), ?_, rfl, rfl, (List.nil_append _).symm⟩
    rw [hh]
    exact List.cons_ne_nil _ _

theorem read_cases (hw : 0 < want) :
    (b.rest = [] ∧ (read want b = .error .io ∨ ∃ b', read want b = .ok ([], b'))) ∨
      ∃ part b', read want b = .ok (part, b') ∧ part ≠ [] ∧ part.length ≤ want ∧ After b part b' := by
  unfold read
  split
  · next h =>
    rw [Bool.and_eq_true, List.isEmpty_iff] at h
    obtain ⟨hnil, hfetch⟩ | ⟨part, b', hfetch, hne, hle, -, hafter⟩ := fetch_cases h.1 hw
    · refine .inl ⟨hnil, ?_⟩
      rw [hfetch]
      cases b.fails with
      | false => exact .inr ⟨_, rfl⟩
      | true => exact .inl rfl
    · exact .inr ⟨part, b', hfetch, hne, hle, hafter⟩
  · next h =>
    have hc : b.held = [] → 0 < b.capacity := by
      intro hh
      simp only [hh, List.isEmpty_nil, Bool.true_and, decide_eq_true_eq] at h
      omega
    obtain ⟨hnil, ⟨-, hfill⟩ | ⟨-, b', hfill, hheld⟩⟩ | ⟨b', hfill, hne, hafter⟩ := fill_cases hc
    · exact .inl ⟨hnil, .inl (by rw [hfill]; rfl)⟩
    · refine .inl ⟨hnil, .inr ⟨{ b' with held := b'.held.drop want }, ?_⟩⟩
      have hnone : b'.held.take want = [] := by rw [hheld, List.take_nil]
      rw [hfill, ← hnone]
      rfl
    · obtain ⟨x, held, hheld⟩ := List.exists_cons_of_ne_nil hne
      refine .inr ⟨_, { b' with held := b'.held.drop want }, by rw [hfill]; rfl, ?_, List.length_take_le _ _,
        hafter.capacity, hafter.fails, ?_⟩
      · rw [hheld, List.take_cons hw]
        exact List.cons_ne_nil _ _
      · rw [hafter.rest, List.nil_append, rest, rest, ← List.append_assoc, List.take_append_drop]

theorem after_trans {part part' : Bytes} {b' b'' : Buffered} (h : After b part b') (h' : After b' part' b'') :
    After b (part ++ part') b'' :=
  ⟨h'.capacity.trans h.capacity, h'.fails.trans h.fails, by rw [h.rest, h'.rest, List.append_assoc]⟩

/-- However the bytes come, all that are asked for are handed on, or there are not as many. -/
theorem readExact_cases (want : Nat) (b : Buffered) :
    (b.rest.length < want ∧ readExact want b = .error .io) ∨
      ∃ part b', readExact want b = .ok (part, b') ∧ part.length = want ∧ After b part b' := by
  induction want using Nat.strongRecOn generalizing b with
  | ind want ih =>
    rw [readExact]
    by_cases hw : want = 0
    · rw [if_pos hw]
      exact .inr ⟨[], b, rfl, hw.symm, rfl, rfl, rfl⟩
    · rw [if_neg hw]
      obtain ⟨hnil, hread⟩ | ⟨part, b', hread, hne, hle, hafter⟩ := read_cases (b := b) (Nat.pos_of_ne_zero hw)
      · refine .inl ⟨by rw [hnil]; exact Nat.pos_of_ne_zero hw, ?_⟩
        obtain hread | ⟨b', hread⟩ := hread <;> rw [hread]
      · obtain ⟨first, part, rfl⟩ := List.exists_cons_of_ne_nil hne
        rw [List.length_cons] at hle
        rw [hread]
        dsimp only
        obtain ⟨hshort, hmore⟩ | ⟨more, b'', hmore, hlength, hafter'⟩ :=
          ih (want - (part.length + 1)) (by omega) b'
        · refine .inl ⟨?_, by rw [hmore]; rfl⟩
          rw [hafter.rest, List.length_append, List.length_cons]
          omega
        · refine .inr ⟨_, _, by rw [hmore]; rfl, ?_, after_trans hafter hafter'⟩
          rw [List.length_append, List.length_cons, hlength]
          omega

end Buffered

/-- `reading` does through any buffer what `taking` does on the bytes themselves. -/
structure Follows {α : Type} (taking : Take α) (reading : Reading α) : Prop where
  ok : ∀ {b : Buffered} {a rest}, taking b.rest = (.ok a, rest) →
    ∃ b', reading b = .ok (a, b') ∧ b'.rest = rest ∧ b'.capacity = b.capacity ∧ b'.fails = b.fails
  error : ∀ {b : Buffered} {fault rest}, taking b.rest = (.error fault, rest) → reading b = .error fault

section

variable {α β : Type}

theorem follows_pure (a : α) : Follows (pure a) (pure a) := by
  constructor
  · rintro b a rest ⟨⟩
    exact ⟨b, rfl, rfl, rfl, rfl⟩
  · rintro b fault rest ⟨⟩

theorem follows_lift (result : Except Error α) : Follows (Take.lift result) (Reading.lift result) := by
  constructor
  · rintro b a rest ⟨⟩
    exact ⟨b, rfl, rfl, rfl, rfl⟩
  · rintro b fault rest ⟨⟩
    rfl

theorem follows_bind {taking : Take α} {reading : Reading α} {taking' : α → Take β} {reading' : α → Reading β}
    (h : Follows taking reading) (h' : ∀ a, Follows (taking' a) (reading' a)) :
    Follows (taking >>= taking') (reading >>= reading') := by
  constructor
  · intro b c rest hc
    obtain ⟨a, mid, hfirst, hsecond⟩ := Take.bind_eq_ok_iff.1 hc
    obtain ⟨b₁, hread₁, rfl, hcapacity₁, hfails₁⟩ := h.ok hfirst
    obtain ⟨b₂, hread₂, hrest, hcapacity₂, hfails₂⟩ := (h' a).ok hsecond
    exact ⟨b₂, (Reading.bind_ok hread₁).trans hread₂, hrest, hcapacity₂.trans hcapacity₁, hfails₂.trans hfails₁⟩
  · intro b fault rest hc
    obtain ⟨result, mid, hfirst⟩ : ∃ result mid, taking b.rest = (result, mid) := ⟨_, _, rfl⟩
    cases result with
    | ok a =>
      obtain ⟨b₁, hread₁, rfl, -, -⟩ := h.ok hfirst
      rw [Take.bind_ok hfirst] at hc
      rw [Reading.bind_ok hread₁]
      exact (h' a).error hc
    | error fault' =>
      rw [Take.bind_error hfirst] at hc
      cases hc
      exact Reading.bind_error (h.error hfirst)

theorem follows_bytes (n : Nat) : Follows (Take.bytes n) (Buffered.readExact n) := by
  constructor
  · intro b head rest hb
    obtain ⟨hsplit, hlength⟩ := Take.bytes_eq_ok_iff.1 hb
    obtain ⟨hshort, -⟩ | ⟨part, b', hread, hpart, hafter⟩ := Buffered.readExact_cases n b
    · rw [hsplit, List.length_append] at hshort
      omega
    · obtain ⟨rfl, rfl⟩ := List.append_inj (hafter.rest.symm.trans hsplit) (hpart.trans hlength.symm)
      exact ⟨b', hread, rfl, hafter.capacity, hafter.fails⟩
  · intro b fault rest hb
    obtain ⟨-, hread⟩ | ⟨part, b', -, hpart, hafter⟩ := Buffered.readExact_cases n b
    · have hfault : fault = .io := by
        unfold Take.bytes at hb
        split at hb <;> cases hb
        rfl
      rw [hread, hfault]
    · rw [hafter.rest, Take.bytes_append hpart] at hb
      cases hb

end

section

variable {m : Type → Type} [Monad m] (bytes : Nat → m Bytes) (lift : {α : Type} → Except Error α → m α)

def wordBy : m UInt32 := do
  return UInt32.ofNat (Bytes.number (← bytes 4))

/-- Reads a header, in whatever way bytes are read. -/
def Header.takenBy : m Header := do
  let found ← wordBy bytes
  lift (checkMagic found)
  let crc ← wordBy bytes
  let tag ← bytes 1
  let encoding ← lift (Encoding.read (UInt8.ofNat (Bytes.number tag)))
  let _ ← bytes 3
  let diskSize ← wordBy bytes
  let bodySize ← wordBy bytes
  return ⟨crc, encoding, diskSize, bodySize⟩

/-- Whether the page of a header may be read on. -/
def accept (e : Encoding) (offset : Nat) (fileLength : Option Nat) (header : Header) : Except Error Unit :=
  if header.encoding ≠ e then .error (.corruption (.foreignEncoding offset header.encoding e))
  else if fileLength.any (· < offset + header.pageLength) then .error (.corruption (.cutPage offset))
  else .ok ()

/-- Reads a page, in whatever way bytes are read. -/
def contentBy [Codecs] (e : Encoding) (offset : Nat) (fileLength : Option Nat) : m Content := do
  let header ← Header.takenBy bytes lift
  lift (accept e offset fileLength header)
  let payload ← bytes header.diskSize.toNat
  lift (unpack offset header payload)

end

theorem follows_word : Follows (wordBy Take.bytes) (wordBy Buffered.readExact) :=
  follows_bind (follows_bytes 4) fun _ => follows_pure _

theorem follows_header :
    Follows (Header.takenBy Take.bytes Take.lift) (Header.takenBy Buffered.readExact Reading.lift) := by
  refine follows_bind follows_word fun found => follows_bind (follows_lift _) fun _ => ?_
  refine follows_bind follows_word fun crc => follows_bind (follows_bytes 1) fun tag => ?_
  refine follows_bind (follows_lift _) fun encoding => follows_bind (follows_bytes 3) fun _ => ?_
  exact follows_bind follows_word fun diskSize => follows_bind follows_word fun bodySize => follows_pure _

variable [Codecs]

theorem follows_content (e : Encoding) (offset : Nat) (fileLength : Option Nat) :
    Follows (contentBy Take.bytes Take.lift e offset fileLength)
      (contentBy Buffered.readExact Reading.lift e offset fileLength) := by
  refine follows_bind follows_header fun header => follows_bind (follows_lift _) fun _ => ?_
  exact follows_bind (follows_bytes _) fun payload => follows_lift _

/-- Taking a page step by step is reading it at once. -/
theorem next_eq_contentBy (e : Encoding) (offset : Nat) (fileLength : Option Nat) (input : Bytes) :
    next e offset fileLength input =
      match contentBy Take.bytes Take.lift e offset fileLength input with
      | (.ok page, rest) => .ok (page, rest)
      | (.error fault, _) => .error fault := by
  have htaken : Header.taken = Header.takenBy Take.bytes Take.lift := rfl
  unfold next contentBy Header.read
  rw [htaken]
  obtain ⟨result, rest, hheader⟩ : ∃ result rest, Header.takenBy Take.bytes Take.lift input = (result, rest) :=
    ⟨_, _, rfl⟩
  rw [hheader]
  cases result with
  | error fault => rw [Take.bind_error hheader]
  | ok header =>
    rw [Take.bind_ok hheader]
    dsimp only
    by_cases he : header.encoding ≠ e
    · have hrefused : Take.lift (accept e offset fileLength header) rest =
          (.error (.corruption (.foreignEncoding offset header.encoding e)), rest) := by
        rw [Take.lift, accept, if_pos he]
      rw [if_pos he, Take.bind_error hrefused]
    by_cases hany : fileLength.any (· < offset + header.pageLength) = true
    · have hrefused : Take.lift (accept e offset fileLength header) rest =
          (.error (.corruption (.cutPage offset)), rest) := by
        rw [Take.lift, accept, if_neg he, if_pos hany]
      rw [if_neg he, if_pos hany, Take.bind_error hrefused]
    have haccepted : Take.lift (accept e offset fileLength header) rest = (.ok (), rest) := by
      rw [Take.lift, accept, if_neg he, if_neg hany]
    rw [if_neg he, if_neg hany, Take.bind_ok haccepted]
    cases hcut : Bytes.cut? header.diskSize.toNat rest with
    | none =>
      have hshort : Take.bytes header.diskSize.toNat rest = (.error .io, []) := by rw [Take.bytes, hcut]
      rw [Take.bind_error hshort]
    | some cut =>
      obtain ⟨payload, tail⟩ := cut
      have hpayload : Take.bytes header.diskSize.toNat rest = (.ok payload, tail) := by rw [Take.bytes, hcut]
      rw [Take.bind_ok hpayload, Take.lift]
      dsimp only
      cases unpack offset header payload <;> rfl

namespace Buffered

/-- Reads the page at the front of what is still to be read. -/
def next (e : Encoding) (offset : Nat) (fileLength : Option Nat) : Reading Content :=
  contentBy readExact Reading.lift e offset fileLength

variable {e : Encoding} {offset : Nat} {fileLength : Option Nat} {b : Buffered}

/-- Through whatever buffer, the page that is read is the one that the file holds there. -/
theorem next_of_ok {page : Content} {rest : Bytes} (h : Page.next e offset fileLength b.rest = .ok (page, rest)) :
    ∃ b', next e offset fileLength b = .ok (page, b') ∧ b'.rest = rest ∧ b'.capacity = b.capacity ∧
      b'.fails = b.fails := by
  rw [next_eq_contentBy] at h
  split at h
  · next htaken =>
    cases h
    exact (follows_content e offset fileLength).ok htaken
  · cases h

theorem next_of_error {fault : Error} (h : Page.next e offset fileLength b.rest = .error fault) :
    next e offset fileLength b = .error fault := by
  rw [next_eq_contentBy] at h
  split at h
  · cases h
  · next htaken =>
    cases h
    exact (follows_content e offset fileLength).error htaken

theorem length_of_next {page : Content} {b' : Buffered} (h : next e offset fileLength b = .ok (page, b')) :
    b'.rest.length < b.rest.length := by
  cases hn : Page.next e offset fileLength b.rest with
  | error fault => cases (next_of_error hn).symm.trans h
  | ok found =>
    obtain ⟨page', rest⟩ := found
    obtain ⟨b₁, hb, hrest, -⟩ := next_of_ok hn
    cases hb.symm.trans h
    have hlength := Page.length_of_next hn
    rw [hrest]
    simp only [headerSize] at hlength
    omega

/-- Reads pages one after the other, as `Page.replayFrom` does. The end is seen where nothing can be buffered. -/
def replayFrom (e : Encoding) (fileLength : Nat) (b : Buffered) (offset : Nat) (records : Index) :
    Except Error Replay :=
  match hfill : b.fill with
  | .error fault => .error fault
  | .ok filled =>
    if filled.held = [] then .ok ⟨records.reverse, offset, none⟩
    else match hnext : next e offset (some fileLength) filled with
      | .error fault => .ok ⟨records.reverse, offset, some fault⟩
      | .ok (page, b') =>
        have : b'.rest.length < b.rest.length := by
          rw [(after_of_fill hfill).rest]
          exact length_of_next hnext
        let length := page.header.pageLength
        replayFrom e fileLength b' (offset + length) (⟨page.id, offset, UInt32.ofNat length⟩ :: records)
termination_by b.rest.length

/-- Opens a file for reading through a buffer. -/
def ofSource (capacity : Nat) (portions : List Nat) (source : Source) : Buffered where
  capacity := capacity
  ahead := source.bytes
  fails := source.fails
  portions := portions

omit [Codecs] in
/-- A buffer that can hold nothing stays empty. -/
theorem fill_ofSource_zero (portions : List Nat) (source : Source) :
    (source.bytes.isEmpty && source.fails) = true ∧ (ofSource 0 portions source).fill = .error .io ∨
      (source.bytes.isEmpty && source.fails) = false ∧
        ∃ b, (ofSource 0 portions source).fill = .ok b ∧ b.held = [] := by
  have hnone : source.bytes.take ((ofSource 0 portions source).granted 0) = [] := by
    rw [Nat.le_zero.1 (granted_le 0 _), List.take_zero]
  have hfill : (ofSource 0 portions source).fill =
      (fetch 0 (ofSource 0 portions source)).map fun (held, b) => { b with held } := rfl
  have hfetch : fetch 0 (ofSource 0 portions source) =
      if source.bytes.isEmpty && source.fails then .error .io
      else .ok (source.bytes.take ((ofSource 0 portions source).granted 0), _) := rfl
  rw [hfill, hfetch]
  cases source.bytes.isEmpty && source.fails with
  | true => exact .inl ⟨rfl, rfl⟩
  | false => exact .inr ⟨rfl, _, rfl, hnone⟩

/-- Reads all pages of a file through a buffer. -/
def replay (e : Encoding) (capacity : Nat) (portions : List Nat) (source : Source) : Except Error Replay :=
  replayFrom e source.length (ofSource capacity portions source) 0 []

/-- Reads the page that a record points at through a buffer, as `Page.readAt` does. Seeking empties the buffer. -/
def readAt (e : Encoding) (capacity : Nat) (portions : List Nat) (source : Source) (r : Record) :
    Except Error (Bytes × Bytes) :=
  if maxSeek < r.start then .error .io
  else match next e r.start none (ofSource capacity portions { source with bytes := source.bytes.drop r.start }) with
    | .error fault => .error fault
    | .ok (page, _) =>
      if page.header.pageLength ≠ r.length.toNat then
        .error (.corruption (.wrongPageLength r.start page.header.pageLength r.length.toNat))
      else if page.id ≠ r.id then .error (.corruption (.wrongId r.start))
      else .ok (page.id, page.object)

/-- One page can be read through any buffer, also through one that can hold nothing. -/
theorem readAt_eq (e : Encoding) (capacity : Nat) (portions : List Nat) (source : Source) (r : Record) :
    readAt e capacity portions source r = Page.readAt e source r := by
  unfold readAt Page.readAt
  have hrest : (ofSource capacity portions { source with bytes := source.bytes.drop r.start }).rest =
      source.bytes.drop r.start := List.nil_append _
  split
  · rfl
  · cases hnext : Page.next e r.start none (source.bytes.drop r.start) with
    | error fault => rw [next_of_error (hrest ▸ hnext)]
    | ok found =>
      obtain ⟨b, hread, -⟩ := next_of_ok (hrest ▸ hnext)
      rw [hread]

end Buffered

end WriteAhead.Page
