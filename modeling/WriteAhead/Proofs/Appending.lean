import WriteAhead.Proofs.Replay
import WriteAhead.Sink.Content

/-!
Appending to a sink that may fail at every call. Main statements: how one append can turn out
(`outcome_append`), and that a replay finds what was acknowledged, and beyond that at most the page
that poisoned the writer (`recovers_of`).
-/

namespace WriteAhead

open Page

namespace Writer

section

variable {σ : Type} [ContentSink σ]

theorem content_commit (mode : SyncMode) (page : Bytes) (s : σ) :
    ∃ part, part <+: page ∧ ContentSink.content (commit mode page s).2 = ContentSink.content s ++ part ∧
      ((commit mode page s).1 = true → part = page) := by
  obtain ⟨part, hpre, hpart, hall⟩ := Sink.content_writeAll page s
  unfold commit
  cases hw : Sink.writeAll page s with
  | mk written s₁ =>
    rw [hw] at hpart hall
    cases written with
    | false => exact ⟨part, hpre, hpart, hall⟩
    | true =>
      have hflush := ContentSink.content_flush s₁
      cases hf : Sink.flush s₁ with
      | mk flushed s₂ =>
        rw [hf] at hflush
        have hpart₂ := hflush.trans hpart
        dsimp only
        rw [hf]
        cases flushed with
        | false => exact ⟨part, hpre, hpart₂, by simp⟩
        | true =>
          cases mode with
          | async => exact ⟨part, hpre, hpart₂, hall⟩
          | strict => exact ⟨part, hpre, (ContentSink.content_sync s₂).trans hpart₂, fun _ => hall rfl⟩

/-- How an append can turn out, if a usable writer knows where the sink ends. -/
inductive Outcome [Codecs] (w : Writer) (id object : Bytes) (s : σ) : Except Error Record → Writer → σ → Prop
  /-- Nothing was asked of the sink. -/
  | refused (fault : Error) (reason : w.poisoned = true ∨ Page.build w.encoding id object = .error fault) :
      Outcome w id object s (.error fault) w s
  | done {page : Bytes} {s' : σ} (usable : w.poisoned = false) (isPage : IsPage w.encoding page id object)
      (length : page.length < UInt32.size) (content : ContentSink.content s' = ContentSink.content s ++ page) :
      Outcome w id object s (.ok ⟨id, w.size, UInt32.ofNat page.length⟩) { w with size := w.size + page.length } s'
  | cutBack {s' : σ} (usable : w.poisoned = false) (content : ContentSink.content s' = ContentSink.content s) :
      Outcome w id object s (.error .io) w s'
  /-- Some part of the page is left, maybe all of it. -/
  | stuck {h : Header} {payload part : Bytes} {s' : σ} (usable : w.poisoned = false)
      (built : Page.build w.encoding id object = .ok (h, payload)) (torn : part <+: h.toBytes ++ payload)
      (content : ContentSink.content s' = ContentSink.content s ++ part) :
      Outcome w id object s (.error .io) { w with poisoned := true } s'

theorem outcome_append [Codecs] (w : Writer) (id object : Bytes) (s : σ)
    (hs : w.poisoned = false → w.size = (ContentSink.content s).length) :
    Outcome w id object s (w.append id object s).1 (w.append id object s).2.1 (w.append id object s).2.2 := by
  unfold append
  by_cases hp : w.poisoned
  · rw [if_pos hp]
    exact .refused _ (.inl hp)
  · rw [if_neg hp]
    have hp : w.poisoned = false := Bool.eq_false_iff.2 hp
    have hs := hs hp
    cases hb : Page.build w.encoding id object with
    | error fault => exact .refused fault (.inr hb)
    | ok page =>
      obtain ⟨h, payload⟩ := page
      obtain ⟨part, hpre, hpart, hall⟩ := content_commit w.sync (h.toBytes ++ payload) s
      obtain ⟨hlen, hlt⟩ := length_of_build hb
      dsimp only
      cases hc : commit w.sync (h.toBytes ++ payload) s with
      | mk committed s₁ =>
        rw [hc] at hpart hall
        cases committed with
        | true =>
          dsimp only
          rw [← hlen]
          exact .done hp (isPage_of_build hb) (by rw [hlen]; exact hlt) (by rw [hpart, hall rfl])
        | false =>
          have hcut := ContentSink.content_truncate w.size s₁ (by rw [hpart, hs, List.length_append]; omega)
          dsimp only at hpart ⊢
          cases ht : Sink.truncate w.size s₁ with
          | mk succeeded s₂ =>
            rw [ht] at hcut
            cases succeeded with
            | true =>
              refine .cutBack hp (hcut.trans ?_)
              rw [if_pos rfl, hpart, hs, List.take_left]
            | false => exact .stuck hp hb hpre (hcut.trans hpart)

end

section

variable {σ : Type} [ContentSink σ]

theorem safe_writeAll (bytes : Bytes) (s : Synced σ) : (Sink.writeAll bytes s).2.safe = s.safe := by
  fun_induction Sink.writeAll bytes s with
  | case1 s => rfl
  | case2 s b rest s' h => exact congrArg (·.2.safe) h.symm
  | case3 s b rest s' h _ ih => exact ih.trans (congrArg (·.2.safe) h.symm)
  | case4 s b rest s' h => exact congrArg (·.2.safe) h.symm
  | case5 s b rest n s' h _ ih => exact ih.trans (congrArg (·.2.safe) h.symm)

theorem safe_commit_strict (page : Bytes) (s : Synced σ) :
    (commit .strict page s).2.safe =
      if (commit .strict page s).1 then ContentSink.content (commit .strict page s).2 else s.safe := by
  have hsafe := safe_writeAll page s
  unfold commit
  cases hw : Sink.writeAll page s with
  | mk written s₁ =>
    rw [hw] at hsafe
    cases written with
    | false => exact hsafe
    | true =>
      dsimp only
      have hflush : (Sink.flush s₁).2.safe = s₁.safe := rfl
      obtain ⟨flushed, s₂, hf⟩ : ∃ flushed s₂, Sink.flush s₁ = (flushed, s₂) := ⟨_, _, rfl⟩
      rw [hf] at hflush
      simp only [hf]
      cases flushed with
      | false => exact hflush.trans hsafe
      | true =>
        change (if (Sink.sync s₂.sink).1 then ContentSink.content s₂.sink else s₂.safe) =
          if (Sink.sync s₂.sink).1 then ContentSink.content (Sink.sync s₂.sink).2 else s.safe
        rw [ContentSink.content_sync, ← hsafe, ← hflush]

/-- In strict mode, what was written becomes safe if it is acknowledged, and only then. -/
theorem safe_append [Codecs] {w : Writer} (hw : w.sync = .strict) (id object : Bytes) (s : Synced σ) :
    (w.append id object s).2.2.safe =
      match (w.append id object s).1 with
      | .ok _ => ContentSink.content (w.append id object s).2.2
      | .error _ => s.safe := by
  unfold append
  by_cases hp : w.poisoned
  · rw [if_pos hp]
  · rw [if_neg hp]
    cases hb : Page.build w.encoding id object with
    | error fault => rfl
    | ok page =>
      obtain ⟨h, payload⟩ := page
      have hsafe := safe_commit_strict (h.toBytes ++ payload) s
      dsimp only
      rw [hw]
      cases hc : commit .strict (h.toBytes ++ payload) s with
      | mk committed s₁ =>
        rw [hc] at hsafe
        cases committed with
        | true => exact hsafe
        | false =>
          have hcut : (Sink.truncate w.size s₁).2.safe = s₁.safe := rfl
          dsimp only at hsafe ⊢
          cases ht : Sink.truncate w.size s₁ with
          | mk succeeded s₂ =>
            rw [ht] at hcut
            cases succeeded <;> exact hcut.trans hsafe

end

end Writer

structure Run (σ : Type) where
  writer : Writer
  sink : σ
  /-- The records that were returned, each with the id and the object it is for. -/
  acked : List (Record × Bytes × Bytes) := []
  /-- The id and the object whose append poisoned the writer. -/
  fatal : Option (Bytes × Bytes) := none

namespace Run

section

variable {σ : Type} [Sink σ]

def append [Codecs] (r : Run σ) (op : Bytes × Bytes) : Run σ :=
  let (result, writer, sink) := r.writer.append op.1 op.2 r.sink
  { writer, sink
    acked := match result with
      | .ok record => r.acked ++ [(record, op)]
      | .error _ => r.acked
    fatal := if writer.poisoned && !r.writer.poisoned then some op else r.fatal }

/-- Starts with an empty sink, and appends one object after the other. -/
def of [Codecs] (e : Encoding) (mode : SyncMode) (s : σ) (ops : List (Bytes × Bytes)) : Run σ :=
  ops.foldl append { writer := { encoding := e, sync := mode, size := 0 }, sink := s }

end

/-- The pages `xs` were acknowledged, and `part` of another one was left behind them. -/
structure Holds [Codecs] {σ : Type} [ContentSink σ] (e : Encoding) (mode : SyncMode) (r : Run (Synced σ))
    (xs : List Entry) (part : Bytes) : Prop where
  encoding : r.writer.encoding = e
  sync : r.writer.sync = mode
  valid : ∀ x ∈ xs, x.IsValid e ∧ x.page.length < UInt32.size
  records : r.acked.map (·.1) = layout 0 xs
  objects : r.acked.map (·.2) = xs.map fun x => (x.id, x.object)
  size : r.writer.size = (joined xs).length
  content : ContentSink.content r.sink = joined xs ++ part
  clean : r.writer.poisoned = false → part = []
  torn : r.writer.poisoned = true → ∃ id object h payload, r.fatal = some (id, object) ∧
    build e id object = .ok (h, payload) ∧ part <+: h.toBytes ++ payload
  safe : mode = .strict → r.sink.safe = joined xs

section

variable [Codecs] {σ : Type} [ContentSink σ] {e : Encoding} {mode : SyncMode} {r : Run (Synced σ)} {xs : List Entry}
  {part : Bytes}

theorem holds_append (h : Holds e mode r xs part) (op : Bytes × Bytes) :
    ∃ xs part, Holds e mode (r.append op) xs part := by
  have hs : r.writer.poisoned = false → r.writer.size = (ContentSink.content r.sink).length := by
    intro hp
    rw [h.size, h.content, h.clean hp, List.append_nil]
  have ho := Writer.outcome_append r.writer op.1 op.2 r.sink hs
  have hsafe := fun hm => Writer.safe_append (h.sync.trans hm) op.1 op.2 r.sink
  unfold append
  generalize r.writer.append op.1 op.2 r.sink = result at ho hsafe ⊢
  obtain ⟨result, writer, sink⟩ := result
  dsimp only at ho hsafe ⊢
  cases ho with
  | refused fault reason =>
    rw [Bool.and_not_self]
    exact ⟨xs, part, { h with }⟩
  | cutBack usable content =>
    rw [usable]
    refine ⟨xs, part, { h with content := content.trans h.content, torn := fun hp => ?_, safe := fun hm => ?_ }⟩
    · cases usable.symm.trans hp
    · exact (hsafe hm).trans (h.safe hm)
  | stuck usable built torn content =>
    rw [usable]
    refine ⟨xs, _, { h with
      content := ?_, clean := fun hp => ?_, torn := fun _ => ⟨_, _, _, _, rfl, h.encoding ▸ built, torn⟩,
      safe := fun hm => (hsafe hm).trans (h.safe hm) }⟩
    · rw [content, h.content, h.clean usable, List.append_nil]
    · cases (show true = false from hp)
  | @done page _ usable isPage length content =>
    have hcontent : ContentSink.content sink = joined (xs ++ [⟨op.1, op.2, page⟩]) := by
      rw [content, h.content, h.clean usable, List.append_nil, joined_append, joined_cons, joined_nil, List.append_nil]
    refine ⟨xs ++ [⟨op.1, op.2, page⟩], [], ⟨h.encoding, h.sync, ?_, ?_, ?_, ?_, ?_, fun _ => rfl, fun hp => ?_, ?_⟩⟩
    · exact List.forall_mem_append.2 ⟨h.valid, List.forall_mem_singleton.2 ⟨h.encoding ▸ isPage, length⟩⟩
    · rw [List.map_append, h.records, layout_append, h.size, Nat.zero_add]
      rfl
    · rw [List.map_append, h.objects, List.map_append]
      rfl
    · rw [h.size, joined_append, List.length_append, joined_cons, joined_nil, List.append_nil]
    · rw [hcontent, List.append_nil]
    · cases usable.symm.trans hp
    · intro hm
      rw [hsafe hm, hcontent]

theorem holds_foldl (h : Holds e mode r xs part) (ops : List (Bytes × Bytes)) :
    ∃ xs part, Holds e mode (ops.foldl append r) xs part := by
  induction ops generalizing r xs part with
  | nil => exact ⟨xs, part, h⟩
  | cons op ops ih =>
    obtain ⟨_, _, h⟩ := holds_append h op
    exact ih h

theorem holds_of (e : Encoding) (mode : SyncMode) {s : σ} (hs : ContentSink.content s = [])
    (ops : List (Bytes × Bytes)) : ∃ xs part, Holds e mode (of e mode (⟨s, []⟩ : Synced σ) ops) xs part := by
  have hstart : Holds e mode { writer := { encoding := e, sync := mode, size := 0 }, sink := (⟨s, []⟩ : Synced σ) }
      [] [] :=
    ⟨rfl, rfl, by simp, rfl, rfl, rfl, hs, fun _ => rfl, by simp, fun _ => rfl⟩
  exact holds_foldl hstart ops

end

/-- A replay of `bytes` gives the records that were acknowledged and then `more`, and these records
lead to what they are for. A record beyond `maxSeek` would be in no file. -/
structure Recovers [Codecs] (e : Encoding) (buffer : Nat) (bytes : Bytes) (acked : List (Record × Bytes × Bytes))
    (more : Index) : Prop where
  replay : ∃ validEnd warning,
    replay e buffer (.ofBytes bytes) = .ok ⟨acked.map (·.1) ++ more, validEnd, warning⟩
  read : ∀ a ∈ acked, a.1.start ≤ maxSeek → readAt e (.ofBytes bytes) a.1 = .ok a.2

/-- `record` is that of the append that poisoned the writer, all of whose page was taken. -/
structure Surfaced [Codecs] {σ : Type} [ContentSink σ] (e : Encoding) (r : Run (Synced σ)) (record : Record)
    (id object : Bytes) : Prop where
  poisoned : r.writer.poisoned = true
  fatal : r.fatal = some (id, object)
  taken : ∃ h payload, build e id object = .ok (h, payload) ∧
    (ContentSink.content r.sink).drop r.writer.size = h.toBytes ++ payload
  start : record.start = r.writer.size
  id_eq : record.id = id
  read : record.start ≤ maxSeek → readAt e (.ofBytes (ContentSink.content r.sink)) record = .ok (id, object)

section

variable [Codecs] {σ : Type} [ContentSink σ] {e : Encoding} {mode : SyncMode} {r : Run (Synced σ)} {xs : List Entry}
  {part : Bytes}

theorem readAt_of_mem {acked : List (Record × Bytes × Bytes)} (hx : ∀ x ∈ xs, x.IsValid e ∧ x.page.length < UInt32.size)
    (hr : acked.map (·.1) = layout 0 xs) (ho : acked.map (·.2) = xs.map fun x => (x.id, x.object))
    {a : Record × Bytes × Bytes} (ha : a ∈ acked) (hs : a.1.start ≤ maxSeek) (rest : Bytes) :
    readAt e (.ofBytes (joined xs ++ rest)) a.1 = .ok a.2 := by
  obtain ⟨i, hi⟩ := List.mem_iff_getElem?.1 ha
  have hrecord := congrArg (·[i]?) hr
  have hobject := congrArg (·[i]?) ho
  rw [List.getElem?_map, hi, getElem?_layout, Nat.zero_add] at hrecord
  rw [List.getElem?_map, hi, List.getElem?_map] at hobject
  cases hxi : xs[i]? with
  | none =>
    rw [hxi] at hobject
    cases hobject
  | some x =>
    rw [hxi] at hrecord hobject
    obtain ⟨record, op⟩ := a
    cases hrecord
    cases hobject
    exact readAt_getElem? hx hxi hs rest

theorem recovers_joined {buffer : Nat} (hb : 0 < buffer) {acked : List (Record × Bytes × Bytes)} (ys : List Entry)
    {tail : Bytes} (hx : ∀ x ∈ xs, x.IsValid e ∧ x.page.length < UInt32.size) (hy : ∀ y ∈ ys, y.IsValid e)
    (hr : acked.map (·.1) = layout 0 xs) (ho : acked.map (·.2) = xs.map fun x => (x.id, x.object))
    (ht : NoPage e tail) :
    Recovers e buffer (joined xs ++ (joined ys ++ tail)) acked (layout (joined xs).length ys) := by
  have hv : ∀ z ∈ xs ++ ys, z.IsValid e := List.forall_mem_append.2 ⟨fun x hmem => (hx x hmem).1, hy⟩
  obtain ⟨warning, -, hreplay⟩ := replay_joined hb hv ht
  refine ⟨⟨(joined xs ++ joined ys).length, warning, ?_⟩, fun a ha hs => readAt_of_mem hx hr ho ha hs _⟩
  rw [joined_append, List.append_assoc, layout_append, Nat.zero_add, ← hr] at hreplay
  exact hreplay

theorem surfaced_of_holds {id object payload : Bytes} {header : Header}
    (h : Holds e mode r xs (header.toBytes ++ payload)) (hp : r.writer.poisoned = true)
    (hf : r.fatal = some (id, object)) (hb : build e id object = .ok (header, payload)) :
    Surfaced e r (Entry.record (joined xs).length ⟨id, object, header.toBytes ++ payload⟩) id object := by
  have hx : Entry.IsValid e ⟨id, object, header.toBytes ++ payload⟩ := isPage_of_build hb
  have hlen : (header.toBytes ++ payload).length < UInt32.size := by
    rw [(length_of_build hb).1]
    exact (length_of_build hb).2
  refine ⟨hp, hf, ⟨header, payload, hb, ?_⟩, h.size.symm, rfl, fun hs => ?_⟩
  · rw [h.content, h.size, List.drop_left]
  · have hread := readAt_record hx hlen hs []
    rw [List.append_nil] at hread
    rw [h.content]
    exact hread

/-- Whatever the sink does, nothing acknowledged is lost and at most one other object is found. In
strict mode, what was last made sure of is enough, and holds no other object. -/
theorem recovers_of (e : Encoding) (mode : SyncMode) {buffer : Nat} (hb : 0 < buffer) {s : σ}
    (hs : ContentSink.content s = []) (ops : List (Bytes × Bytes)) :
    let r := of e mode (⟨s, []⟩ : Synced σ) ops
    ∃ more, Recovers e buffer (ContentSink.content r.sink) r.acked more ∧
      (more = [] ∨ ∃ record id object, more = [record] ∧ Surfaced e r record id object) ∧
      (mode = .strict → Recovers e buffer r.sink.safe r.acked []) := by
  intro r
  obtain ⟨xs, part, h⟩ : ∃ xs part, Holds e mode r xs part := holds_of e mode hs ops
  have hsafe : mode = .strict → Recovers e buffer r.sink.safe r.acked [] := by
    intro hm
    have hrec := recovers_joined hb [] h.valid (by simp) h.records h.objects noPage_nil
    rw [joined_nil, List.append_nil, List.append_nil] at hrec
    rw [h.safe hm]
    exact hrec
  rw [h.content]
  cases hp : r.writer.poisoned with
  | false =>
    rw [h.clean hp]
    exact ⟨[], recovers_joined hb [] h.valid (by simp) h.records h.objects noPage_nil, .inl rfl, hsafe⟩
  | true =>
    obtain ⟨id, object, header, payload, hfatal, hbuild, htorn⟩ := h.torn hp
    have hpage : Entry.IsValid e ⟨id, object, header.toBytes ++ payload⟩ := isPage_of_build hbuild
    by_cases hall : part = header.toBytes ++ payload
    · subst hall
      have hrec := recovers_joined hb [⟨id, object, header.toBytes ++ payload⟩] h.valid (by simpa) h.records
        h.objects noPage_nil
      rw [joined_cons, joined_nil, List.append_nil, List.append_nil] at hrec
      exact ⟨_, hrec, .inr ⟨_, id, object, rfl, surfaced_of_holds h hp hfatal hbuild⟩, hsafe⟩
    · have ht := noPage_of_torn hpage htorn hall
      exact ⟨[], recovers_joined hb [] h.valid (by simp) h.records h.objects ht, .inl rfl, hsafe⟩

end

theorem recovers_of_failed_sync :
    let sink : ScriptedSink := { content := [], syncs := [true, false], truncates := [false] }
    let r := of .none .strict (⟨sink, []⟩ : Synced ScriptedSink) [([7], [8]), ([9], [])]
    ∃ more, Recovers .none 1 (ContentSink.content r.sink) r.acked more ∧
      (more = [] ∨ ∃ record id object, more = [record] ∧ Surfaced .none r record id object) ∧
      Recovers .none 1 r.sink.safe r.acked [] := by
  intro sink r
  have hempty : ContentSink.content sink = [] := rfl
  obtain ⟨more, hmore, hlast, hsafe⟩ := recovers_of .none .strict Nat.one_pos hempty [([7], [8]), ([9], [])]
  exact ⟨more, hmore, hlast, hsafe rfl⟩

end Run

end WriteAhead
