import WriteAhead.Page.Scratch
import WriteAhead.Proofs.Appending
import WriteAhead.Sink.Traced

/-!
Appends as a whole or not at all. Main statements: how an append can turn out and what it asks of the sink
(`attempt_append`), and that in a run each append adds its page or nothing, unless the writer is poisoned, which then
asks nothing more (`atomic_of_size`).
-/

namespace WriteAhead

open Page

/-- The page that is written for an object, if there is one. -/
def Page.written [Codecs] (e : Encoding) (id object : Bytes) : Bytes :=
  match build e id object with
  | .ok (h, payload) => h.toBytes ++ payload
  | .error _ => []

theorem Page.written_of_build [Codecs] {e : Encoding} {id object payload : Bytes} {h : Header}
    (hb : build e id object = .ok (h, payload)) : written e id object = h.toBytes ++ payload := by
  rw [written, hb]

namespace Writer

section

variable {σ : Type} [TracedSink σ]

theorem calls_commit (mode : SyncMode) {page : Bytes} (hp : page ≠ []) (s : σ) :
    ∃ made, made ≠ [] ∧ Sink.Tried s made (commit mode page s).2 := by
  obtain ⟨made, hmade, hne⟩ := Sink.calls_writeAll page s
  unfold commit
  generalize Sink.writeAll page s = result at hmade ⊢
  obtain ⟨written, s₁⟩ := result
  cases written with
  | false => exact ⟨made, hne hp, hmade⟩
  | true =>
    have hflush := Sink.tried_trans hmade (Sink.tried_flush s₁)
    dsimp only
    generalize Sink.flush s₁ = result at hflush ⊢
    obtain ⟨flushed, s₂⟩ := result
    cases flushed with
    | false => exact ⟨_, List.cons_ne_nil _ _, hflush⟩
    | true =>
      cases mode with
      | async => exact ⟨_, List.cons_ne_nil _ _, hflush⟩
      | strict => exact ⟨_, List.cons_ne_nil _ _, Sink.tried_trans hflush (Sink.tried_sync s₂)⟩

/-- How an append can turn out, and what the sink is asked for then. -/
inductive Attempt [Codecs] (w : Writer) (id object : Bytes) (s : σ) : Except Error Record → Writer → σ → Prop
  | unusable (poisoned : w.poisoned = true) : Attempt w id object s (.error (.corruption .writerUnusable)) w s
  | unbuilt {fault : Error} (usable : w.poisoned = false) (unbuilt : build w.encoding id object = .error fault) :
      Attempt w id object s (.error fault) w s
  | done {made : List SinkCall} {s' : σ} (usable : w.poisoned = false) (tried : Sink.Tried s made s')
      (content : ContentSink.content s' = ContentSink.content s ++ written w.encoding id object) :
      Attempt w id object s (.ok ⟨id, w.size, UInt32.ofNat (written w.encoding id object).length⟩)
        { w with size := w.size + (written w.encoding id object).length } s'
  | cutBack {s' : σ} (usable : w.poisoned = false) (withdrawn : Sink.Withdrawn w.size s s')
      (content : ContentSink.content s' = ContentSink.content s) : Attempt w id object s (.error .io) w s'
  /-- Some part of the page is left, maybe all of it. -/
  | stuck {part : Bytes} {s' : σ} (usable : w.poisoned = false) (withdrawn : Sink.Withdrawn w.size s s')
      (torn : part <+: written w.encoding id object)
      (content : ContentSink.content s' = ContentSink.content s ++ part) :
      Attempt w id object s (.error .io) { w with poisoned := true } s'

theorem attempt_append [Codecs] (w : Writer) (id object : Bytes) (s : σ)
    (hs : w.poisoned = false → w.size = (ContentSink.content s).length) :
    Attempt w id object s (w.append id object s).1 (w.append id object s).2.1 (w.append id object s).2.2 := by
  unfold append
  by_cases hp : w.poisoned
  · rw [if_pos hp]
    exact .unusable hp
  rw [if_neg hp]
  have hp : w.poisoned = false := Bool.eq_false_iff.2 hp
  cases hb : build w.encoding id object with
  | error fault => exact .unbuilt hp hb
  | ok page =>
    obtain ⟨h, payload⟩ := page
    have hpage := written_of_build hb
    have hlength : h.pageLength = (written w.encoding id object).length := hpage ▸ (length_of_build hb).1.symm
    have hne : written w.encoding id object ≠ [] := by
      intro hnil
      rw [hnil, Header.pageLength, headerSize, List.length_nil] at hlength
      omega
    dsimp only
    rw [← hpage, hlength]
    obtain ⟨made, hasked, htried⟩ := calls_commit w.sync hne s
    obtain ⟨part, htorn, hcontent, hall⟩ := content_commit w.sync (written w.encoding id object) s
    generalize commit w.sync (written w.encoding id object) s = result at htried hcontent hall ⊢
    obtain ⟨committed, s₁⟩ := result
    cases committed with
    | true => exact .done hp htried (hall rfl ▸ hcontent)
    | false =>
      have hwithdrawn : Sink.Withdrawn w.size s (Sink.truncate w.size s₁).2 :=
        ⟨made, s₁, hasked, htried, TracedSink.calls_truncate w.size s₁⟩
      have hle : w.size ≤ (ContentSink.content s₁).length := by
        rw [hs hp, hcontent, List.length_append]
        exact Nat.le_add_right _ _
      have hcut := ContentSink.content_truncate w.size s₁ hle
      dsimp only at hcontent ⊢
      generalize Sink.truncate w.size s₁ = result at hwithdrawn hcut ⊢
      obtain ⟨succeeded, s₂⟩ := result
      cases succeeded with
      | true =>
        refine .cutBack hp hwithdrawn (hcut.trans ?_)
        rw [if_pos rfl, hcontent, hs hp, List.take_left]
      | false => exact .stuck hp hwithdrawn htorn (hcut.trans hcontent)

/-- What an append does, in whatever state writer, sink and buffer are. -/
structure Atomic [Codecs] (w : Writer) (s : σ) (id object : Bytes) : Prop where
  unusable : w.poisoned = true → w.append id object s = (.error (.corruption .writerUnusable), w, s)
  unbuilt : w.poisoned = false → ∀ fault, build w.encoding id object = .error fault →
    w.append id object s = (.error fault, w, s)
  done : ∀ record w' s', w.append id object s = (.ok record, w', s') →
    ContentSink.content s' = ContentSink.content s ++ written w.encoding id object ∧
      w' = { w with size := (ContentSink.content s').length } ∧
      record = ⟨id, w.size, UInt32.ofNat (written w.encoding id object).length⟩ ∧ ∃ made, Sink.Tried s made s'
  failed : ∀ fault w' s', w.append id object s = (.error fault, w', s') →
    w'.size = w.size ∧ (ContentSink.content s' = ContentSink.content s ∧ w' = w ∨ w'.poisoned = true) ∧
      (s' = s ∨ Sink.Withdrawn w.size s s')
  /-- It does not matter what earlier pages left in the buffer. -/
  scratch : ∀ before, ∃ after, ScratchWriter.append ⟨w, before⟩ id object s =
    ((w.append id object s).1, ⟨(w.append id object s).2.1, after⟩, (w.append id object s).2.2)

theorem atomic_append [Codecs] (w : Writer) (s : σ) (hs : w.poisoned = false → w.size = (ContentSink.content s).length)
    (id object : Bytes) : Atomic w s id object where
  unusable hp := if_pos hp
  unbuilt hp fault hb := by rw [append, if_neg (Bool.eq_false_iff.1 hp), hb]
  done record w' s' h := by
    have ha := attempt_append w id object s hs
    rw [h] at ha
    cases ha with
    | done usable tried content =>
      refine ⟨content, ?_, rfl, _, tried⟩
      rw [content, List.length_append, hs usable]
  failed fault w' s' h := by
    have ha := attempt_append w id object s hs
    rw [h] at ha
    cases ha with
    | unusable | unbuilt => exact ⟨rfl, .inl ⟨rfl, rfl⟩, .inl rfl⟩
    | cutBack _ withdrawn content => exact ⟨rfl, .inl ⟨content, rfl⟩, .inr withdrawn⟩
    | stuck _ withdrawn => exact ⟨rfl, .inr rfl, .inr withdrawn⟩
  scratch before := ScratchWriter.append_eq ⟨w, before⟩ id object s

end

end Writer

namespace Run

variable {σ : Type}

/-- The pages of the objects that were acknowledged, in order. -/
def pages [Codecs] (r : Run σ) : Bytes := r.acked.flatMap fun a => written r.writer.encoding a.2.1 a.2.2

/-- The objects `ops` were appended behind what `s` holds, some with success, and one maybe in part. -/
structure Extends [Codecs] [TracedSink σ] (w : Writer) (s : σ) (ops : List (Bytes × Bytes)) (r : Run σ) : Prop where
  encoding : r.writer.encoding = w.encoding
  acked : (r.acked.map (·.2)).Sublist ops
  size : r.writer.size = (ContentSink.content s ++ r.pages).length
  clean : r.writer.poisoned = false → ContentSink.content r.sink = ContentSink.content s ++ r.pages
  torn : r.writer.poisoned = true → ∃ part, ContentSink.content r.sink = ContentSink.content s ++ r.pages ++ part ∧
    (part = [] ∨ ∃ op ∈ ops, r.fatal = some op ∧ part <+: written w.encoding op.1 op.2)

section

variable [Codecs] [TracedSink σ] {w : Writer} {s : σ} {ops : List (Bytes × Bytes)} {r : Run σ}

theorem size_of_extends (h : r.Extends w s ops) (hp : r.writer.poisoned = false) :
    r.writer.size = (ContentSink.content r.sink).length := by
  rw [h.size, h.clean hp]

theorem extends_append (h : r.Extends w s ops) (op : Bytes × Bytes) : (r.append op).Extends w s (ops ++ [op]) := by
  have ha := Writer.attempt_append r.writer op.1 op.2 r.sink (size_of_extends h)
  have hacked := h.acked.trans (List.sublist_append_left ops [op])
  have htorn : r.writer.poisoned = true → ∃ part,
      ContentSink.content r.sink = ContentSink.content s ++ r.pages ++ part ∧
        (part = [] ∨ ∃ op' ∈ ops ++ [op], r.fatal = some op' ∧ part <+: written w.encoding op'.1 op'.2) := by
    intro hp
    obtain ⟨part, hcontent, hpart⟩ := h.torn hp
    exact ⟨part, hcontent, hpart.imp_right fun ⟨op', hmem, hrest⟩ => ⟨op', List.mem_append_left _ hmem, hrest⟩⟩
  unfold append
  generalize r.writer.append op.1 op.2 r.sink = result at ha ⊢
  obtain ⟨result, writer, sink⟩ := result
  dsimp only at ha ⊢
  cases ha with
  | unusable | unbuilt =>
    rw [Bool.and_not_self]
    exact { h with acked := hacked, torn := htorn }
  | cutBack usable withdrawn content =>
    rw [Bool.and_not_self]
    exact { h with
      acked := hacked
      clean := fun hp => content.trans (h.clean hp)
      torn := fun hp => by cases usable.symm.trans hp }
  | @stuck part _ usable withdrawn torn content =>
    rw [usable]
    refine { h with
      acked := hacked
      clean := fun hp => by cases hp
      torn := fun _ => ⟨part, ?_, .inr ⟨op, List.mem_append_right _ List.mem_cons_self, rfl, h.encoding ▸ torn⟩⟩ }
    exact content.trans (congrArg (· ++ part) (h.clean usable))
  | @done made _ usable tried content =>
    have hpages (record : Record) :
        (r.acked ++ [(record, op)]).flatMap (fun a => written r.writer.encoding a.2.1 a.2.2) =
          r.pages ++ written r.writer.encoding op.1 op.2 := by
      rw [List.flatMap_append, List.flatMap_singleton]
      rfl
    refine ⟨h.encoding, ?_, ?_, fun _ => ?_, fun hp => by cases usable.symm.trans hp⟩
    · rw [List.map_append]
      exact h.acked.append (List.Sublist.refl [op])
    · change r.writer.size + _ = (ContentSink.content s ++ List.flatMap _ _).length
      rw [hpages, h.size, ← List.append_assoc]
      exact List.length_append.symm
    · change ContentSink.content sink = ContentSink.content s ++ List.flatMap _ _
      rw [hpages, content, h.clean usable, List.append_assoc]

theorem extends_foldl (h : r.Extends w s ops) (more : List (Bytes × Bytes)) :
    (more.foldl append r).Extends w s (ops ++ more) := by
  induction more generalizing r ops with
  | nil =>
    rw [List.append_nil]
    exact h
  | cons op more ih =>
    have hrest := ih (extends_append h op)
    rw [List.append_assoc] at hrest
    exact hrest

/-- A run leaves what was there, the pages that were acknowledged, and behind them nothing or, once the writer is
poisoned, the beginning of one other. Every further append adds its page, withdraws it, or asks for nothing. -/
theorem atomic_of_size (hs : w.size = (ContentSink.content s).length) (ops : List (Bytes × Bytes)) :
    let r : Run σ := ops.foldl append { writer := w, sink := s }
    r.Extends w s ops ∧ ∀ id object, r.writer.Atomic r.sink id object := by
  intro r
  have hstart : Extends w s [] { writer := w, sink := s } := by
    refine ⟨rfl, List.Sublist.refl [], ?_, fun _ => (List.append_nil _).symm, fun _ => ⟨[], ?_, .inl rfl⟩⟩
    · change w.size = (ContentSink.content s ++ []).length
      rw [List.append_nil, hs]
    · change ContentSink.content s = ContentSink.content s ++ [] ++ []
      rw [List.append_nil, List.append_nil]
  have h : r.Extends w s ops := extends_foldl hstart ops
  exact ⟨h, Writer.atomic_append r.writer r.sink (size_of_extends h)⟩

end

/-- The first page is taken in two parts, the second not at all, and the third, of which three bytes are taken, cannot
be cut off again. -/
theorem atomic_of_stuck_truncate :
    let s : ScriptedSink := { content := [84], truncates := [true, false]
                              writes := [.took 5, .interrupted, .took 21, .failed, .took 3, .took 0] }
    let w : Writer := { encoding := .none, sync := .strict, size := 1 }
    let ops : List (Bytes × Bytes) := [([7], [8]), ([9], []), ([], [9])]
    let r := ops.foldl append { writer := w, sink := s }
    ContentSink.content r.sink = [84] ++ samplePage ++ [84, 87, 65] ∧ r.Extends w s ops ∧
      r.writer.append [7] [8] r.sink = (.error (.corruption .writerUnusable), r.writer, r.sink) := by
  intro s w ops r
  have hcontent : ContentSink.content r.sink = [84] ++ samplePage ++ [84, 87, 65] := by decide +kernel
  have hpoisoned : r.writer.poisoned = true := by decide +kernel
  obtain ⟨hextends, hatomic⟩ := @atomic_of_size ScriptedSink _ _ w s rfl ops
  exact ⟨hcontent, hextends, (hatomic [7] [8]).unusable hpoisoned⟩

end Run

end WriteAhead
