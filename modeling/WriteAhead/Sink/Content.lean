import WriteAhead.Sink.Limited
import WriteAhead.Sink.Scripted

/-!
Sinks whose content is known. Main statement: whatever becomes of the single calls, writing adds a
beginning of what it is given, and all of it if it succeeds (`content_writeAll`).
-/

namespace WriteAhead

/-- Those of some bytes that a write call took. -/
def WriteResult.taken (bytes : Bytes) : WriteResult → Bytes
  | .took n => bytes.take n
  | .interrupted => []
  | .failed => []

/-- Every call may fail. A write call adds what it takes, and a cut takes all or nothing away. -/
class ContentSink (σ : Type) extends Sink σ where
  content : σ → Bytes
  content_write : ∀ bytes s, content (write bytes s).2 = content s ++ (write bytes s).1.taken bytes
  content_flush : ∀ s, content (flush s).2 = content s
  content_sync : ∀ s, content (sync s).2 = content s
  content_truncate : ∀ n s, n ≤ (content s).length →
    content (truncate n s).2 = if (truncate n s).1 then (content s).take n else content s

instance : ContentSink ScriptedSink where
  content := ScriptedSink.content
  content_write bytes s := by
    change (s.write bytes).2.content = s.content ++ (s.write bytes).1.taken bytes
    unfold ScriptedSink.write
    split
    · simp [WriteResult.taken]
    · next n writes h =>
      have ht : bytes.take (min n bytes.length) = bytes.take n := by rw [← List.take_take, List.take_length]
      simp only [WriteResult.taken, ht]
    · next r writes hr h =>
      cases r with
      | took n => exact absurd rfl (hr n)
      | interrupted => simp [WriteResult.taken]
      | failed => simp [WriteResult.taken]
  content_flush _ := rfl
  content_sync _ := rfl
  content_truncate n s h := by
    have hr : s.content.resize n = s.content.take n := by
      rw [Bytes.resize, Nat.sub_eq_zero_of_le h]
      exact List.append_nil _
    change (if s.truncates.headD true then s.content.resize n else s.content) = _
    rw [hr]
    rfl

instance : ContentSink LimitedSink where
  content := LimitedSink.content
  content_write bytes s := by
    change (s.write bytes).2.content = s.content ++ (s.write bytes).1.taken bytes
    simp only [LimitedSink.write]
    split
    · simp [WriteResult.taken]
    · split
      · split <;> simp [WriteResult.taken]
      · rfl
  content_flush _ := rfl
  content_sync _ := rfl
  content_truncate n s _ := by
    change (if s.truncateFails then s.content else s.content.take n) = if !s.truncateFails then _ else _
    cases s.truncateFails <;> rfl

/-- A sink, and what it held when it was last made sure of. -/
structure Synced (σ : Type) where
  sink : σ
  safe : Bytes := []

namespace Synced

variable {σ : Type} [ContentSink σ]

def sync (s : Synced σ) : Bool × Synced σ :=
  let r := Sink.sync s.sink
  (r.1, ⟨r.2, if r.1 then ContentSink.content s.sink else s.safe⟩)

instance : ContentSink (Synced σ) where
  write bytes s := ((Sink.write bytes s.sink).1, { s with sink := (Sink.write bytes s.sink).2 })
  flush s := ((Sink.flush s.sink).1, { s with sink := (Sink.flush s.sink).2 })
  sync := Synced.sync
  truncate n s := ((Sink.truncate n s.sink).1, { s with sink := (Sink.truncate n s.sink).2 })
  patience s := Sink.patience s.sink
  patience_interrupted bytes s := Sink.patience_interrupted bytes s.sink
  patience_took bytes s := Sink.patience_took bytes s.sink
  content s := ContentSink.content s.sink
  content_write bytes s := ContentSink.content_write bytes s.sink
  content_flush s := ContentSink.content_flush s.sink
  content_sync s := ContentSink.content_sync s.sink
  content_truncate n s := ContentSink.content_truncate n s.sink

end Synced

namespace Sink

variable {σ : Type} [ContentSink σ]

theorem content_writeAll (bytes : Bytes) (s : σ) :
    ∃ part, part <+: bytes ∧ ContentSink.content (writeAll bytes s).2 = ContentSink.content s ++ part ∧
      ((writeAll bytes s).1 = true → part = bytes) := by
  fun_induction writeAll bytes s with
  | case1 s => exact ⟨[], by simp⟩
  | case2 s b rest s' h =>
    have hc := ContentSink.content_write (b :: rest) s
    rw [h] at hc
    exact ⟨[], List.nil_prefix, hc, by simp⟩
  | case3 s b rest s' h _ ih =>
    have hc := ContentSink.content_write (b :: rest) s
    rw [h] at hc
    obtain ⟨part, hpre, hpart, hall⟩ := ih
    refine ⟨part, hpre, ?_, hall⟩
    rw [hpart, hc]
    simp [WriteResult.taken]
  | case4 s b rest s' h =>
    have hc := ContentSink.content_write (b :: rest) s
    rw [h] at hc
    exact ⟨[], List.nil_prefix, hc, by simp⟩
  | case5 s b rest n s' h _ ih =>
    have hc := ContentSink.content_write (b :: rest) s
    rw [h] at hc
    obtain ⟨part, ⟨more, hmore⟩, hpart, hall⟩ := ih
    have hsplit : b :: rest = (b :: rest).take (n + 1) ++ rest.drop n := by
      rw [List.take_succ_cons, List.cons_append, List.take_append_drop]
    refine ⟨(b :: rest).take (n + 1) ++ part, ⟨more, ?_⟩, ?_, ?_⟩
    · rw [List.append_assoc, hmore, ← hsplit]
    · rw [hpart, hc, List.append_assoc]
      rfl
    · intro hr
      rw [hall hr, ← hsplit]

end Sink

end WriteAhead
