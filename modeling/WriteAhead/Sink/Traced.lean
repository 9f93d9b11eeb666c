import WriteAhead.Sink.Content

/-!
Sinks that remember what they were asked for. Main statement: writing something takes at least one call, and never
cuts anything off (`calls_writeAll`).
-/

namespace WriteAhead

def SinkCall.isCut : SinkCall → Bool
  | truncate _ => true
  | _ => false

/-- The calls are kept latest first, whether they failed or not. -/
class TracedSink (σ : Type) extends ContentSink σ where
  calls : σ → List SinkCall
  calls_write : ∀ bytes s, calls (write bytes s).2 = .write bytes.length :: calls s
  calls_flush : ∀ s, calls (flush s).2 = .flush :: calls s
  calls_sync : ∀ s, calls (sync s).2 = .sync :: calls s
  calls_truncate : ∀ n s, calls (truncate n s).2 = .truncate n :: calls s

instance : TracedSink ScriptedSink where
  calls := ScriptedSink.calls
  calls_write bytes s := by
    change (s.write bytes).2.calls = _
    unfold ScriptedSink.write
    split <;> rfl
  calls_flush _ := rfl
  calls_sync _ := rfl
  calls_truncate _ _ := rfl

instance : TracedSink LimitedSink where
  calls := LimitedSink.calls
  calls_write bytes s := by
    change (s.write bytes).2.calls = _
    unfold LimitedSink.write
    dsimp only
    split
    · rfl
    · split <;> rfl
  calls_flush _ := rfl
  calls_sync _ := rfl
  calls_truncate _ _ := rfl

namespace Sink

variable {σ : Type} [TracedSink σ]

/-- From `s` to `s'` the sink was asked for `made`, latest first, and not to cut anything off. -/
structure Tried (s : σ) (made : List SinkCall) (s' : σ) : Prop where
  calls : TracedSink.calls s' = made ++ TracedSink.calls s
  uncut : ∀ call ∈ made, call.isCut = false

/-- From `s` to `s'` the sink was asked for something, and then, once, to cut off what is beyond `n`. -/
def Withdrawn (n : Nat) (s s' : σ) : Prop :=
  ∃ made s₁, made ≠ [] ∧ Tried s made s₁ ∧ TracedSink.calls s' = .truncate n :: TracedSink.calls s₁

variable {s s' s'' : σ} {made more : List SinkCall}

theorem tried_refl (s : σ) : Tried s [] s := ⟨rfl, by simp⟩

theorem tried_trans (h : Tried s made s') (h' : Tried s' more s'') : Tried s (more ++ made) s'' where
  calls := by rw [h'.calls, h.calls, List.append_assoc]
  uncut := List.forall_mem_append.2 ⟨h'.uncut, h.uncut⟩

theorem tried_write (bytes : Bytes) (s : σ) : Tried s [.write bytes.length] (Sink.write bytes s).2 where
  calls := TracedSink.calls_write bytes s
  uncut := List.forall_mem_singleton.2 rfl

theorem tried_flush (s : σ) : Tried s [.flush] (Sink.flush s).2 where
  calls := TracedSink.calls_flush s
  uncut := List.forall_mem_singleton.2 rfl

theorem tried_sync (s : σ) : Tried s [.sync] (Sink.sync s).2 where
  calls := TracedSink.calls_sync s
  uncut := List.forall_mem_singleton.2 rfl

theorem calls_writeAll (bytes : Bytes) (s : σ) :
    ∃ made, Tried s made (writeAll bytes s).2 ∧ (bytes ≠ [] → made ≠ []) := by
  fun_induction writeAll bytes s with
  | case1 s => exact ⟨[], tried_refl s, fun hne => absurd rfl hne⟩
  | case2 s b rest s' h | case4 s b rest s' h =>
    have hcall := tried_write (b :: rest) s
    rw [h] at hcall
    exact ⟨_, hcall, fun _ => List.cons_ne_nil _ _⟩
  | case3 s b rest s' h _ ih | case5 s b rest n s' h _ ih =>
    have hcall := tried_write (b :: rest) s
    rw [h] at hcall
    obtain ⟨made, hmade, -⟩ := ih
    exact ⟨_, tried_trans hcall hmade, fun _ => List.append_ne_nil_of_right_ne_nil _ (List.cons_ne_nil _ _)⟩

end Sink

end WriteAhead
