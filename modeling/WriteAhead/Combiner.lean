import WriteAhead.Error

/-!
Making one object of several that were stored under one id. Main statement: a combiner is asked
only if there are at least two.
-/

namespace WriteAhead

/-- Given the data encoding and the objects in append order; `none` if it cannot make one of them. -/
abbrev Combiner := String → List Bytes → Except Error (Option Bytes)

/-- A question that was put to a combiner. -/
structure CombinerCall where
  dataEncoding : String
  objects : List Bytes

/-- An answer, together with what combiners were asked for it. -/
structure Combined (α : Type) where
  result : Except Error α
  calls : List CombinerCall := []

/-- Makes one object of the group under `id`; a single one is taken as it is. -/
def combine (combiner : Combiner) (dataEncoding : String) (id : Bytes) (objects : List Bytes) : Combined Bytes :=
  match objects with
  | [] => ⟨.error (.corruption (.emptyGroup id)), []⟩
  | [object] => ⟨.ok object, []⟩
  | objects =>
    let result := match combiner dataEncoding objects with
      | .error e => .error e
      | .ok none => .error (.combine id objects.length)
      | .ok (some object) => .ok object
    ⟨result, [⟨dataEncoding, objects⟩]⟩

theorem calls_combine (combiner : Combiner) (dataEncoding : String) (id : Bytes) (objects : List Bytes) :
    (combine combiner dataEncoding id objects).calls =
      if 2 ≤ objects.length then [⟨dataEncoding, objects⟩] else [] := by
  match objects with
  | [] => rfl
  | [_] => rfl
  | _ :: _ :: _ => simp [combine]

end WriteAhead
