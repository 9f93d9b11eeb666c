/-!
Text cut into fields at a separator. Main statements: what is in front of the first separator is
the first field, and text without one is a single field.
-/

namespace WriteAhead

namespace Fields

def split (sep : Char) : List Char → List (List Char)
  | [] => [[]]
  | c :: cs =>
    if c = sep then [] :: split sep cs
    else match split sep cs with
      | [] => [[c]]
      | field :: fields => (c :: field) :: fields

def join (sep : Char) : List (List Char) → List Char
  | [] => []
  | [field] => field
  | field :: fields => field ++ sep :: join sep fields

theorem split_append {sep : Char} {field : List Char} (h : sep ∉ field) (cs : List Char) :
    split sep (field ++ sep :: cs) = field :: split sep cs := by
  induction field with
  | nil => simp [split]
  | cons c field ih =>
    simp only [List.mem_cons, not_or] at h
    simp [split, Ne.symm h.1, ih h.2]

theorem split_of_notMem {sep : Char} {field : List Char} (h : sep ∉ field) : split sep field = [field] := by
  induction field with
  | nil => rfl
  | cons c field ih =>
    simp only [List.mem_cons, not_or] at h
    simp [split, Ne.symm h.1, ih h.2]

end Fields

end WriteAhead
