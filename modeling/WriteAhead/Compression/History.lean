import WriteAhead.Bytes

/-!
Output under construction, which back-references copy from: a copy may overlap what it writes, and
then repeats it. Main statement: a copy adds as many bytes as asked for, after what was there.
-/

namespace WriteAhead

abbrev History := Array UInt8

namespace History

/-- Appends `length` bytes, each the one `distance` places before it. -/
def repeatBack (out : History) (distance : Nat) : Nat → History
  | 0 => out
  | length + 1 => repeatBack (out.push (out.getD (out.size - distance) 0)) distance length

/-- Copies `length` bytes from `distance` back, if the output reaches back that far. -/
def copy? (out : History) (distance length : Nat) : Option History :=
  if 0 < distance ∧ distance ≤ out.size then some (out.repeatBack distance length) else none

theorem size_repeatBack (out : History) (distance length : Nat) :
    (out.repeatBack distance length).size = out.size + length := by
  induction length generalizing out with
  | zero => rfl
  | succ length ih =>
    rw [repeatBack, ih, Array.size_push]
    omega

theorem append_append (out : History) (a b : Bytes) : (out ++ a) ++ b = out ++ (a ++ b) := by
  apply Array.toList_inj.1
  simp

theorem size_append (out : History) (a : Bytes) : (out ++ a).size = out.size + a.length := by
  rw [← Array.length_toList, Array.toList_appendList, List.length_append, Array.length_toList]

end History

end WriteAhead
