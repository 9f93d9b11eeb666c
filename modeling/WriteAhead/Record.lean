import WriteAhead.Bytes

/-!
Where stored objects lie, in the order in which they were appended, and how they are grouped by id.
-/

namespace WriteAhead

structure Record where
  id : Bytes
  /-- Where the page begins in the file of the block. -/
  start : Nat
  /-- The length of the page, its header included. -/
  length : UInt32
  deriving DecidableEq

/-- The records of a block in append order. -/
abbrev Index := List Record

namespace Index

def forId (index : Index) (id : Bytes) : List Record :=
  index.filter (·.id == id)

/-- The records of each id in append order, by ascending id. -/
def grouped (index : Index) : List (List Record) :=
  (index.mergeSort fun a b => decide (a.id ≤ b.id)).splitBy fun a b => a.id == b.id

/-- Records that follow each other from `start` on, without gap or overlap, up to `stop`. -/
def Tiles (start stop : Nat) : Index → Prop
  | [] => start = stop
  | r :: rest => r.start = start ∧ Tiles (start + r.length.toNat) stop rest

def total : Index → Nat
  | [] => 0
  | r :: rest => r.length.toNat + total rest

theorem total_of_tiles {start stop : Nat} {index : Index} (h : index.Tiles start stop) :
    start + index.total = stop := by
  induction index generalizing start with
  | nil => exact h
  | cons r rest ih =>
    rw [total, ← Nat.add_assoc]
    exact ih h.2

end Index

end WriteAhead
