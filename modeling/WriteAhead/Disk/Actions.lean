import WriteAhead.Disk

/-!
Changes to a disk by others than the log itself: files are written, cut, moved and linked.
-/

namespace WriteAhead.Disk

variable (d : Disk)

def read (path : Path) : Except Fault Bytes :=
  match d.find? true path with
  | .error fault => .error fault
  | .ok (_, some (.file id)) => .ok (d.content id)
  | .ok (_, some _) => .error .refused
  | .ok (_, none) => .error .missing

def update (path : Path) (change : Bytes → Bytes) : Except Fault Disk :=
  match d.find? true path with
  | .error fault => .error fault
  | .ok (_, some (.file id)) => .ok (d.setContent id (change (d.content id)))
  | .ok (_, some _) => .error .refused
  | .ok (_, none) => .error .missing

def write (path : Path) (content : Bytes) : Except Fault Disk := do
  let (id, d) ← d.openAppend path
  return d.setContent id content

/-- Makes a link, where nothing is yet; it must lead somewhere. -/
def link (path target : Path) : Except Fault Disk :=
  if target = [] || !isText target then .error .refused
  else match d.find? false path with
    | .error fault => .error fault
    | .ok (_, some _) => .error .refused
    | .ok (place, none) => .ok (d.put place (.link target))

def moveTree (source target : Path) : Disk :=
  { d with entries := (d.entries.filter (·.1 ≠ target)).map fun (entry, node) =>
      (if source.isPrefixOf entry then target ++ entry.drop source.length else entry, node) }

/-- Gives another name to what a path leads to. What had that name is replaced, except that a
directory only takes the place of an empty one, and only a directory does. -/
def rename (path goal : Path) : Except Fault Disk :=
  match d.find? false path, d.find? false goal with
  | .error fault, _ => .error fault
  | _, .error fault => .error fault
  | .ok (_, none), _ => .error .missing
  | .ok (source, some node), .ok (target, replaced) =>
    if source = target then .ok d
    else if source.isPrefixOf target then .error .refused
    else
      let isEmpty := d.entries.all fun (entry, _) => entry.dropLast ≠ target || entry = []
      match node, replaced with
      | .directory, some .directory => if isEmpty then .ok (d.moveTree source target) else .error .refused
      | .directory, some _ => .error .refused
      | _, some .directory => .error .refused
      | _, _ => .ok (d.moveTree source target)

end WriteAhead.Disk
