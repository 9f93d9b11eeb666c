import WriteAhead.Combiner
import WriteAhead.Disk

/-!
Going through the ids of a block, each once and in ascending order. The records are those from when
the iteration began; their pages are read only when their turn comes.
-/

namespace WriteAhead

structure Iteration where
  /-- The open file, until the iteration has ended. -/
  handle : Option Handle
  encoding : Encoding
  groups : List (List Record)
  combiner : Combiner
  dataEncoding : String
  stopped : Bool := false

namespace Iteration

def close (it : Iteration) : Iteration := { it with handle := none, groups := [] }

/-- Asks the iteration to end before its next object. -/
def stop (it : Iteration) : Iteration := { it with stopped := true }

def remaining (it : Iteration) : Nat := it.groups.length

structure Step where
  /-- The next id with its object, an error in its place, or nothing at the end. -/
  item : Option (Except Error (Bytes × Bytes))
  calls : List CombinerCall := []
  rest : Iteration

def idOf (group : List Record) : Bytes :=
  match group with
  | [] => []
  | r :: _ => r.id

/-- Reads the pages of a group in turn, up to the first that cannot be read, and adds what it finds to `objects`. -/
def collect [Codecs] (encoding : Encoding) (source : Source) (objects : List Bytes) :
    List Record → Except Error (List Bytes)
  | [] => .ok objects
  | r :: rest =>
    match Page.readAt encoding source r with
    | .error e => .error e
    | .ok (_, object) => collect encoding source (objects ++ [object]) rest

/-- The id of a group with the one object that comes of it. -/
def nextObject [Codecs] (it : Iteration) (source : Source) (group : List Record) : Combined (Bytes × Bytes) :=
  match collect it.encoding source [] group with
  | .error e => ⟨.error e, []⟩
  | .ok objects =>
    let id := idOf group
    let merged := combine it.combiner it.dataEncoding id objects
    ⟨merged.result.map (id, ·), merged.calls⟩

/-- Goes on by one id. A group that fails does not end the iteration; having been stopped does. -/
def next [Codecs] (it : Iteration) (disk : Disk) : Step :=
  match it.handle with
  | none => ⟨none, [], it⟩
  | some handle =>
    if it.stopped then ⟨some (.error .cancelled), [], it.close⟩
    else match it.groups with
      | [] => ⟨none, [], it.close⟩
      | group :: groups =>
        let made := it.nextObject (disk.source handle) group
        ⟨some made.result, made.calls, { it with groups }⟩

/-- Takes up to `n` items, until there are no more. -/
def drain [Codecs] (disk : Disk) :
    Nat → Iteration → List (Except Error (Bytes × Bytes)) × List CombinerCall × Iteration
  | 0, it => ([], [], it)
  | n + 1, it =>
    let step := it.next disk
    match step.item with
    | none => ([], step.calls, step.rest)
    | some item =>
      let (items, calls, it) := drain disk n step.rest
      (item :: items, step.calls ++ calls, it)

end Iteration

end WriteAhead
