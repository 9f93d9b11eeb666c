import WriteAhead.Block

/-!
The log: a directory of block files, in which new blocks are made and from which, after a restart,
the blocks are taken back.
-/

namespace WriteAhead

structure Log where
  options : Options

/-- Finds the time range of a block from the id of its first record and its data encoding. It may
change the disk, and it may fail for a reason. -/
abbrev Deriver := Bytes → String → Disk → Except String (UInt32 × UInt32) × Disk

/-- What the clock says when the block in the file of a name has been taken back: it is read for each
block anew. -/
abbrev Clock := String → UInt32

namespace Log

/-- The name of the directory for blocks that are handed over; what is in it at the start is of no use. -/
def completedName : String := "completed"

structure Opened where
  result : Except Error Log
  disk : Disk
  events : List Event := []

def start (options : Options) (disk : Disk) : Opened :=
  if options.root = [] then ⟨.error (.config .emptyRoot), disk, []⟩
  else match disk.makePath options.root with
    | (.error _, disk) => ⟨.error .io, disk, []⟩
    | (.ok (), disk) =>
      match disk.removeTree (options.root ++ [completedName]) with
      | .ok disk => ⟨.ok ⟨options⟩, disk, [.removedCompleted]⟩
      | .error .missing => ⟨.ok ⟨options⟩, disk, []⟩
      | .error .refused => ⟨.error .io, disk, []⟩

def newBlock (log : Log) (id : Uuid) (tenant dataEncoding : String) (disk : Disk) : Except Error (Block × Disk) := do
  let descriptor ← Descriptor.create id tenant log.options.encoding dataEncoding
  Block.create descriptor log.options disk

/-- The state of a rescan: the blocks and the questions to the deriver come latest first. -/
structure Rescan where
  disk : Disk
  blocks : List Block := []
  hints : List (Bytes × String) := []
  events : List Event := []

namespace Rescan

def note (s : Rescan) (event : Event) : Rescan := { s with events := s.events ++ [event] }

def remove (s : Rescan) (path : Path) : Rescan :=
  match s.disk.removeFile path with
  | .ok disk => { s with disk }
  | .error _ => s.note .notRemoved

end Rescan

/-- Asks for the time range of a replayed block, and takes it back. -/
def recover (log : Log) (name : String) (descriptor : Descriptor) (path : Path) (replay : Page.Replay)
    (first : Record) (derive : Deriver) (additional : Duration) (clock : Clock) (s : Rescan) :
    Except Error Block × Rescan :=
  let s := if replay.warning.isSome then s.note (.damagedTail name replay.records.length) else s
  let (range, disk) := derive first.id descriptor.dataEncoding s.disk
  let s := { s with disk, hints := (first.id, descriptor.dataEncoding) :: s.hints }
  match range with
  | .error reason => (.error (.corruption (.noTimeRange reason)), s)
  | .ok (start, stop) =>
    match Block.ofReplay descriptor path replay log.options s.disk with
    | (.error e, disk) => (.error e, { s with disk })
    | (.ok block, disk) =>
      let ((start, stop), events) := block.adjust (clock name) start stop additional
      (.ok (block.setRange start stop), { s with disk, events := s.events ++ events })

/-- Takes back the block in one file; `none` if the file holds no readable record. -/
def replayFile [Codecs] (log : Log) (name : String) (path : Path) (derive : Deriver) (additional : Duration)
    (clock : Clock) (s : Rescan) : Except Error (Option Block) × Rescan :=
  match Descriptor.parse name with
  | .error e => (.error e, s)
  | .ok descriptor =>
    match s.disk.openRead path with
    | .error _ => (.error .io, s)
    | .ok handle =>
      match Page.replay descriptor.encoding log.options.readBuffer (s.disk.source handle) with
      | .error e => (.error e, s)
      | .ok replay =>
        match replay.records with
        | [] => (.ok none, s)
        | first :: _ =>
          let (result, s) := log.recover name descriptor path replay first derive additional clock s
          (result.map some, s)

/-- What follows from trying to take back the block in a file: a file that cannot be read is left
alone, and one that holds no block is removed. -/
def settle (name : String) (path : Path) : Except Error (Option Block) × Rescan → Rescan
  | (.ok (some block), s) =>
    let s := s.note (.replayComplete name block.index.length)
    { s with blocks := block :: s.blocks }
  | (.ok none, s) => (s.note (.emptyFile name)).remove path
  | (.error .io, s) => s.note (.unreadable name)
  | (.error _, s) => (s.note (.unusable name)).remove path

/-- Deals with one entry of the directory. -/
def visit [Codecs] (log : Log) (derive : Deriver) (additional : Duration) (clock : Clock) (s : Rescan)
    (entry : String × Node) : Rescan :=
  let (name, node) := entry
  if node = .directory then s
  else
    let path := log.options.root ++ [name]
    let s := s.note (.beginningReplay name)
    settle name path (log.replayFile name path derive additional clock s)

/-- Takes back the blocks of all files in the directory. -/
def rescan [Codecs] (log : Log) (derive : Deriver) (additional : Duration) (clock : Clock) (disk : Disk) :
    Except Error Rescan :=
  match disk.list log.options.root with
  | .error _ => .error .io
  | .ok entries => .ok (entries.foldl (log.visit derive additional clock) { disk })

end Log

end WriteAhead
