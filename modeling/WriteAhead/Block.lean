import WriteAhead.BlockMeta
import WriteAhead.Descriptor
import WriteAhead.Event
import WriteAhead.Iteration
import WriteAhead.Options

/-!
A block: a file that objects are appended to, with the index of its records, its bookkeeping, and
look-up by id.
-/

namespace WriteAhead

structure Block where
  descriptor : Descriptor
  path : Path
  options : Options
  file : FileId
  writer : Writer
  index : Index
  info : BlockMeta
  /-- The file that is open for look-up, once there was one. -/
  reader : Option Handle := none

namespace Block

def newMeta (d : Descriptor) : BlockMeta :=
  { id := d.id, tenant := d.tenant, encoding := d.encoding, dataEncoding := d.dataEncoding }

def create (descriptor : Descriptor) (options : Options) (disk : Disk) : Except Error (Block × Disk) :=
  let path := options.root ++ [descriptor.filename]
  match disk.openAppend path with
  | .error _ => .error .io
  | .ok (file, disk) =>
    .ok ({ descriptor, path, options, file
           writer := { encoding := descriptor.encoding, sync := options.sync, size := (disk.content file).length }
           index := []
           info := newMeta descriptor }, disk)

/-- Cuts an open file to a length, as the file's script lets it. -/
def cut (file : FileId) (length : Nat) (disk : Disk) : Bool × Disk :=
  let f := disk.file file
  let (succeeds, sink) := f.toScriptedSink.truncate length
  (succeeds, disk.setFile file { f with toScriptedSink := sink })

/-- Cuts an open file to a length, unless it has that length. -/
def trim (file : FileId) (length : Nat) (disk : Disk) : Bool × Disk :=
  if (disk.content file).length = length then (true, disk) else cut file length disk

/-- The block of a file that holds the records of a replay and nothing else. Its time range is unset. -/
def restored (descriptor : Descriptor) (path : Path) (replay : Page.Replay) (options : Options) (file : FileId) :
    Block where
  descriptor := descriptor
  path := path
  options := options
  file := file
  writer := { encoding := descriptor.encoding, sync := options.sync, size := replay.validEnd }
  index := replay.records
  info := { newMeta descriptor with size := replay.validEnd, objects := replay.records.length }

/-- Takes back a block from its replayed file, of which only the readable part is kept. -/
def ofReplay (descriptor : Descriptor) (path : Path) (replay : Page.Replay) (options : Options) (disk : Disk) :
    Except Error Block × Disk :=
  match disk.openAppend path with
  | .error _ => (.error .io, disk)
  | .ok (file, disk) =>
    match trim file replay.validEnd disk with
    | (true, disk) => (.ok (restored descriptor path replay options file), disk)
    | (false, disk) => (.error .io, disk)

/-- Adjusts a time range to the slack; says so if that changes it. -/
def adjust (b : Block) (now : UInt32) (start stop : UInt32) (additional : Duration) :
    (UInt32 × UInt32) × List Event :=
  let adjusted := adjustRange now b.options.slack additional start stop
  (adjusted, if adjusted = (start, stop) then [] else [.outsideSlack b.descriptor.tenant b.descriptor.id])

structure Appended where
  result : Except Error Unit
  block : Block
  disk : Disk
  events : List Event

/-- Adds an object with its time range. Index and bookkeeping only change if its page is written. -/
def append [Codecs] (b : Block) (id object : Bytes) (start stop : UInt32) (now : UInt32) (disk : Disk) : Appended :=
  let f := disk.file b.file
  let (result, writer, sink) := b.writer.append id object f.toScriptedSink
  let disk := disk.setFile b.file { f with toScriptedSink := sink }
  match result with
  | .error e =>
    ⟨.error e, { b with writer }, disk, if writer.poisoned && !b.writer.poisoned then [.rollbackFailed] else []⟩
  | .ok record =>
    let ((start, stop), events) := b.adjust now start stop .zero
    ⟨.ok (), { b with writer, index := b.index ++ [record], info := b.info.add start stop record.length.toNat },
      disk, events⟩

/-- Opens the file for look-up, unless it is open. -/
def openReader (b : Block) (disk : Disk) : Except Error Handle :=
  match b.reader with
  | some handle => .ok handle
  | none =>
    match disk.openRead b.path with
    | .error _ => .error .io
    | .ok handle => .ok handle

/-- The object under `id`, made of all that were appended under it, or nothing. -/
def find [Codecs] (b : Block) (id : Bytes) (combiner : Combiner) (disk : Disk) : Combined (Option Bytes) × Block :=
  match b.index.forId id with
  | [] => (⟨.ok none, []⟩, b)
  | records =>
    match b.openReader disk with
    | .error e => (⟨.error e, []⟩, b)
    | .ok handle =>
      let read (r : Record) := (Page.readAt b.descriptor.encoding (disk.source handle) r).map (·.2)
      let combined : Combined Bytes := match records.mapM read with
        | .error e => ⟨.error e, []⟩
        | .ok objects => combine combiner b.descriptor.dataEncoding id objects
      (⟨combined.result.map some, combined.calls⟩, { b with reader := some handle })

def iterate (b : Block) (combiner : Combiner) (disk : Disk) : Except Error Iteration :=
  match disk.openRead b.path with
  | .error _ => .error .io
  | .ok handle =>
    .ok { handle := some handle, encoding := b.descriptor.encoding, groups := b.index.grouped, combiner
          dataEncoding := b.descriptor.dataEncoding }

/-- Removes the file of the block; that it is gone already is no error. -/
def clear (b : Block) (disk : Disk) : Except Error Unit × Disk :=
  match disk.removeFile b.path with
  | .ok disk => (.ok (), disk)
  | .error .missing => (.ok (), disk)
  | .error .refused => (.error .io, disk)

def setRange (b : Block) (start stop : UInt32) : Block :=
  { b with info := { b.info with start := some start, stop := some stop } }

end Block

end WriteAhead
