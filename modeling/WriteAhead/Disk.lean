import WriteAhead.Page.Reader
import WriteAhead.Sink.Scripted
import WriteAhead.Text.Fields

/-!
Directories and files as a value. Names lead to files, and a file that is open stays what it is
when its name goes; a file may be unreadable from some place on, and writing to it may fail as its
script says.
-/

namespace WriteAhead

/-- Names from a directory downward; `.`, `..` and links may be among them. -/
abbrev Path := List String

namespace Path

/-- The names between slashes; a slash in front stays, as a name that nothing has. -/
def ofString (s : String) : Path :=
  let names := ((Fields.split '/' s.toList).filter (· ≠ [])).map String.ofList
  if s.toList.head? = some '/' then "/" :: names else names

def toString (path : Path) : String :=
  String.ofList (Fields.join '/' (path.map String.toList))

end Path

abbrev FileId := Nat

structure File extends ScriptedSink where
  /-- How many bytes can be read before reading fails, if it does. -/
  readable : Option Nat := none

inductive Node
  | file (id : FileId)
  | directory
  | link (target : Path)
  deriving DecidableEq

inductive Handle
  | file (id : FileId)
  | directory
  deriving DecidableEq

inductive Fault
  | missing
  | refused
  deriving DecidableEq

/-- `entries` are the places below the top directory, each a list of plain names. -/
structure Disk where
  files : List File := []
  entries : List (Path × Node) := []

namespace Disk

variable (d : Disk)

def node? (place : Path) : Option Node :=
  if place = [] then some .directory else d.entries.lookup place

/-- Whether `name` can be the name of anything: it has at most 255 bytes and no slash. -/
def isName (name : String) : Bool :=
  name.utf8ByteSize ≤ 255 && !name.toList.contains '/'

/-- A path with a zero in it is refused as a whole. -/
def isText (path : Path) : Bool :=
  path.all fun name => !name.toList.contains '\x00'

def maxLinks : Nat := 40

/-- Finds the place that a path from the directory `place` leads to; nothing needs to be there.
A link at the very end is followed only if `follow` is set. -/
def locate (follow : Bool) : Nat → Path → Path → Except Fault Path
  | _, place, [] => .ok place
  | links, place, name :: rest =>
    if name = "." then locate follow links place rest
    else if name = ".." then locate follow links place.dropLast rest
    else if !isName name then .error .refused
    else match d.node? (place ++ [name]) with
      | none => if rest.isEmpty then .ok (place ++ [name]) else .error .missing
      | some .directory => locate follow links (place ++ [name]) rest
      | some (.file _) => if rest.isEmpty then .ok (place ++ [name]) else .error .refused
      | some (.link target) =>
        if rest.isEmpty && !follow then .ok (place ++ [name])
        else match links with
          | 0 => .error .refused
          | links + 1 => locate follow links place (target ++ rest)
termination_by links _ path => (links, path.length)

/-- The place that a path leads to, and what is there. -/
def find? (follow : Bool) (path : Path) : Except Fault (Path × Option Node) :=
  if isText path then (d.locate follow maxLinks [] path).map fun place => (place, d.node? place)
  else .error .refused

def file (id : FileId) : File :=
  (d.files[id]?).getD { content := [] }

def setFile (id : FileId) (f : File) : Disk :=
  { d with files := d.files.set id f }

def content (id : FileId) : Bytes := (d.file id).content

def setContent (id : FileId) (content : Bytes) : Disk :=
  d.setFile id { d.file id with content }

/-- Gives a place to a node; a new place comes last. -/
def put (place : Path) (node : Node) : Disk :=
  { d with entries := (d.entries.filter (·.1 ≠ place)) ++ [(place, node)] }

def erase (place : Path) : Disk :=
  { d with entries := d.entries.filter (·.1 ≠ place) }

/-- Takes away a place with all that is below it. -/
def eraseTree (place : Path) : Disk :=
  { d with entries := d.entries.filter fun entry => !place.isPrefixOf entry.1 }

/-- What reading from an open handle gives; a directory cannot be read. -/
def source (handle : Handle) : Source :=
  match handle with
  | .directory => ⟨0, [], true⟩
  | .file id =>
    let f := d.file id
    match f.readable with
    | none => .ofBytes f.content
    | some n => ⟨f.content.length, f.content.take n, true⟩

def openRead (path : Path) : Except Fault Handle :=
  match d.find? true path with
  | .error fault => .error fault
  | .ok (_, none) => .error .missing
  | .ok (_, some (.file id)) => .ok (.file id)
  | .ok (_, some .directory) => .ok .directory
  | .ok (_, some (.link _)) => .error .refused

def create (place : Path) (content : Bytes) : FileId × Disk :=
  (d.files.length, { d.put place (.file d.files.length) with files := d.files ++ [{ content }] })

/-- Opens a file to add to it; makes an empty one if there is none. -/
def openAppend (path : Path) : Except Fault (FileId × Disk) :=
  match d.find? true path with
  | .error fault => .error fault
  | .ok (place, none) => .ok (d.create place [])
  | .ok (_, some (.file id)) => .ok (id, d)
  | .ok (_, some _) => .error .refused

def removeFile (path : Path) : Except Fault Disk :=
  match d.find? false path with
  | .error fault => .error fault
  | .ok (_, none) => .error .missing
  | .ok (_, some .directory) => .error .refused
  | .ok (place, some _) => .ok (d.erase place)

def removeTree (path : Path) : Except Fault Disk :=
  match d.find? false path with
  | .error fault => .error fault
  | .ok (_, none) => .error .missing
  | .ok (_, some (.file _)) => .error .refused
  | .ok (place, some _) => .ok (d.eraseTree place)

def makeDirectory (path : Path) : Except Fault Disk :=
  match d.find? true path with
  | .error fault => .error fault
  | .ok (_, some .directory) => .ok d
  | .ok (_, some _) => .error .refused
  | .ok (place, none) =>
    match d.find? false path with
    | .ok (_, none) => .ok (d.put place .directory)
    | _ => .error .refused

/-- Makes the directories along `names` below `path`; those made before a failure stay. -/
def makeTree (path : Path) : Path → Disk → Except Fault Unit × Disk
  | [], d => (.ok (), d)
  | name :: names, d =>
    match d.makeDirectory (path ++ [name]) with
    | .error fault => (.error fault, d)
    | .ok d => makeTree (path ++ [name]) names d

def makePath (path : Path) : Except Fault Unit × Disk :=
  if isText path then makeTree [] path d else (.error .refused, d)

/-- The names in a directory, in no particular order. -/
def list (path : Path) : Except Fault (List (String × Node)) :=
  match d.find? true path with
  | .error fault => .error fault
  | .ok (_, none) => .error .missing
  | .ok (place, some .directory) =>
    .ok (d.entries.filterMap fun (entry, node) =>
      match entry.getLast? with
      | some name => if entry.dropLast = place then some (name, node) else none
      | none => none)
  | .ok (_, some _) => .error .refused

variable {d : Disk}

@[simp] theorem entries_setFile (id : FileId) (f : File) : (d.setFile id f).entries = d.entries := rfl

@[simp] theorem length_files_setFile (id : FileId) (f : File) : (d.setFile id f).files.length = d.files.length :=
  List.length_set

theorem file_setFile {id : FileId} (h : id < d.files.length) (f : File) : (d.setFile id f).file id = f := by
  rw [file, setFile, List.getElem?_set_self h, Option.getD_some]

theorem file_setFile_of_ne {id other : FileId} (h : other ≠ id) (f : File) :
    (d.setFile id f).file other = d.file other := by
  rw [file, setFile, List.getElem?_set_ne h.symm, file]

@[simp] theorem length_files_create (place : Path) (content : Bytes) :
    (d.create place content).2.files.length = d.files.length + 1 :=
  List.length_append

theorem file_create (place : Path) (content : Bytes) :
    (d.create place content).2.file d.files.length = { content } := by
  rw [file, create, List.getElem?_concat_length, Option.getD_some]

theorem content_of_le {id : FileId} (h : d.files.length ≤ id) : d.content id = [] := by
  rw [content, file, List.getElem?_eq_none h, Option.getD_none]

theorem lt_of_content_ne_nil {id : FileId} (h : d.content id ≠ []) : id < d.files.length :=
  Nat.lt_of_not_le fun hle => h (content_of_le hle)

theorem files_of_removeFile {d' : Disk} {path : Path} (h : d.removeFile path = .ok d') : d'.files = d.files := by
  unfold removeFile at h
  split at h
  · cases h
  · cases h
  · cases h
  · cases h
    rfl

/-- Opening for adding finds the same file as opening for reading. -/
theorem openAppend_of_openRead {path : Path} {id : FileId} (h : d.openRead path = .ok (.file id)) :
    d.openAppend path = .ok (id, d) := by
  unfold openRead at h
  unfold openAppend
  split at h
  · cases h
  · cases h
  · next hf =>
    cases h
    rw [hf]
  · cases h
  · cases h

end Disk

end WriteAhead
