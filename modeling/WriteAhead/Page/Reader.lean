import WriteAhead.Compression
import WriteAhead.Page.Body
import WriteAhead.Page.Header
import WriteAhead.Record

/-!
Reading the pages of a file: one at a place that a record gives, or all from the start up to the
first that cannot be read. Main statement: a page takes at least its header (`length_of_next`).
-/

namespace WriteAhead

/-- What reading a file gives: these bytes, and then its end or a failure. -/
structure Source where
  /-- The length that the file is said to have. -/
  length : Nat
  bytes : Bytes
  fails : Bool

namespace Source

def ofBytes (bytes : Bytes) : Source := ⟨bytes.length, bytes, false⟩

end Source

namespace Page

/-- The checksum of a page covers its tag, both sizes and the payload. -/
def checksum (e : Encoding) (bodySize : UInt32) (payload : Bytes) : UInt32 :=
  crc32 (e.tag :: ofWord (UInt32.ofNat payload.length) ++ ofWord bodySize ++ payload)

structure Content where
  header : Header
  id : Bytes
  object : Bytes

def unpack [Codecs] (offset : Nat) (header : Header) (payload : Bytes) : Except Error Content := do
  let crc := checksum header.encoding header.bodySize payload
  if crc ≠ header.crc then throw (.crcMismatch header.crc crc offset)
  match header.encoding.decompress payload with
  | none => throw .io
  | some body =>
    if body.length ≠ header.bodySize.toNat then
      throw (.corruption (.wrongBodySize offset body.length header.bodySize.toNat))
    let (id, object) ← Body.decode body
    return ⟨header, id, object⟩

/-- Reads the page of encoding `e` that `input` begins with, at `offset` of its file. If the
length of the file is given, a page that would go beyond it is not even begun. -/
def next [Codecs] (e : Encoding) (offset : Nat) (fileLength : Option Nat) (input : Bytes) :
    Except Error (Content × Bytes) :=
  match Header.read input with
  | (.error fault, _) => .error fault
  | (.ok header, rest) =>
    if header.encoding ≠ e then .error (.corruption (.foreignEncoding offset header.encoding e))
    else if fileLength.any (· < offset + header.pageLength) then .error (.corruption (.cutPage offset))
    else match Bytes.cut? header.diskSize.toNat rest with
      | none => .error .io
      | some (payload, rest) => (unpack offset header payload).map (·, rest)

/-- The furthest place that can be sought. -/
def maxSeek : Nat := 0x7FFFFFFFFFFFFFFF

/-- Reads the page that a record points at, which must have the length and id recorded. -/
def readAt [Codecs] (e : Encoding) (source : Source) (r : Record) : Except Error (Bytes × Bytes) :=
  if maxSeek < r.start then .error .io
  else match next e r.start none (source.bytes.drop r.start) with
    | .error fault => .error fault
    | .ok (page, _) =>
      if page.header.pageLength ≠ r.length.toNat then
        .error (.corruption (.wrongPageLength r.start page.header.pageLength r.length.toNat))
      else if page.id ≠ r.id then .error (.corruption (.wrongId r.start))
      else .ok (page.id, page.object)

structure Replay where
  records : Index
  /-- Where the last readable page ends. -/
  validEnd : Nat
  /-- Why the replay ended before the file did. -/
  warning : Option Error

theorem length_of_next [Codecs] {e : Encoding} {offset : Nat} {fileLength : Option Nat} {input rest : Bytes}
    {page : Content} (h : next e offset fileLength input = .ok (page, rest)) :
    headerSize + rest.length ≤ input.length := by
  unfold next at h
  split at h
  · cases h
  · next hr =>
    have := Header.length_of_read hr
    split at h
    · cases h
    · split at h
      · cases h
      · split at h
        · cases h
        · next hc =>
          have := Bytes.length_of_cut? hc
          simp only [Except.map] at h
          split at h
          · cases h
          · cases h
            omega

/-- Reads pages one after the other; `records` are those before `offset`, latest first. The end is
seen where nothing is left, or at once if nothing can be buffered. -/
def replayFrom [Codecs] (e : Encoding) (buffer : Nat) (source : Source) (input : Bytes) (offset : Nat)
    (records : Index) : Except Error Replay :=
  if input.isEmpty && source.fails then .error .io
  else if input.isEmpty || buffer == 0 then .ok ⟨records.reverse, offset, none⟩
  else match h : next e offset (some source.length) input with
    | .error fault => .ok ⟨records.reverse, offset, some fault⟩
    | .ok (page, rest) =>
      have : rest.length < input.length := by
        have := length_of_next h
        simp only [headerSize] at this
        omega
      let length := page.header.pageLength
      replayFrom e buffer source rest (offset + length) (⟨page.id, offset, UInt32.ofNat length⟩ :: records)
termination_by input.length

/-- Reads all pages up to the first that cannot be read. What is wrong with that one is a warning;
only a failure to go on reading between two pages is an error. -/
def replay [Codecs] (e : Encoding) (buffer : Nat) (source : Source) : Except Error Replay :=
  replayFrom e buffer source source.bytes 0 []

end Page

end WriteAhead
