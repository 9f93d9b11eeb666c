import WriteAhead.Encoding
import WriteAhead.Text.Quoted

/-!
What can go wrong, by cause, and the one place where each cause is put into words.
-/

namespace WriteAhead

inductive Damage
  | badMagic (found : Nat)
  | unknownTag (tag : UInt8)
  | foreignEncoding (offset : Nat) (found expected : Encoding)
  | cutPage (offset : Nat)
  | wrongBodySize (offset found expected : Nat)
  | idTooLong (idLength available : Nat)
  | wrongPageLength (offset found indexed : Nat)
  | wrongId (offset : Nat)
  | emptyGroup (id : Bytes)
  | writerUnusable
  | noTimeRange (reason : String)
  deriving DecidableEq, Repr

/-- What a caller asked for and cannot have. -/
inductive Misuse
  | unsupportedEncoding (keyword : String)
  | tooLong (what : String) (length : Nat)
  | emptyTenant
  | unwritableField (name value : String)
  | emptyRoot
  | refused (reason : String)
  deriving DecidableEq, Repr

inductive NameFault
  | separator
  | fieldCount (n : Nat)
  | badId
  | noTenant
  | badVersion (version : String)
  | unknownEncoding (keyword : String)
  deriving DecidableEq, Repr

inductive Error
  /-- A file, a sink or a decompressor failed. -/
  | io
  | corruption (damage : Damage)
  | crcMismatch (expected actual : UInt32) (offset : Nat)
  | config (misuse : Misuse)
  | invalidFilename (filename : String) (fault : NameFault)
  | combine (id : Bytes) (count : Nat)
  | cancelled
  deriving DecidableEq, Repr

/-- Lowercase hexadecimal behind `0x`, without leading zeros. -/
def hexNumber (n : Nat) : String :=
  "0x" ++ String.ofList (Quoted.hexDigits n)

def Damage.message : Damage → String
  | badMagic found => s!"Invalid Page Magic: {hexNumber found}"
  | unknownTag tag => s!"Unknown page encoding: {tag.toNat}"
  | foreignEncoding offset found expected =>
    s!"Page at offset {offset} is {found.keyword}, block is {expected.keyword}"
  | cutPage offset => s!"Page at offset {offset} truncated"
  | wrongBodySize offset found expected =>
    s!"Page at offset {offset} decompressed to {found} bytes, expected {expected}"
  | idTooLong idLength available =>
    s!"Object id length {idLength} exceeds page body of {available} bytes"
  | wrongPageLength offset found indexed =>
    s!"Page at offset {offset} is {found} bytes, index says {indexed}"
  | wrongId offset => s!"Page at offset {offset} holds a different id than indexed"
  | emptyGroup id => s!"No objects for id {id.hex}"
  | writerUnusable => "Block writer is unusable after a failed rollback"
  | noTimeRange reason => s!"Unable to derive time range: {reason}"

def Misuse.message : Misuse → String
  | unsupportedEncoding keyword => s!"Unsupported encoding: {keyword}"
  | tooLong what length => s!"{what} of {length} bytes exceeds the 4 GiB page limit"
  | emptyTenant => "Tenant cannot be empty"
  | unwritableField name value => s!"{name} {quoted value} cannot contain ':' or a path separator"
  | emptyRoot => "WAL root path cannot be empty"
  | refused reason => reason

def NameFault.message : NameFault → String
  | separator => "filename contains a path separator"
  | fieldCount n => s!"unexpected number of fields: {n}"
  | badId => "invalid block id"
  | noTenant => "missing tenant"
  | badVersion version => s!"unexpected version {quoted version}"
  | unknownEncoding keyword => s!"unknown encoding {quoted keyword}"

def Error.message : Error → String
  | io => "I/O Error"
  | corruption damage => s!"Data Corruption: {damage.message}"
  | crcMismatch expected actual offset =>
    s!"CRC32 Checksum Mismatch: expected {hexNumber expected.toNat}, got {hexNumber actual.toNat} at offset {offset}"
  | config misuse => s!"Configuration Error: {misuse.message}"
  | invalidFilename filename fault => s!"Invalid block filename {quoted filename}: {fault.message}"
  | combine id count => s!"Unable to combine {count} objects for id {id.hex}"
  | cancelled => "Iteration cancelled"

def Encoding.read (t : UInt8) : Except Error Encoding :=
  match ofTag? t with
  | some e => .ok e
  | _ => .error (.corruption (.unknownTag t))

def Encoding.parse (s : String) : Except Error Encoding :=
  match ofKeyword? s with
  | some e => .ok e
  | _ => .error (.config (.unsupportedEncoding s))

end WriteAhead
