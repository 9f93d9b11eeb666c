import WriteAhead.Checksum.Crc32
import WriteAhead.Compression.Codec
import WriteAhead.Compression.Deflate
import WriteAhead.Compression.Deflate.Writer

/-!
Gzip members: a header with optional fields, a deflate stream, and a checksum and length behind it.
Only the first member is read.
-/

namespace WriteAhead.Gzip

structure Flags where
  headerChecksum : Bool
  extra : Bool
  name : Bool
  comment : Bool

/-- The reserved bits must not be set. -/
def flags? (b : UInt8) : Option Flags :=
  if b &&& 0xE0 = 0 then
    some ⟨b &&& 2 ≠ 0, b &&& 4 ≠ 0, b &&& 8 ≠ 0, b &&& 16 ≠ 0⟩
  else none

def maxText : Nat := 65535

/-- Skips bytes behind their number, if `present`. -/
def skipExtra? (present : Bool) (bytes : Bytes) : Option Bytes :=
  if present then do
    let (length, bytes) ← bytes.number? 2
    let (_, bytes) ← bytes.cut? length
    some bytes
  else some bytes

/-- Skips bytes up to and with a zero, if `present`. -/
def skipText? (present : Bool) (bytes : Bytes) : Option Bytes :=
  if present then
    let text := bytes.takeWhile (· != 0)
    match bytes.dropWhile (· != 0) with
    | [] => none
    | _ :: rest => if text.length ≤ maxText then some rest else none
  else some bytes

/-- Checks `rest`'s first two bytes against what of `header` comes before `rest`, if `present`. -/
def skipChecksum? (present : Bool) (header rest : Bytes) : Option Bytes :=
  if present then do
    let (checksum, after) ← rest.number? 2
    if (crc32 (header.take (header.length - rest.length))).toNat % 65536 = checksum then some after else none
  else some rest

def body? (bytes : Bytes) : Option Bytes :=
  match bytes with
  | 0x1f :: 0x8b :: 8 :: flags :: _ :: _ :: _ :: _ :: _ :: _ :: rest => do
    let flags ← flags? flags
    let rest ← skipExtra? flags.extra rest
    let rest ← skipText? flags.name rest
    let rest ← skipText? flags.comment rest
    skipChecksum? flags.headerChecksum bytes rest
  | _ => none

def decompress (bytes : Bytes) : Option Bytes := do
  let body ← body? bytes
  let (content, rest) ← Deflate.inflate body
  let (checksum, rest) ← rest.number? 4
  let (length, _) ← rest.number? 4
  if (crc32 content).toNat = checksum ∧ content.length % UInt32.size = length then some content else none

/-- A header without optional fields, for no known system. -/
def header : Bytes := [0x1f, 0x8b, 8, 0, 0, 0, 0, 0, 0, 0xff]

def trailer (raw : Bytes) : Bytes :=
  Bytes.littleEndian 4 (crc32 raw).toNat ++ Bytes.littleEndian 4 raw.length

def wrap (raw body : Bytes) : Bytes :=
  header ++ body ++ trailer raw

def compress (raw : Bytes) : Bytes :=
  readingBack decompress raw (wrap raw (Deflate.squeeze raw)) (wrap raw (Deflate.store raw))

theorem body?_wrap (raw body : Bytes) : body? (wrap raw body) = some (body ++ trailer raw) := by
  simp [body?, wrap, header, flags?, skipExtra?, skipText?, skipChecksum?]

theorem decompress_store (raw : Bytes) : decompress (wrap raw (Deflate.store raw)) = some raw := by
  have hc := Bytes.number?_append 4 (crc32 raw).toNat_lt (Bytes.littleEndian 4 raw.length)
  have hl := Bytes.number?_littleEndian 4 raw.length []
  rw [List.append_nil, Bytes.limit_four] at hl
  rw [decompress, body?_wrap]
  simp only [Option.bind_eq_bind, Option.bind_some, Deflate.inflate_store, trailer, hc, hl, and_self, if_true]

def codec : Codec where
  compress raw := some (compress raw)
  decompress := decompress
  decompress_compress h := by
    cases h
    exact decompress_readingBack (decompress_store _)

end WriteAhead.Gzip
