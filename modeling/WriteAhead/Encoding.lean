/-!
The page encodings, with the keyword that names one in a filename and the tag that names it in a
page. Main statements: keywords and tags are read back, and nothing else is read.
-/

namespace WriteAhead

inductive Encoding
  | none
  | gzip
  | lz4Max64Kb
  | lz4Max256Kb
  | lz4Max1Mb
  /-- Frames with blocks of four megabytes. -/
  | lz4
  | snappy
  | zstd
  deriving DecidableEq, Repr, Inhabited

namespace Encoding

def all : List Encoding :=
  [none, gzip, lz4Max64Kb, lz4Max256Kb, lz4Max1Mb, lz4, snappy, zstd]

def keyword : Encoding → String
  | none => "none"
  | gzip => "gzip"
  | lz4Max64Kb => "lz4-64k"
  | lz4Max256Kb => "lz4-256k"
  | lz4Max1Mb => "lz4-1M"
  | lz4 => "lz4"
  | snappy => "snappy"
  | zstd => "zstd"

def tag : Encoding → UInt8
  | none => 0
  | gzip => 1
  | lz4Max64Kb => 2
  | lz4Max256Kb => 3
  | lz4Max1Mb => 4
  | lz4 => 5
  | snappy => 6
  | zstd => 7

def ofKeyword? (s : String) : Option Encoding :=
  all.find? (·.keyword == s)

def ofTag? (t : UInt8) : Option Encoding :=
  all.find? (·.tag == t)

theorem ofKeyword?_eq_some_iff {s : String} {e : Encoding} : ofKeyword? s = some e ↔ e.keyword = s := by
  constructor
  · intro h
    simpa using List.find?_some h
  · rintro rfl
    cases e <;> decide

theorem ofTag?_eq_some_iff {t : UInt8} {e : Encoding} : ofTag? t = some e ↔ e.tag = t := by
  constructor
  · intro h
    simpa using List.find?_some h
  · rintro rfl
    cases e <;> decide

theorem ofTag?_eq_none_iff {t : UInt8} : ofTag? t = Option.none ↔ ∀ e : Encoding, e.tag ≠ t := by
  simp only [Option.eq_none_iff_forall_ne_some, ne_eq, ofTag?_eq_some_iff]

end Encoding

end WriteAhead
