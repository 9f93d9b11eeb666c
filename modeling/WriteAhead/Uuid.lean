import WriteAhead.Bytes

/-!
Block identifiers of 128 bits and their text forms. Main statement: the hyphenated lowercase form
is read back.
-/

namespace WriteAhead

/-- The 32 hexadecimal digits of an identifier, highest first. -/
structure Uuid where
  digits : List (Fin 16)
  length_digits : digits.length = 32
  deriving DecidableEq

namespace Uuid

def zero : Uuid := ⟨List.replicate 32 0, rfl⟩

def digitChar (d : Fin 16) : Char := Bytes.hexDigit d

def digit? (c : Char) : Option (Fin 16) :=
  (List.finRange 16).find? fun d => digitChar d == c || (digitChar d).toUpper == c

/-- Lowercase digits in groups of 8, 4, 4, 4 and 12, joined by hyphens. -/
def chars (u : Uuid) : List Char :=
  let cs := u.digits.map digitChar
  cs.take 8 ++ '-' :: (cs.drop 8).take 4 ++ '-' :: (cs.drop 12).take 4 ++ '-' :: (cs.drop 16).take 4 ++
    '-' :: cs.drop 20

def ofDigits? (cs : List Char) : Option Uuid := do
  let ds ← cs.mapM digit?
  if h : ds.length = 32 then some ⟨ds, h⟩ else none

/-- Takes out the hyphens that stand after 8, 12, 16 and 20 digits. -/
def joinGroups? (cs : List Char) : Option (List Char) :=
  if cs.length = 36 ∧ cs[8]? = some '-' ∧ cs[13]? = some '-' ∧ cs[18]? = some '-' ∧ cs[23]? = some '-' then
    some (cs.take 8 ++ (cs.drop 9).take 4 ++ (cs.drop 14).take 4 ++ (cs.drop 19).take 4 ++ cs.drop 24)
  else
    none

def ofHyphenated? (cs : List Char) : Option Uuid :=
  joinGroups? cs >>= ofDigits?

/-- Reads 32 digits; the hyphenated form, bare, in braces or behind `urn:uuid:`; digits and the
urn's letters may be of either case. -/
def ofChars? (cs : List Char) : Option Uuid :=
  if cs.length = 32 then ofDigits? cs
  else if cs.length = 36 then ofHyphenated? cs
  else if cs.length = 38 ∧ cs.head? = some '\x7b' ∧ cs.getLast? = some '\x7d' then
    ofHyphenated? (cs.tail.take 36)
  else if cs.length = 45 ∧ (cs.take 9).map Char.toLower = "urn:uuid:".toList then
    ofHyphenated? (cs.drop 9)
  else none

def toText (u : Uuid) : String := String.ofList u.chars

end Uuid

end WriteAhead
