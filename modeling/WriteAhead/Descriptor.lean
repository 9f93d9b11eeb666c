import WriteAhead.Error
import WriteAhead.Text.Fields
import WriteAhead.Uuid

/-!
What identifies a block, and the filename that is its only record.
-/

namespace WriteAhead

/-- The version of the page layout, as it stands in every filename. -/
def version : String := "v2"

structure Descriptor where
  id : Uuid
  tenant : String
  encoding : Encoding
  dataEncoding : String
  deriving DecidableEq

namespace Descriptor

/-- Whether `s` can stand between the separators of a filename. -/
def Writable (s : String) : Prop :=
  ':' ∉ s.toList ∧ '/' ∉ s.toList

instance (s : String) : Decidable (Writable s) := inferInstanceAs (Decidable (_ ∧ _))

/-- Refuses fields that a filename could not hold. -/
def create (id : Uuid) (tenant : String) (encoding : Encoding) (dataEncoding : String) :
    Except Error Descriptor :=
  if tenant = "" then .error (.config .emptyTenant)
  else if ¬ Writable tenant then .error (.config (.unwritableField "Tenant" tenant))
  else if ¬ Writable dataEncoding then .error (.config (.unwritableField "Data encoding" dataEncoding))
  else .ok ⟨id, tenant, encoding, dataEncoding⟩

/-- The fields of the filename; the data encoding has none if it is empty. -/
def fields (d : Descriptor) : List (List Char) :=
  [d.id.chars, d.tenant.toList, version.toList, d.encoding.keyword.toList] ++
    if d.dataEncoding = "" then [] else [d.dataEncoding.toList]

def filename (d : Descriptor) : String :=
  String.ofList (Fields.join ':' d.fields)

/-- Reads the fields of a filename; the first fault from the left is reported. -/
def ofFields (id tenant ver keyword dataEncoding : List Char) : Except NameFault Descriptor :=
  match Uuid.ofChars? id with
  | none => .error .badId
  | some id =>
    if tenant = [] then .error .noTenant
    else if ver ≠ version.toList then .error (.badVersion (String.ofList ver))
    else match Encoding.ofKeyword? (String.ofList keyword) with
      | none => .error (.unknownEncoding (String.ofList keyword))
      | some encoding => .ok ⟨id, String.ofList tenant, encoding, String.ofList dataEncoding⟩

def ofChars (cs : List Char) : Except NameFault Descriptor :=
  if '/' ∈ cs then .error .separator
  else match Fields.split ':' cs with
    | [id, tenant, ver, keyword] => ofFields id tenant ver keyword []
    | [id, tenant, ver, keyword, dataEncoding] => ofFields id tenant ver keyword dataEncoding
    | fields => .error (.fieldCount fields.length)

def parse (filename : String) : Except Error Descriptor :=
  (ofChars filename.toList).mapError (.invalidFilename filename)

end Descriptor

end WriteAhead
