import WriteAhead.Uuid

/-!
What is worth a line in a log.
-/

namespace WriteAhead

inductive Level
  | info
  | warn
  deriving DecidableEq

def Level.toText : Level → String
  | info => "INFO"
  | warn => "WARN"

inductive Event
  | removedCompleted
  | beginningReplay (file : String)
  | replayComplete (file : String) (records : Nat)
  | damagedTail (file : String) (records : Nat)
  | emptyFile (file : String)
  | unreadable (file : String)
  | unusable (file : String)
  | notRemoved
  | rollbackFailed
  | outsideSlack (tenant : String) (block : Uuid)
  deriving DecidableEq

namespace Event

def level : Event → Level
  | removedCompleted | beginningReplay _ | replayComplete .. => .info
  | _ => .warn

def message : Event → String
  | removedCompleted => "Removed completed staging directory"
  | beginningReplay _ => "Beginning replay"
  | replayComplete .. => "Replay complete"
  | damagedTail .. => "Damaged tail while replaying block. Partial replay likely."
  | emptyFile _ => "Empty WAL file. Removing."
  | unreadable _ => "Unable to read block. Skipping."
  | unusable _ => "Failed to replay block. Removing."
  | notRemoved => "Failed to remove block file"
  | rollbackFailed => "Failed to roll back partial page"
  | outsideSlack .. => "Time range outside ingestion slack, reset to now"

def file? : Event → Option String
  | beginningReplay file | replayComplete file _ | damagedTail file _ => some file
  | emptyFile file | unreadable file | unusable file => some file
  | _ => none

def records? : Event → Option Nat
  | replayComplete _ records | damagedTail _ records => some records
  | _ => none

def block? : Event → Option (String × Uuid)
  | outsideSlack tenant block => some (tenant, block)
  | _ => none

end Event

end WriteAhead
