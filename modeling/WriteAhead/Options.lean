import WriteAhead.Disk
import WriteAhead.Duration
import WriteAhead.Page.Writer

/-!
The settings of a log and their defaults.
-/

namespace WriteAhead

structure Options where
  root : Path
  encoding : Encoding := .snappy
  /-- How far from now the times given for an object may lie. -/
  slack : Duration := .ofSeconds 120
  readBuffer : Nat := 128 * 1024
  sync : SyncMode := .async

def Options.default : Options where root := [".", "wal_data"]

end WriteAhead
