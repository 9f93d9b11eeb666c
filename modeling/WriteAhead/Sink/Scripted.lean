import WriteAhead.Sink

/-!
A sink in memory whose coming calls turn out as listed, one after the other; after that they
succeed in full. Any finite course of events can be written down in this way.
-/

namespace WriteAhead

structure ScriptedSink where
  content : Bytes
  writes : List WriteResult := []
  flushes : List Bool := []
  syncs : List Bool := []
  truncates : List Bool := []
  /-- The calls so far, latest first. -/
  calls : List SinkCall := []

namespace ScriptedSink

variable (s : ScriptedSink)

/-- A call never takes more than it is given. -/
def write (bytes : Bytes) : WriteResult × ScriptedSink :=
  let calls := .write bytes.length :: s.calls
  match s.writes with
  | [] => (.took bytes.length, { s with content := s.content ++ bytes, calls })
  | .took n :: writes =>
    (.took (min n bytes.length), { s with content := s.content ++ bytes.take n, writes, calls })
  | r :: writes => (r, { s with writes, calls })

def flush : Bool × ScriptedSink :=
  (s.flushes.headD true, { s with flushes := s.flushes.tail, calls := .flush :: s.calls })

def sync : Bool × ScriptedSink :=
  (s.syncs.headD true, { s with syncs := s.syncs.tail, calls := .sync :: s.calls })

/-- Shorter content is filled up to the length. -/
def truncate (length : Nat) : Bool × ScriptedSink :=
  let succeeds := s.truncates.headD true
  (succeeds, { s with
    content := if succeeds then s.content.resize length else s.content
    truncates := s.truncates.tail
    calls := .truncate length :: s.calls })

theorem length_writes_write (bytes : Bytes) : (s.write bytes).2.writes.length ≤ s.writes.length := by
  unfold write
  split <;> simp_all

theorem length_writes_interrupted (bytes : Bytes) (h : (s.write bytes).1 = .interrupted) :
    (s.write bytes).2.writes.length < s.writes.length := by
  unfold write at *
  split <;> simp_all

end ScriptedSink

instance : Sink ScriptedSink where
  write bytes s := s.write bytes
  flush := ScriptedSink.flush
  sync := ScriptedSink.sync
  truncate length s := s.truncate length
  patience s := s.writes.length
  patience_interrupted bytes s := s.length_writes_interrupted bytes
  patience_took bytes s _ _ := s.length_writes_write bytes

end WriteAhead
