import WriteAhead.Sink

/-!
A sink in memory that can run full, takes only so much per call, and can be made to fail.
-/

namespace WriteAhead

structure LimitedSink where
  content : Bytes
  chunk : Option Nat := none
  budget : Option Nat := none
  /-- Whether a call that can take nothing says so instead of failing. -/
  endsQuietly : Bool := false
  /-- So many write calls to come are interrupted. -/
  interrupts : Nat := 0
  flushFails : Bool := false
  syncFails : Bool := false
  truncateFails : Bool := false
  /-- The calls so far, latest first. -/
  calls : List SinkCall := []

namespace LimitedSink

variable (s : LimitedSink)

def accepted (length : Nat) : Nat :=
  min length (min (s.chunk.getD length) (s.budget.getD length))

def write (bytes : Bytes) : WriteResult × LimitedSink :=
  let calls := .write bytes.length :: s.calls
  let n := s.accepted bytes.length
  if 0 < s.interrupts then (.interrupted, { s with interrupts := s.interrupts - 1, calls })
  else if n = 0 then (if s.endsQuietly then .took 0 else .failed, { s with calls })
  else (.took n, { s with content := s.content ++ bytes.take n, budget := s.budget.map (· - n), calls })

def flush : Bool × LimitedSink :=
  (!s.flushFails, { s with calls := .flush :: s.calls })

def sync : Bool × LimitedSink :=
  (!s.syncFails, { s with calls := .sync :: s.calls })

def truncate (length : Nat) : Bool × LimitedSink :=
  (!s.truncateFails, { s with
    content := if s.truncateFails then s.content else s.content.take length
    calls := .truncate length :: s.calls })

theorem interrupts_write (bytes : Bytes) : (s.write bytes).2.interrupts ≤ s.interrupts := by
  simp only [write]
  split
  · simp
  · split <;> simp

theorem interrupts_interrupted (bytes : Bytes) (h : (s.write bytes).1 = .interrupted) :
    (s.write bytes).2.interrupts < s.interrupts := by
  simp only [write] at *
  split at h
  · next hi =>
    simp only [hi, if_true]
    omega
  · split at h
    · split at h <;> simp at h
    · simp at h

end LimitedSink

instance : Sink LimitedSink where
  write bytes s := s.write bytes
  flush := LimitedSink.flush
  sync := LimitedSink.sync
  truncate length s := s.truncate length
  patience s := s.interrupts
  patience_interrupted bytes s := s.interrupts_interrupted bytes
  patience_took bytes s _ _ := s.interrupts_write bytes

end WriteAhead
