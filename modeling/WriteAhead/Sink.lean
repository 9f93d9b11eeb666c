import WriteAhead.Bytes

/-!
Where pages are written to, and how such a destination may fail. A write call may take only a part
of what it is given, so writing everything takes several; main statement: this comes to an end,
because only so many calls in a row can be interrupted.
-/

namespace WriteAhead

inductive WriteResult
  /-- So many bytes from the front were taken. -/
  | took (n : Nat)
  | interrupted
  | failed
  deriving DecidableEq

/-- The calls that a sink has had. -/
inductive SinkCall
  | write (length : Nat)
  | flush
  | sync
  | truncate (length : Nat)
  deriving DecidableEq

/-- A destination of bytes. The truth values say whether a call succeeded. -/
class Sink (σ : Type) where
  write : Bytes → σ → WriteResult × σ
  flush : σ → Bool × σ
  /-- Waits until what was written is safe. -/
  sync : σ → Bool × σ
  truncate : Nat → σ → Bool × σ
  /-- How many write calls can still be interrupted. -/
  patience : σ → Nat
  patience_interrupted : ∀ bytes s, (write bytes s).1 = .interrupted → patience (write bytes s).2 < patience s
  patience_took : ∀ bytes s n, (write bytes s).1 = .took n → patience (write bytes s).2 ≤ patience s

namespace Sink

variable {σ : Type} [Sink σ]

/-- Writes all of `bytes`, going on after a partial or interrupted call; a call that takes nothing
is a failure. -/
def writeAll (bytes : Bytes) (s : σ) : Bool × σ :=
  match bytes with
  | [] => (true, s)
  | b :: rest =>
    match h : write (b :: rest) s with
    | (.failed, s') => (false, s')
    | (.interrupted, s') =>
      have := patience_interrupted (b :: rest) s (by rw [h])
      writeAll (b :: rest) s'
    | (.took 0, s') => (false, s')
    | (.took (n + 1), s') =>
      have := patience_took (b :: rest) s (n + 1) (by rw [h])
      writeAll (rest.drop n) s'
termination_by patience s + bytes.length
decreasing_by
  · simp_all
  · simp_all
    omega

end Sink

end WriteAhead
