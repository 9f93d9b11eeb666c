import WriteAhead.Compression
import WriteAhead.Page.Reader
import WriteAhead.Sink

/-!
Writing pages: each object becomes one page, handed to a sink as a whole, and what a failed attempt
left there is cut off again.
-/

namespace WriteAhead

/-- When a sink is asked to make sure of what was written. -/
inductive SyncMode
  | strict
  | async
  deriving DecidableEq

namespace Page

def build [Codecs] (e : Encoding) (id object : Bytes) : Except Error (Header × Bytes) := do
  let body ← Body.encode id object
  let bodySize ← checkedLength body.length "Object"
  match e.compress body with
  | none => throw .io
  | some payload =>
    let diskSize ← checkedLength payload.length "Compressed object"
    let header : Header := ⟨checksum e bodySize payload, e, diskSize, bodySize⟩
    let _ ← checkedLength header.pageLength "Page"
    return (header, payload)

end Page

structure Writer where
  encoding : Encoding
  sync : SyncMode
  size : Nat
  /-- Set when a failed attempt could not be cut off: then the end of the sink is unknown. -/
  poisoned : Bool := false

namespace Writer

variable {σ : Type} [Sink σ]

/-- Hands a page over; stops at the first call that fails. -/
def commit (mode : SyncMode) (page : Bytes) (s : σ) : Bool × σ :=
  match Sink.writeAll page s with
  | (false, s) => (false, s)
  | (true, s) =>
    match Sink.flush s with
    | (false, s) => (false, s)
    | (true, s) =>
      match mode with
      | .strict => Sink.sync s
      | .async => (true, s)

/-- Writes one object. After an error nothing of its page is left, or the writer is poisoned. -/
def append [Codecs] (w : Writer) (id object : Bytes) (s : σ) : Except Error Record × Writer × σ :=
  if w.poisoned then (.error (.corruption .writerUnusable), w, s)
  else match Page.build w.encoding id object with
    | .error e => (.error e, w, s)
    | .ok (header, payload) =>
      match commit w.sync (header.toBytes ++ payload) s with
      | (true, s) =>
        (.ok ⟨id, w.size, UInt32.ofNat header.pageLength⟩, { w with size := w.size + header.pageLength }, s)
      | (false, s) =>
        match Sink.truncate w.size s with
        | (true, s) => (.error .io, w, s)
        | (false, s) => (.error .io, { w with poisoned := true }, s)

end Writer

end WriteAhead
