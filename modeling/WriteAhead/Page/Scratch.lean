import WriteAhead.Page.Writer

/-!
Putting every page together in the same buffer. Main statement: what an earlier page left in the buffer does not get
into a later one (`append_eq`).
-/

namespace WriteAhead

/-- Adds the fields of a header, one after the other, to what a buffer holds. -/
def Page.Header.writeTo (h : Header) (buffer : Bytes) : Bytes :=
  let buffer := buffer ++ ofWord magic
  let buffer := buffer ++ ofWord h.crc
  let buffer := buffer ++ [h.encoding.tag]
  let buffer := buffer ++ [0, 0, 0]
  let buffer := buffer ++ ofWord h.diskSize
  buffer ++ ofWord h.bodySize

theorem Page.Header.writeTo_eq (h : Header) (buffer : Bytes) : h.writeTo buffer = buffer ++ h.toBytes := by
  simp only [writeTo, toBytes, laidOut, List.append_assoc]

/-- A writer with the buffer in which it puts its pages together. -/
structure ScratchWriter extends Writer where
  scratch : Bytes := []

namespace ScratchWriter

/-- Empties the buffer, but for the memory that it takes up. -/
def clear (w : ScratchWriter) : ScratchWriter := { w with scratch := w.scratch.take 0 }

def assemble (w : ScratchWriter) (header : Page.Header) (payload : Bytes) : ScratchWriter :=
  { w with scratch := header.writeTo w.scratch ++ payload }

variable {σ : Type} [Sink σ] [Codecs]

/-- Writes one object, as `Writer.append` does, by way of the buffer. -/
def append (w : ScratchWriter) (id object : Bytes) (s : σ) : Except Error Record × ScratchWriter × σ :=
  if w.poisoned then (.error (.corruption .writerUnusable), w, s)
  else match Page.build w.encoding id object with
    | .error e => (.error e, w, s)
    | .ok (header, payload) =>
      let w := w.clear.assemble header payload
      match Writer.commit w.sync w.scratch s with
      | (true, s) =>
        (.ok ⟨id, w.size, UInt32.ofNat header.pageLength⟩, { w with size := w.size + header.pageLength }, s)
      | (false, s) =>
        match Sink.truncate w.size s with
        | (true, s) => (.error .io, w, s)
        | (false, s) => (.error .io, { w with poisoned := true }, s)

omit [Codecs] in
theorem assemble_clear (w : ScratchWriter) (header : Page.Header) (payload : Bytes) :
    w.clear.assemble header payload = ⟨w.toWriter, header.toBytes ++ payload⟩ := by
  rw [assemble, Page.Header.writeTo_eq, clear, List.take_zero, List.nil_append]

/-- Whatever the buffer holds, it has no influence on anything but itself. -/
theorem append_eq (w : ScratchWriter) (id object : Bytes) (s : σ) :
    ∃ scratch, w.append id object s =
      ((w.toWriter.append id object s).1, ⟨(w.toWriter.append id object s).2.1, scratch⟩,
        (w.toWriter.append id object s).2.2) := by
  unfold append Writer.append
  by_cases hp : w.poisoned
  · rw [if_pos hp, if_pos hp]
    exact ⟨w.scratch, rfl⟩
  rw [if_neg hp, if_neg hp]
  cases Page.build w.encoding id object with
  | error fault => exact ⟨w.scratch, rfl⟩
  | ok page =>
    obtain ⟨header, payload⟩ := page
    refine ⟨header.toBytes ++ payload, ?_⟩
    dsimp only
    rw [assemble_clear]
    dsimp only
    generalize Writer.commit w.sync (header.toBytes ++ payload) s = result
    obtain ⟨committed, s₁⟩ := result
    cases committed with
    | true => rfl
    | false =>
      dsimp only
      generalize Sink.truncate w.size s₁ = result
      obtain ⟨succeeds, s₂⟩ := result
      cases succeeds <;> rfl

end ScratchWriter

end WriteAhead
