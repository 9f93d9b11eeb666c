import WriteAhead.Bytes

/-!
What compresses the payload of a page. A codec carries the proof that its output reads back.
-/

namespace WriteAhead

structure Codec where
  /-- May fail, as for what is too long. -/
  compress : Bytes → Option Bytes
  decompress : Bytes → Option Bytes
  decompress_compress {raw packed : Bytes} : compress raw = some packed → decompress packed = some raw

def Codec.plain : Codec where
  compress := some
  decompress := some
  decompress_compress h := h.symm

end WriteAhead
