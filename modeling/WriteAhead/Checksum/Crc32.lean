import WriteAhead.Bytes

/-!
The reflected CRC-32 with polynomial 0xEDB88320, as a fold of one step per byte. Main statement:
the register after a concatenation is that of the second part run from that of the first
(`run_append`).
-/

namespace WriteAhead.Crc32

/-- Divides out one bit. -/
def shift (register : UInt32) : UInt32 :=
  if register &&& 1 = 1 then (register >>> 1) ^^^ 0xEDB88320 else register >>> 1

def step (register : UInt32) (b : UInt8) : UInt32 :=
  shift (shift (shift (shift (shift (shift (shift (shift (register ^^^ b.toUInt32))))))))

def run (register : UInt32) (bytes : Bytes) : UInt32 :=
  bytes.foldl step register

theorem run_append (register : UInt32) (a b : Bytes) : run register (a ++ b) = run (run register a) b :=
  List.foldl_append

end WriteAhead.Crc32

namespace WriteAhead

def crc32 (bytes : Bytes) : UInt32 :=
  Crc32.run 0xFFFFFFFF bytes ^^^ 0xFFFFFFFF

end WriteAhead
