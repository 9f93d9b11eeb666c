import WriteAhead.Bytes

/-!
The xxHash checksums of 32 and of 64 bits, with seed 0: four lanes take the whole stripes, and what
is left over is mixed in word by word and byte by byte.
-/

namespace WriteAhead.XxHash32

def prime1 : UInt32 := 0x9E3779B1
def prime2 : UInt32 := 0x85EBCA77
def prime3 : UInt32 := 0xC2B2AE3D
def prime4 : UInt32 := 0x27D4EB2F
def prime5 : UInt32 := 0x165667B1

def rotate (x k : UInt32) : UInt32 :=
  (x <<< k) ||| (x >>> (32 - k))

def word (a b c d : UInt8) : UInt32 :=
  a.toUInt32 ||| (b.toUInt32 <<< 8) ||| (c.toUInt32 <<< 16) ||| (d.toUInt32 <<< 24)

def round (lane input : UInt32) : UInt32 :=
  rotate (lane + input * prime2) 13 * prime1

structure Lanes where
  a : UInt32
  b : UInt32
  c : UInt32
  d : UInt32

def Lanes.start : Lanes := ⟨prime1 + prime2, prime2, 0, 0 - prime1⟩

def Lanes.merge (l : Lanes) : UInt32 :=
  rotate l.a 1 + rotate l.b 7 + rotate l.c 12 + rotate l.d 18

/-- Takes all stripes of sixteen bytes; what is left is shorter than one. -/
def stripes (l : Lanes) : Bytes → Lanes × Bytes
  | a0 :: a1 :: a2 :: a3 :: b0 :: b1 :: b2 :: b3 :: c0 :: c1 :: c2 :: c3 :: d0 :: d1 :: d2 :: d3 :: rest =>
    stripes ⟨round l.a (word a0 a1 a2 a3), round l.b (word b0 b1 b2 b3),
      round l.c (word c0 c1 c2 c3), round l.d (word d0 d1 d2 d3)⟩ rest
  | rest => (l, rest)

def finish (h : UInt32) : Bytes → UInt32
  | a :: b :: c :: d :: rest => finish (rotate (h + word a b c d * prime3) 17 * prime4) rest
  | b :: rest => finish (rotate (h + b.toUInt32 * prime5) 11 * prime1) rest
  | [] =>
    let h := (h ^^^ (h >>> 15)) * prime2
    let h := (h ^^^ (h >>> 13)) * prime3
    h ^^^ (h >>> 16)

end WriteAhead.XxHash32

namespace WriteAhead.XxHash64

def prime1 : UInt64 := 0x9E3779B185EBCA87
def prime2 : UInt64 := 0xC2B2AE3D27D4EB4F
def prime3 : UInt64 := 0x165667B19E3779F9
def prime4 : UInt64 := 0x85EBCA77C2B2AE63
def prime5 : UInt64 := 0x27D4EB2F165667C5

def rotate (x k : UInt64) : UInt64 :=
  (x <<< k) ||| (x >>> (64 - k))

def word (a b c d e f g h : UInt8) : UInt64 :=
  (XxHash32.word a b c d).toUInt64 ||| ((XxHash32.word e f g h).toUInt64 <<< 32)

def round (lane input : UInt64) : UInt64 :=
  rotate (lane + input * prime2) 31 * prime1

structure Lanes where
  a : UInt64
  b : UInt64
  c : UInt64
  d : UInt64

def Lanes.start : Lanes := ⟨prime1 + prime2, prime2, 0, 0 - prime1⟩

def mergeLane (h lane : UInt64) : UInt64 :=
  (h ^^^ round 0 lane) * prime1 + prime4

def Lanes.merge (l : Lanes) : UInt64 :=
  let h := rotate l.a 1 + rotate l.b 7 + rotate l.c 12 + rotate l.d 18
  mergeLane (mergeLane (mergeLane (mergeLane h l.a) l.b) l.c) l.d

/-- Takes all stripes of thirty-two bytes; what is left is shorter than one. -/
def stripes (l : Lanes) : Bytes → Lanes × Bytes
  | a0 :: a1 :: a2 :: a3 :: a4 :: a5 :: a6 :: a7 :: b0 :: b1 :: b2 :: b3 :: b4 :: b5 :: b6 :: b7 ::
      c0 :: c1 :: c2 :: c3 :: c4 :: c5 :: c6 :: c7 :: d0 :: d1 :: d2 :: d3 :: d4 :: d5 :: d6 :: d7 :: rest =>
    stripes ⟨round l.a (word a0 a1 a2 a3 a4 a5 a6 a7), round l.b (word b0 b1 b2 b3 b4 b5 b6 b7),
      round l.c (word c0 c1 c2 c3 c4 c5 c6 c7), round l.d (word d0 d1 d2 d3 d4 d5 d6 d7)⟩ rest
  | rest => (l, rest)

def finish (h : UInt64) : Bytes → UInt64
  | a :: b :: c :: d :: e :: f :: g :: i :: rest =>
    finish (rotate (h ^^^ round 0 (word a b c d e f g i)) 27 * prime1 + prime4) rest
  | a :: b :: c :: d :: rest =>
    finish (rotate (h ^^^ ((XxHash32.word a b c d).toUInt64 * prime1)) 23 * prime2 + prime3) rest
  | b :: rest => finish (rotate (h ^^^ (b.toUInt64 * prime5)) 11 * prime1) rest
  | [] =>
    let h := (h ^^^ (h >>> 33)) * prime2
    let h := (h ^^^ (h >>> 29)) * prime3
    h ^^^ (h >>> 32)

end WriteAhead.XxHash64

namespace WriteAhead

def xxHash32 (bytes : Bytes) : UInt32 :=
  let (lanes, rest) := XxHash32.stripes .start bytes
  let h := if bytes.length < 16 then XxHash32.prime5 else lanes.merge
  XxHash32.finish (h + UInt32.ofNat bytes.length) rest

def xxHash64 (bytes : Bytes) : UInt64 :=
  let (lanes, rest) := XxHash64.stripes .start bytes
  let h := if bytes.length < 32 then XxHash64.prime5 else lanes.merge
  XxHash64.finish (h + UInt64.ofNat bytes.length) rest

end WriteAhead
