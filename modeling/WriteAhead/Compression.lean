import WriteAhead.Compression.Gzip
import WriteAhead.Compression.Lz4.Writer
import WriteAhead.Compression.Snappy
import WriteAhead.Compression.Zstd.Writer
import WriteAhead.Encoding

/-!
Compressing and decompressing under each encoding. The methods behind the encodings are a parameter,
of which nothing is used but that what they compress reads back; those of this library are an instance.
-/

namespace WriteAhead

/-- The methods of compression that the encodings choose from. -/
class Codecs where
  gzip : Codec
  lz4 : Lz4.BlockSize → Codec
  snappy : Codec
  zstd : Codec

instance : Codecs where
  gzip := Gzip.codec
  lz4 := Lz4.codec
  snappy := Snappy.codec
  zstd := Zstd.codec

namespace Encoding

variable [Codecs]

def codec : Encoding → Codec
  | none => .plain
  | gzip => Codecs.gzip
  | lz4Max64Kb => Codecs.lz4 .max64Kb
  | lz4Max256Kb => Codecs.lz4 .max256Kb
  | lz4Max1Mb => Codecs.lz4 .max1Mb
  | lz4 => Codecs.lz4 .max4Mb
  | snappy => Codecs.snappy
  | zstd => Codecs.zstd

def compress (e : Encoding) (raw : Bytes) : Option Bytes := e.codec.compress raw

def decompress (e : Encoding) (packed : Bytes) : Option Bytes := e.codec.decompress packed

theorem decompress_compress {e : Encoding} {raw packed : Bytes} (h : e.compress raw = some packed) :
    e.decompress packed = some raw :=
  e.codec.decompress_compress h

end Encoding

end WriteAhead
