import RecordFlow.Text.Utf8

/-!
# CRC-32

The checksum of gzip members: the remainder of the bytes, least bit first, modulo the polynomial
with the bits `0xEDB88320`.
-/
namespace RecordFlow.Crc32

def shift (r : UInt32) : UInt32 := if r &&& 1 = 1 then (r >>> 1) ^^^ 0xEDB88320 else r >>> 1

def step (r : UInt32) (b : UInt8) : UInt32 :=
  shift (shift (shift (shift (shift (shift (shift (shift (r ^^^ b.toUInt32))))))))

def checksum (s : Bytes) : UInt32 := s.foldl step 0xFFFFFFFF ^^^ 0xFFFFFFFF

end RecordFlow.Crc32
