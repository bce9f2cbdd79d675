import TensorCache.Wire

/-!
# CRC-32C

The reflected, table-driven checksum.
-/

namespace TensorCache

open Codec

def crcPoly : UInt32 := 0x82F63B78

/-- One shift-and-xor step of the reflected polynomial division. -/
def crcShift (crc : UInt32) : UInt32 :=
  if crc &&& 1 ≠ 0 then (crc >>> 1) ^^^ crcPoly else crc >>> 1

/-- The inner loop of `build_table`: eight shifts. -/
def crcTableEntry (i : UInt32) : UInt32 := crcShift^[8] i

def crcTable : List UInt32 := (List.range 256).map fun i => crcTableEntry (UInt32.ofNat i)

def crcByte (crc : UInt32) (b : UInt8) : UInt32 :=
  crcTable.getD ((crc ^^^ b.toUInt32) &&& 0x00FF).toNat 0 ^^^ (crc >>> 8)

/-- Continue a CRC-32C computation, combining a prior CRC with new bytes. -/
def crc32cContinue (prior : UInt32) (data : Bytes) : UInt32 :=
  data.foldl crcByte (prior ^^^ 0xFFFFFFFF) ^^^ 0xFFFFFFFF

def crc32c (data : Bytes) : UInt32 := crc32cContinue 0 data

/-- The canonical check value, for the string `123456789`. -/
example : crc32c [0x31, 0x32, 0x33, 0x34, 0x35, 0x36, 0x37, 0x38, 0x39] = 0xE3069283 := by
  decide +kernel

end TensorCache
