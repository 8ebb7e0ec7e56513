import Jani.Lib.Bytes
import Jani.Obj.ObjectId

/-!
# Object headers (`object_header.h`, `object_header_validate.zig`)

Every stored object starts with a 128-byte header, followed by its payload.  The header is read
and written as the little-endian image of `struct object_header`; `objectHeaderValidate` is the
check of the validator, and `objectCrc32c` the checksum both sides use.
-/

namespace Jani

/-! ### The checksum -/

/-- One step of the bit loop of `crc32c`. -/
def crc32cBit (crc : UInt32) : UInt32 :=
  if crc &&& 1 ≠ 0 then (crc >>> 1) ^^^ 0x82F63B78 else crc >>> 1

def crc32cByte (crc : UInt32) (byte : UInt8) : UInt32 :=
  Nat.repeat crc32cBit 8 (crc ^^^ byte.toUInt32)

def objectCrc32c (bytes : List UInt8) : UInt32 := ~~~(bytes.foldl crc32cByte 0xFFFFFFFF)

-- proofs never look into a checksum
attribute [irreducible] objectCrc32c

-- the check value of CRC-32C, on the bytes of "123456789"
example : objectCrc32c [49, 50, 51, 52, 53, 54, 55, 56, 57] = 0xE3069283 := by decide +kernel

/-! ### The header -/

def objectHeaderMagic : UInt64 := 0x4A414E495F4F424A

def objectHeaderFormatVersion : UInt32 := 1

def objectHeaderSize : Nat := 128

structure ObjectHeader where
  magic : UInt64
  formatVersion : UInt32
  referenceCount : UInt32
  id : ObjectId
  typeId : ObjectId
  version : UInt64
  payloadSize : UInt64
  payloadCrc32c : UInt32
  flags : UInt32
  creatorId : ObjectId
  modifierId : ObjectId
  logicalTimestamp : UInt64
  padding : UInt64
  reserved : UInt64
deriving DecidableEq, Repr

/-- The image of an identifier: the high word first. -/
def leId (id : ObjectId) : List UInt8 := le64 id.high ++ le64 id.low

def idAt (bytes : List UInt8) (off : Nat) : ObjectId := ⟨u64At bytes off, u64At bytes (off + 8)⟩

namespace ObjectHeader

def bytes (h : ObjectHeader) : List UInt8 :=
  le64 h.magic ++ (le32 h.formatVersion ++ (le32 h.referenceCount ++ (leId h.id ++
  (leId h.typeId ++ (le64 h.version ++ (le64 h.payloadSize ++ (le32 h.payloadCrc32c ++
  (le32 h.flags ++ (leId h.creatorId ++ (leId h.modifierId ++ (le64 h.logicalTimestamp ++
  (le64 h.padding ++ le64 h.reserved))))))))))))

def ofBytes (l : List UInt8) : ObjectHeader where
  magic := u64At l 0
  formatVersion := u32At l 8
  referenceCount := u32At l 12
  id := idAt l 16
  typeId := idAt l 32
  version := u64At l 48
  payloadSize := u64At l 56
  payloadCrc32c := u32At l 64
  flags := u32At l 68
  creatorId := idAt l 72
  modifierId := idAt l 88
  logicalTimestamp := u64At l 104
  padding := u64At l 112
  reserved := u64At l 120

end ObjectHeader

/-- `object_header_validate(bytes, byte_count)`, with `bytes` the whole buffer. -/
def objectHeaderValidate (bytes : List UInt8) : Bool :=
  if bytes.length < objectHeaderSize then false
  else if u64At bytes 0 ≠ objectHeaderMagic then false
  else if u32At bytes 8 ≠ objectHeaderFormatVersion then false
  else if objectIdIsZero (idAt bytes 16) then false
  else if objectIdIsZero (idAt bytes 32) then false
  else if u64At bytes 48 = 0 then false
  else
    let payloadSize := (u64At bytes 56).toNat
    if payloadSize > bytes.length - objectHeaderSize then false
    else if objectCrc32c ((bytes.drop objectHeaderSize).take payloadSize) ≠ u32At bytes 64 then
      false
    else if u32At bytes 68 ≠ 0 then false
    else if u64At bytes 112 ≠ 0 then false
    else if u64At bytes 120 ≠ 0 then false
    else true

end Jani
