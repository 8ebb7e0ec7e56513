import Jani.Obj.DiskFormat

/-!
# The sector bitmap (`object_store.c`)

One bit for every sector of the device, set while the sector is in use.  The bitmap functions of
the store read two of its fields, the number of sectors and the bitmap buffer, which are
arguments here.
-/

namespace Jani

/-- `bitmap_bytes_for` -/
def bitmapBytesFor (sectorCount : UInt64) : UInt64 := (sectorCount + 7) / 8

/-- The bit of a sector within its byte. -/
def bitmapMask (sector : UInt64) : UInt8 := 1 <<< (sector % 8).toUInt8

def bitmapTest (sectorCount : UInt64) (bitmap : List UInt8) (sector : UInt64) : Bool :=
  if sector ≥ sectorCount then true
  else bitmap.getD (sector / 8).toNat 0 &&& bitmapMask sector ≠ 0

def bitmapSet (sectorCount : UInt64) (bitmap : List UInt8) (sector : UInt64) : List UInt8 :=
  if sector ≥ sectorCount then bitmap
  else bitmap.modify (sector / 8).toNat (· ||| bitmapMask sector)

def bitmapClear (sectorCount : UInt64) (bitmap : List UInt8) (sector : UInt64) : List UInt8 :=
  if sector ≥ sectorCount then bitmap
  else bitmap.modify (sector / 8).toNat (· &&& ~~~(bitmapMask sector))

/-- The loop of `bitmap_set_range` and `bitmap_clear_range`, with the sectors left to do. -/
def bitmapRange (f : List UInt8 → UInt64 → List UInt8) : Nat → List UInt8 → UInt64 → List UInt8
  | 0, bitmap, _ => bitmap
  | count + 1, bitmap, sector => bitmapRange f count (f bitmap sector) (sector + 1)

def bitmapSetRange (sectorCount : UInt64) (bitmap : List UInt8) (firstSector count : UInt64) :
    List UInt8 :=
  bitmapRange (bitmapSet sectorCount) count.toNat bitmap firstSector

def bitmapClearRange (sectorCount : UInt64) (bitmap : List UInt8) (firstSector count : UInt64) :
    List UInt8 :=
  bitmapRange (bitmapClear sectorCount) count.toNat bitmap firstSector

/-- The search loop of `bitmap_allocate`: `run` sectors before `sector` are free.  The first
argument is the number of sectors left to look at. -/
def bitmapFindRun (sectorCount : UInt64) (bitmap : List UInt8) (count : UInt64) :
    Nat → UInt64 → UInt64 → Option UInt64
  | 0, _, _ => none
  | fuel + 1, sector, run =>
    if sector < sectorCount then
      if bitmapTest sectorCount bitmap sector then
        bitmapFindRun sectorCount bitmap count fuel (sector + 1) 0
      else if run + 1 = count then some (sector - count + 1)
      else bitmapFindRun sectorCount bitmap count fuel (sector + 1) (run + 1)
    else none

/-- The first sector of the run and the bitmap with the run marked. -/
def bitmapAllocate (sectorCount : UInt64) (bitmap : List UInt8) (count : UInt64) :
    Option (UInt64 × List UInt8) :=
  if count = 0 ∨ count > sectorCount then none
  else
    match bitmapFindRun sectorCount bitmap count sectorCount.toNat
        objectStoreFirstAllocatableSector 0 with
    | none => none
    | some firstSector =>
      some (firstSector, bitmapSetRange sectorCount bitmap firstSector count)

end Jani
