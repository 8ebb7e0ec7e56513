import Jani.Lib.RadixTree

/-!
# Page tables (`vmm.c`, `mmio.c`)

The four levels of page tables lie in physical memory and are reached through the direct map, at
`hhdmOffset` above their physical address.  A table is known by that pointer, and `memory` gives its
512 entries.

The frames that `pmm_alloc_frame` hands out during a call are an argument of the call, in order;
zero is a refusal, and so is the end of the list.  What `vmm_init` finds out from the boot loader is
the state that the model starts from.
-/

namespace Jani

def vmmPagePresent : UInt64 := 1

def vmmPageWritable : UInt64 := 2

def vmmPageUser : UInt64 := 4

def vmmPageWriteThrough : UInt64 := 8

def vmmPageCacheDisable : UInt64 := 16

def vmmPageNoExecute : UInt64 := 0x8000000000000000

def pageAddressMask : UInt64 := 0x000FFFFFFFFFF000

def pageOffsetMask : UInt64 := 0xFFF

def pageEntryHuge : UInt64 := 0x80

structure Vmm where
  ready : Bool
  hhdmOffset : UInt64
  rootPageTable : UInt64
  memory : UInt64 → Fin 512 → UInt64

/-- A place in a table: the table and the index. -/
abbrev EntrySlot := UInt64 × Fin 512

def Vmm.entry (s : Vmm) (slot : EntrySlot) : UInt64 := s.memory slot.1 slot.2

def Vmm.setEntry (s : Vmm) (slot : EntrySlot) (entry : UInt64) : Vmm :=
  { s with memory := Radix.setEntry s.memory slot.1 slot.2 entry }

/-! ### Addresses -/

def tableIndex (shift address : UInt64) : Fin 512 :=
  Fin.ofNat 512 ((address >>> shift) &&& 0x1FF).toNat

def pml4Index (address : UInt64) : Fin 512 := tableIndex 39 address

def pdptIndex (address : UInt64) : Fin 512 := tableIndex 30 address

def pdIndex (address : UInt64) : Fin 512 := tableIndex 21 address

def ptIndex (address : UInt64) : Fin 512 := tableIndex 12 address

def addressIsCanonical (address : UInt64) : Bool :=
  if (address >>> 47) &&& 1 ≠ 0 then address >>> 48 = 0xffff else address >>> 48 = 0

/-- The null pointer before `vmm_init`. -/
def vmmPhysicalToVirtual (s : Vmm) (physicalAddress : UInt64) : UInt64 :=
  if s.ready then s.hhdmOffset + physicalAddress else 0

/-! ### Tables -/

def tableFromEntry (s : Vmm) (entry : UInt64) : Option UInt64 :=
  if entry &&& vmmPagePresent = 0 ∨ entry &&& pageEntryHuge ≠ 0 then none
  else
    let table := vmmPhysicalToVirtual s (entry &&& pageAddressMask)
    if table = 0 then none else some table

def tableFlags (flags : UInt64) : UInt64 :=
  if flags &&& vmmPageUser ≠ 0 then vmmPagePresent ||| vmmPageWritable ||| vmmPageUser
  else vmmPagePresent ||| vmmPageWritable

def getOrCreateTable (s : Vmm) (slot : EntrySlot) (flags : UInt64) (frames : List UInt64) :
    Option UInt64 × Vmm × List UInt64 :=
  if s.entry slot &&& vmmPagePresent ≠ 0 then
    if s.entry slot &&& pageEntryHuge ≠ 0 then (none, s, frames)
    else
      let entry := s.entry slot ||| tableFlags flags
      (tableFromEntry s entry, s.setEntry slot entry, frames)
  else match frames with
    | [] => (none, s, [])
    | physicalAddress :: frames =>
      let table := vmmPhysicalToVirtual s physicalAddress
      -- the frame of a null pointer goes back to the allocator
      if physicalAddress = 0 ∨ table = 0 then (none, s, frames)
      else
        let cleared := { s with memory := Function.update s.memory table fun _ => 0 }
        (some table, cleared.setEntry slot (physicalAddress ||| tableFlags flags), frames)

/-- The next table down, made when there is none and `create` asks for it. -/
def nextTable (s : Vmm) (slot : EntrySlot) (create : Bool) (flags : UInt64)
    (frames : List UInt64) : Option UInt64 × Vmm × List UInt64 :=
  if create then getOrCreateTable s slot flags frames
  else (tableFromEntry s (s.entry slot), s, frames)

/-- From a table down along indices, one level after the other. -/
def walkTables (create : Bool) (flags : UInt64) :
    List (Fin 512) → Vmm → UInt64 → List UInt64 → Option UInt64 × Vmm × List UInt64
  | [], s, table, frames => (some table, s, frames)
  | index :: path, s, table, frames =>
    match nextTable s (table, index) create flags frames with
    | (none, s, frames) => (none, s, frames)
    | (some table, s, frames) => walkTables create flags path s table frames

/-- The indices of the three levels above the last. -/
def tablePath (address : UInt64) : List (Fin 512) :=
  [pml4Index address, pdptIndex address, pdIndex address]

def findLeafEntry (s : Vmm) (virtualAddress : UInt64) (create : Bool) (flags : UInt64)
    (frames : List UInt64) : Option EntrySlot × Vmm × List UInt64 :=
  if !s.ready || !addressIsCanonical virtualAddress then (none, s, frames)
  else match walkTables create flags (tablePath virtualAddress) s s.rootPageTable frames with
    | (none, s, frames) => (none, s, frames)
    | (some pt, s, frames) => (some (pt, ptIndex virtualAddress), s, frames)

/-! ### Pages -/

/-- The flags that a mapping may ask for. -/
def vmmLeafFlags : UInt64 :=
  vmmPageWritable ||| vmmPageUser ||| vmmPageWriteThrough ||| vmmPageCacheDisable |||
    vmmPageNoExecute

def vmmMapPage (s : Vmm) (virtualAddress physicalAddress flags : UInt64) (frames : List UInt64) :
    Bool × Vmm × List UInt64 :=
  if virtualAddress &&& pageOffsetMask ≠ 0 ∨ physicalAddress &&& pageOffsetMask ≠ 0 ∨
      physicalAddress &&& ~~~pageAddressMask ≠ 0 ∨
      (flags &&& vmmPageWritable ≠ 0 ∧ flags &&& vmmPageNoExecute = 0) then (false, s, frames)
  else match findLeafEntry s virtualAddress true flags frames with
    | (none, s, frames) => (false, s, frames)
    | (some slot, s, frames) =>
      if s.entry slot &&& vmmPagePresent ≠ 0 then (false, s, frames)
      else
        (true, s.setEntry slot (physicalAddress ||| vmmPagePresent ||| (flags &&& vmmLeafFlags)),
          frames)

def vmmVirtualToPhysical (s : Vmm) (virtualAddress : UInt64) : UInt64 :=
  match (findLeafEntry s virtualAddress false 0 []).1 with
  | none => 0
  | some slot =>
    if s.entry slot &&& vmmPagePresent = 0 then 0
    else (s.entry slot &&& pageAddressMask) ||| (virtualAddress &&& pageOffsetMask)

def vmmUnmapPage (s : Vmm) (virtualAddress : UInt64) : UInt64 × Vmm :=
  if virtualAddress &&& pageOffsetMask ≠ 0 then (0, s)
  else match (findLeafEntry s virtualAddress false 0 []).1 with
    | none => (0, s)
    | some slot =>
      if s.entry slot &&& vmmPagePresent = 0 then (0, s)
      else (s.entry slot &&& pageAddressMask, s.setEntry slot 0)

/-! ### Device memory (`mmio.c`) -/

def memoryLayoutMmioBase : UInt64 := 0xFFFFD08000000000

def memoryLayoutMmioSize : UInt64 := 0x0000008000000000

def mmioPageSize : UInt64 := 4096

def mmioFlags : UInt64 := vmmPageWritable ||| vmmPageCacheDisable ||| vmmPageNoExecute

/-- The page tables with the place where the next device goes. -/
structure Paging where
  vmm : Vmm
  mmioNextVirtual : UInt64

/-- The loop of `mmio_map` that takes its pages back. -/
def mmioUnmapPages (virtualBase : UInt64) : Nat → Vmm → Vmm
  | 0, s => s
  | index + 1, s =>
    mmioUnmapPages virtualBase index
      (vmmUnmapPage s (virtualBase + UInt64.ofNat index * mmioPageSize)).2

/-- The loop of `mmio_map`, with the pages left to map and those mapped already. -/
def mmioMapPages (virtualBase firstPhysical : UInt64) :
    Nat → Nat → Vmm → List UInt64 → Bool × Vmm × List UInt64
  | 0, _, s, frames => (true, s, frames)
  | remaining + 1, index, s, frames =>
    match vmmMapPage s (virtualBase + UInt64.ofNat index * mmioPageSize)
        (firstPhysical + UInt64.ofNat index * mmioPageSize) mmioFlags frames with
    | (false, s, frames) => (false, mmioUnmapPages virtualBase index s, frames)
    | (true, s, frames) => mmioMapPages virtualBase firstPhysical remaining (index + 1) s frames

def mmioMap (p : Paging) (physicalAddress length : UInt64) (frames : List UInt64) :
    UInt64 × Paging × List UInt64 :=
  if length = 0 then (0, p, frames)
  else
    let pageOffset := physicalAddress &&& (mmioPageSize - 1)
    let firstPhysical := physicalAddress - pageOffset
    if length > 0xffffffffffffffff - pageOffset - (mmioPageSize - 1) then (0, p, frames)
    else
      let pageCount := (pageOffset + length + (mmioPageSize - 1)) / mmioPageSize
      let span := pageCount * mmioPageSize
      if span > memoryLayoutMmioSize then (0, p, frames)
      else if p.mmioNextVirtual - memoryLayoutMmioBase > memoryLayoutMmioSize - span then
        (0, p, frames)
      else
        match mmioMapPages p.mmioNextVirtual firstPhysical pageCount.toNat 0 p.vmm frames with
        | (false, s, frames) => (0, { p with vmm := s }, frames)
        | (true, s, frames) =>
          (p.mmioNextVirtual + pageOffset, ⟨s, p.mmioNextVirtual + span⟩, frames)

end Jani
