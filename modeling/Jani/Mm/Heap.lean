import Jani.Lib.ByteMemory
import Jani.Mm.Vmm

/-!
# The kernel heap (`heap.c`, `free_list.c`, `heap_backend.c`)

The heap grows page by page through a region of the address space.  A block is a header of sixteen
bytes, with the size of the block and a magic word, followed by the bytes the caller gets.  A freed
block is kept whole on one of nine free lists, whose node lies over the header: the size stays, and
the pointer to the next node takes the place of the magic word.

Addresses and sizes are machine words and memory is a memory of bytes.  The page source answers each
request in its own way: `answers` says for each page whether a frame and the page tables for it
could be had; `vmm_map_page` maps no address that is not canonical.  Loops over a free list have a
bound on the number of nodes, and give nothing when it is exceeded.
-/

namespace Jani

def heapAlignment : UInt64 := 16

def heapPageSize : UInt64 := 4096

def heapAllocationMagic : UInt64 := 0x4A414E4948454150

/-- `sizeof(struct allocation_header)`, and of the free list node that lies over it. -/
def heapHeaderSize : UInt64 := 16

structure KHeap where
  base : UInt64
  limit : UInt64
  next : UInt64
  mappedEnd : UInt64
  heads : Fin 9 → UInt64
  memory : Memory

/-! ### Words of a header -/

/-- `block_size` of a header, `size` of a free list node. -/
def blockSizeAt (m : Memory) (header : UInt64) : UInt64 := load64 m header.toNat

/-- `magic` of a header, `next` of a free list node. -/
def blockLinkAt (m : Memory) (header : UInt64) : UInt64 := load64 m (header.toNat + 8)

def setBlockSize (m : Memory) (header size : UInt64) : Memory := store64 m header.toNat size

def setBlockLink (m : Memory) (header link : UInt64) : Memory := store64 m (header.toNat + 8) link

/-! ### Free lists (`free_list.c`) -/

/-- The loop of `class_for_size`, with the number of classes that are left. -/
def classLoop (size : UInt64) : Nat → Nat → UInt64 → Nat
  | 0, index, _ => index
  | remaining + 1, index, limit =>
    if size > limit then classLoop size remaining (index + 1) (limit * 2) else index

def classForSize (size : UInt64) : Fin 9 := Fin.ofNat 9 (classLoop size 8 0 32)

def heapFreeListReset (h : KHeap) : KHeap := { h with heads := fun _ => 0 }

def heapFreeListAdd (h : KHeap) (memory size : UInt64) : Bool × KHeap :=
  if memory = 0 ∨ memory % 16 ≠ 0 ∨ size < heapHeaderSize then (false, h)
  else
    let k := classForSize size
    (true, { h with
      memory := setBlockLink (setBlockSize h.memory memory size) memory (h.heads k)
      heads := Function.update h.heads k memory })

/-- The loop over the list of one class: the node before the first one that is large enough, and
that node. -/
def searchClass (m : Memory) (minimumSize : UInt64) :
    Nat → UInt64 → UInt64 → Option (Option (UInt64 × UInt64))
  | 0, _, _ => none
  | fuel + 1, previous, current =>
    if current = 0 then some none
    else if blockSizeAt m current ≥ minimumSize then some (some (previous, current))
    else searchClass m minimumSize fuel current (blockLinkAt m current)

/-- The loop over the classes. -/
def searchClasses (h : KHeap) (minimumSize : UInt64) (fuel : Nat) :
    List (Fin 9) → Option (Option (Fin 9 × UInt64 × UInt64))
  | [] => some none
  | k :: classes =>
    match searchClass h.memory minimumSize fuel 0 (h.heads k) with
    | none => none
    | some none => searchClasses h minimumSize fuel classes
    | some (some found) => some (some (k, found))

/-- The node taken off the list of a class, given the node before it. -/
def unlinkNode (h : KHeap) (k : Fin 9) (previous current : UInt64) : KHeap :=
  if previous = 0 then
    { h with heads := Function.update h.heads k (blockLinkAt h.memory current) }
  else { h with memory := setBlockLink h.memory previous (blockLinkAt h.memory current) }

/-- The block found and its size, if there is one, and the heap after it. -/
def heapFreeListTake (h : KHeap) (minimumSize : UInt64) (fuel : Nat) :
    Option (Option (UInt64 × UInt64) × KHeap) :=
  if minimumSize = 0 then some (none, h)
  else match searchClasses h minimumSize fuel
      ((List.finRange 9).filter fun k => classForSize minimumSize ≤ k) with
    | none => none
    | some none => some (none, h)
    | some (some (k, previous, current)) =>
      some (some (current, blockSizeAt h.memory current), unlinkNode h k previous current)

/-! ### The page source (`heap_backend.c`) -/

def heapBackendMapPage (address : UInt64) (granted : Bool) : Bool :=
  granted && addressIsCanonical address

/-- The loop of `kmalloc` that maps pages: whether they suffice, and the end of the mapped part. -/
def mapPages (newNext : UInt64) : List Bool → UInt64 → Bool × UInt64
  | [], mappedEnd => (!decide (mappedEnd < newNext), mappedEnd)
  | granted :: answers, mappedEnd =>
    if mappedEnd < newNext then
      if heapBackendMapPage mappedEnd granted then
        mapPages newNext answers (mappedEnd + heapPageSize)
      else (false, mappedEnd)
    else (true, mappedEnd)

/-! ### Allocation (`heap.c`) -/

def alignUp (value alignment : UInt64) : UInt64 := (value + (alignment - 1)) &&& ~~~(alignment - 1)

def calculateBlockSize (requestedSize : UInt64) : Option UInt64 :=
  if requestedSize > 0xffffffffffffffff - heapHeaderSize then none
  else
    let sizeWithHeader := requestedSize + heapHeaderSize
    if sizeWithHeader > 0xffffffffffffffff - (heapAlignment - 1) then none
    else some (alignUp sizeWithHeader heapAlignment)

/-- `kheap_init`, over whatever the memory holds. -/
def kheapInit (base size : UInt64) (memory : Memory) : KHeap :=
  if base = 0 ∨ size = 0 ∨ base % heapPageSize ≠ 0 ∨ size > 0xffffffffffffffff - base then
    ⟨0, 0, 0, 0, fun _ => 0, memory⟩
  else ⟨base, base + size, base, base, fun _ => 0, memory⟩

/-- The header of a block that is handed out. -/
def writeHeader (m : Memory) (header size : UInt64) : Memory :=
  setBlockLink (setBlockSize m header size) header heapAllocationMagic

/-- The part of `kmalloc` that extends the heap. -/
def extendHeap (h : KHeap) (blockSize : UInt64) (answers : List Bool) : UInt64 × KHeap :=
  let blockStart := alignUp h.next heapAlignment
  if blockStart > h.limit ∨ blockSize > h.limit - blockStart then (0, h)
  else
    let newNext := blockStart + blockSize
    match mapPages newNext answers h.mappedEnd with
    | (false, mappedEnd) => (0, { h with mappedEnd := mappedEnd })
    | (true, mappedEnd) =>
      (blockStart + heapHeaderSize,
        { h with
          mappedEnd := mappedEnd
          memory := writeHeader h.memory blockStart blockSize
          next := newNext })

/-- A bound on the number of blocks. -/
def KHeap.fuel (h : KHeap) : Nat := h.next.toNat + 1

def kmalloc (h : KHeap) (size : UInt64) (answers : List Bool) : Option (UInt64 × KHeap) :=
  if size = 0 ∨ h.base = 0 then some (0, h)
  else match calculateBlockSize size with
    | none => some (0, h)
    | some blockSize => match heapFreeListTake h blockSize h.fuel with
      | none => none
      | some (some (header, reusedSize), h) =>
        some (header + heapHeaderSize, { h with memory := writeHeader h.memory header reusedSize })
      | some (none, h) => some (extendHeap h blockSize answers)

def kfree (h : KHeap) (memory : UInt64) : KHeap :=
  if memory = 0 then h
  else
    let header := memory - heapHeaderSize
    if blockLinkAt h.memory header ≠ heapAllocationMagic then h
    else
      let blockSize := blockSizeAt h.memory header
      (heapFreeListAdd { h with memory := setBlockLink h.memory header 0 } header blockSize).2

def krealloc (h : KHeap) (memory newSize : UInt64) (answers : List Bool) :
    Option (UInt64 × KHeap) :=
  if memory = 0 then kmalloc h newSize answers
  else if newSize = 0 then some (0, kfree h memory)
  else
    let header := memory - heapHeaderSize
    if blockLinkAt h.memory header ≠ heapAllocationMagic then some (0, h)
    else if blockSizeAt h.memory header < heapHeaderSize then some (0, h)
    else
      let oldCapacity := blockSizeAt h.memory header - heapHeaderSize
      if newSize ≤ oldCapacity then some (memory, h)
      else match kmalloc h newSize answers with
        | none => none
        | some (newMemory, h) =>
          if newMemory = 0 then some (0, h)
          else
            let h := { h with
              memory := copyBytes h.memory newMemory.toNat memory.toNat oldCapacity.toNat }
            some (newMemory, kfree h memory)

end Jani
