import Jani.Mm.Equiv.FreeList
import Jani.Mm.Equiv.Vmm
import Mathlib.Data.List.Perm.Subperm

/-!
# The heap as a partition into blocks

The used part of the heap is tiled by blocks (`Tiles`), which are never split, joined or moved, so
that a pointer that was once handed out stays the pointer of a block.  Each block is live or on the
free list of its class (`HeapInv`).  The magic word tells them apart: a block on a free list has the
address of another block, or the null pointer, in its place, and neither is the magic word, which is
not a canonical address.
-/

namespace Jani

/-! ### Blocks -/

namespace HeapBlock

/-- What the caller gets. -/
def pointer (b : HeapBlock) : UInt64 := b.start + heapHeaderSize

/-- How many bytes the caller may use. -/
def capacity (b : HeapBlock) : Nat := b.size.toNat - 16

end HeapBlock

/-- The blocks lie one after the other between two addresses, and have room for a header and a byte
each. -/
def Tiles : Nat → List HeapBlock → Nat → Prop
  | first, [], last => first = last
  | first, b :: blocks, last =>
    b.start.toNat = first ∧ 16 ∣ b.size.toNat ∧ 32 ≤ b.size.toNat ∧
      Tiles (first + b.size.toNat) blocks last

theorem Tiles.le : ∀ {blocks : List HeapBlock} {first last : Nat},
    Tiles first blocks last → first + 32 * blocks.length ≤ last
  | [], _, _, h => by rw [show _ = _ from h, List.length_nil]; omega
  | b :: blocks, first, last, ⟨_, _, hsize, h⟩ => by
    have := h.le
    rw [List.length_cons]
    omega

theorem Tiles.mem : ∀ {blocks : List HeapBlock} {first last : Nat}, Tiles first blocks last →
    ∀ b ∈ blocks, first ≤ b.start.toNat ∧ b.start.toNat + b.size.toNat ≤ last ∧
      16 ∣ b.size.toNat ∧ 32 ≤ b.size.toNat
  | b' :: blocks, first, last, ⟨hstart, halign, hsize, h⟩, b, hb => by
    rcases List.mem_cons.mp hb with rfl | hb
    · have := h.le
      exact ⟨by omega, by omega, halign, hsize⟩
    · obtain ⟨h1, h2, h3, h4⟩ := h.mem b hb
      exact ⟨by omega, h2, h3, h4⟩

theorem Tiles.apart : ∀ {blocks : List HeapBlock} {first last : Nat}, Tiles first blocks last →
    ∀ {b c : HeapBlock}, b ∈ blocks → c ∈ blocks → b ≠ c →
      b.start.toNat + b.size.toNat ≤ c.start.toNat ∨ c.start.toNat + c.size.toNat ≤ b.start.toNat
  | x :: blocks, first, last, ⟨hstart, halign, hsize, h⟩, b, c, hb, hc, hne => by
    rcases List.mem_cons.mp hb with hbx | hb
    · rcases List.mem_cons.mp hc with hcx | hc
      · exact absurd (hbx.trans hcx.symm) hne
      · have := (h.mem c hc).1
        rw [hbx]
        omega
    · rcases List.mem_cons.mp hc with hcx | hc
      · have := (h.mem b hb).1
        rw [hcx]
        omega
      · exact h.apart hb hc hne

variable {b : HeapBlock} {blocks : List HeapBlock}

theorem Tiles.eq_of_start {first last : Nat} (h : Tiles first blocks last) {c : HeapBlock}
    (hb : b ∈ blocks) (hc : c ∈ blocks) (hstart : b.start = c.start) : b = c := by
  by_contra hne
  have hbsize := (h.mem b hb).2.2.2
  have hcsize := (h.mem c hc).2.2.2
  have := h.apart hb hc hne
  rw [hstart] at this
  omega

theorem Tiles.nodup : ∀ {blocks : List HeapBlock} {first last : Nat}, Tiles first blocks last →
    blocks.Nodup
  | [], _, _, _ => List.nodup_nil
  | b :: blocks, first, last, ⟨hstart, _, hsize, h⟩ => by
    refine List.nodup_cons.mpr ⟨fun hb => ?_, h.nodup⟩
    have := (h.mem b hb).1
    omega

theorem Tiles.aligned : ∀ {blocks : List HeapBlock} {first last : Nat}, Tiles first blocks last →
    16 ∣ first → (∀ b ∈ blocks, 16 ∣ b.start.toNat) ∧ 16 ∣ last
  | [], first, last, h, halign => ⟨fun b hb => absurd hb List.not_mem_nil, by
      rw [← show first = last from h]; exact halign⟩
  | b' :: blocks, first, last, ⟨hstart, hsize, _, h⟩, halign => by
    obtain ⟨hall, hlast⟩ := h.aligned (Nat.dvd_add halign hsize)
    refine ⟨fun b hb => ?_, hlast⟩
    rcases List.mem_cons.mp hb with rfl | hb
    · rw [hstart]
      exact halign
    · exact hall b hb

theorem Tiles.snoc : ∀ {blocks : List HeapBlock} {first last : Nat}, Tiles first blocks last →
    ∀ {b : HeapBlock}, b.start.toNat = last → 16 ∣ b.size.toNat → 32 ≤ b.size.toNat →
      Tiles first (blocks ++ [b]) (last + b.size.toNat)
  | [], first, last, h, b, hstart, halign, hsize => by
    have hfirst : first = last := h
    subst hfirst
    exact ⟨hstart, halign, hsize, rfl⟩
  | b' :: blocks, first, last, ⟨h1, h2, h3, h⟩, b, hstart, halign, hsize =>
    ⟨h1, h2, h3, h.snoc hstart halign hsize⟩

/-! ### The invariant -/

/-- Every page between the two addresses is canonical. -/
def CanonicalPages (first last : Nat) : Prop :=
  ∀ page : UInt64, page.toNat % 4096 = 0 → first ≤ page.toNat → page.toNat < last →
    addressIsCanonical page = true

/-- The heap is tiled by `blocks`, those of `free k` are on the free list of class `k`, and the
others are live. -/
structure HeapInv (h : KHeap) (blocks : List HeapBlock) (free : Fin 9 → List HeapBlock) :
    Prop where
  base_aligned : h.base.toNat % 4096 = 0
  base_pos : h.base = 0 → blocks = []
  tiles : Tiles h.base.toNat blocks h.next.toNat
  le_limit : h.next.toNat ≤ h.limit.toNat
  sizes : ∀ b ∈ blocks, blockSizeAt h.memory b.start = b.size
  chain : ∀ k, Chain (blockLinkAt h.memory) (h.heads k) ((free k).map HeapBlock.start)
  free_mem : ∀ k, ∀ b ∈ free k, b ∈ blocks ∧ classForSize b.size = k
  nodup : ∀ k, (free k).Nodup
  live : ∀ b ∈ blocks, b ∉ free (classForSize b.size) →
    blockLinkAt h.memory b.start = heapAllocationMagic
  mapped_aligned : h.mappedEnd.toNat % 4096 = 0
  canonical_mapped : CanonicalPages h.base.toNat h.mappedEnd.toNat
  canonical_used : CanonicalPages h.base.toNat h.next.toNat

theorem addressIsCanonical_page {a page : UInt64} (hpage : addressIsCanonical page = true)
    (h : page.toNat = a.toNat - a.toNat % 4096) : addressIsCanonical a = true := by
  rw [addressIsCanonical_iff] at hpage ⊢
  omega

theorem CanonicalPages.address {first last : Nat} (h : CanonicalPages first last)
    (hfirst : first % 4096 = 0) {a : UInt64} (ha : first ≤ a.toNat) (ha' : a.toNat < last) :
    addressIsCanonical a = true := by
  have hlt := a.toNat_lt
  have hpage : (UInt64.ofNat (a.toNat - a.toNat % 4096)).toNat = a.toNat - a.toNat % 4096 := by
    rw [UInt64.toNat_ofNat', Nat.mod_eq_of_lt (by omega)]
  refine addressIsCanonical_page (h _ ?_ ?_ ?_) hpage
  all_goals
    rw [hpage]
    omega

theorem magic_not_canonical : addressIsCanonical heapAllocationMagic = false := by decide

namespace HeapInv

variable {h : KHeap} {blocks : List HeapBlock} {free : Fin 9 → List HeapBlock}
  (hi : HeapInv h blocks free)

include hi

theorem mem_bounds (hb : b ∈ blocks) :
    h.base.toNat ≤ b.start.toNat ∧ b.start.toNat + b.size.toNat ≤ h.next.toNat ∧
      16 ∣ b.size.toNat ∧ 32 ≤ b.size.toNat := hi.tiles.mem b hb

theorem start_aligned (hb : b ∈ blocks) : 16 ∣ b.start.toNat := by
  have hbase := hi.base_aligned
  exact (hi.tiles.aligned (by omega)).1 b hb

theorem start_ne_magic (hb : b ∈ blocks) : b.start ≠ heapAllocationMagic := by
  intro heq
  obtain ⟨h1, h2, -, h4⟩ := hi.mem_bounds hb
  have hcanonical := hi.canonical_used.address hi.base_aligned h1 (by omega)
  rw [heq, magic_not_canonical] at hcanonical
  cases hcanonical

/-- **A block on a free list is not marked live.** -/
theorem free_link {k : Fin 9} (hb : b ∈ free k) :
    blockLinkAt h.memory b.start ≠ heapAllocationMagic := by
  intro hmagic
  rcases (hi.chain k).next_mem b.start (List.mem_map_of_mem hb) with h0 | hmem
  · rw [hmagic] at h0
    exact absurd h0 (by decide)
  · obtain ⟨c, hc, hstart⟩ := List.mem_map.mp hmem
    exact hi.start_ne_magic (hi.free_mem k c hc).1 (hstart.trans hmagic)

section

variable (hb : b ∈ blocks)

include hb

/-- The magic word marks the blocks that are on no free list. -/
theorem live_iff :
    blockLinkAt h.memory b.start = heapAllocationMagic ↔ b ∉ free (classForSize b.size) :=
  ⟨fun hmagic hfree => hi.free_link hfree hmagic, hi.live b hb⟩

theorem start_ne_zero : b.start ≠ 0 := by
  intro h0
  have hbase : h.base = 0 := by
    have := (hi.mem_bounds hb).1
    rw [h0, UInt64.toNat_zero] at this
    exact UInt64.toNat_inj.mp (Nat.le_zero.mp this)
  rw [hi.base_pos hbase] at hb
  exact List.not_mem_nil hb

theorem toNat_pointer : b.pointer.toNat = b.start.toNat + 16 := by
  obtain ⟨-, h2, -, h4⟩ := hi.mem_bounds hb
  have hlt := h.next.toNat_lt
  have h16 : heapHeaderSize.toNat = 16 := rfl
  rw [HeapBlock.pointer, UInt64.toNat_add, h16, Nat.mod_eq_of_lt (by omega)]

theorem pointer_ne_zero : b.pointer ≠ 0 := by
  intro h0
  have := hi.toNat_pointer hb
  rw [h0, UInt64.toNat_zero] at this
  omega

theorem eq_of_pointer {c : HeapBlock} (hc : c ∈ blocks) (h : b.pointer = c.pointer) : b = c :=
  hi.tiles.eq_of_start hb hc ((UInt64.add_left_inj heapHeaderSize).mp h)

end

theorem freeLists : FreeLists h.memory h.heads free where
  chain := hi.chain
  sizes k b hb := hi.sizes b (hi.free_mem k b hb).1
  class_eq k b hb := (hi.free_mem k b hb).2
  aligned k b hb := hi.start_aligned (hi.free_mem k b hb).1
  nodup := hi.nodup
  start_inj j k b hb c hc := hi.tiles.eq_of_start (hi.free_mem j b hb).1 (hi.free_mem k c hc).1

theorem length_free_le (k : Fin 9) : (free k).length < h.fuel := by
  have hsub : (free k).length ≤ blocks.length :=
    (List.subperm_of_subset (hi.nodup k) fun b hb => (hi.free_mem k b hb).1).length_le
  have := hi.tiles.le
  rw [KHeap.fuel]
  omega

end HeapInv

variable {m' : Memory}

theorem SameOn.header {m : Memory} (h : SameOn m m' b.start.toNat b.size.toNat)
    (hsize : 32 ≤ b.size.toNat) : blockSizeAt m' b.start = blockSizeAt m b.start ∧
      blockLinkAt m' b.start = blockLinkAt m b.start :=
  (h.mono (Nat.le_refl _) (by omega)).node

namespace HeapInv

variable {h : KHeap} {blocks : List HeapBlock} {free : Fin 9 → List HeapBlock}

theorem same_of_outside (hi : HeapInv h blocks free) {x : HeapBlock} (hx : x ∈ blocks)
    (hb : b ∈ blocks) (hne : b ≠ x) {m : Memory} {n : Nat} (hn : n ≤ x.size.toNat)
    (hm : SameOutside m m' x.start.toNat n) : SameOn m m' b.start.toNat b.size.toNat := by
  refine hm.sameOn ?_
  rcases hi.tiles.apart hb hx hne with h1 | h1
  · exact Or.inl h1
  · exact Or.inr (by omega)

theorem of_headers (hi : HeapInv h blocks free)
    (hheaders : ∀ b ∈ blocks, blockSizeAt m' b.start = blockSizeAt h.memory b.start ∧
      blockLinkAt m' b.start = blockLinkAt h.memory b.start) :
    HeapInv { h with memory := m' } blocks free where
  base_aligned := hi.base_aligned
  base_pos := hi.base_pos
  tiles := hi.tiles
  le_limit := hi.le_limit
  sizes b hb := (hheaders b hb).1.trans (hi.sizes b hb)
  chain k := (hi.chain k).congr fun q hq => by
    obtain ⟨b, hb, rfl⟩ := List.mem_map.mp hq
    exact (hheaders b (hi.free_mem k b hb).1).2
  free_mem := hi.free_mem
  nodup := hi.nodup
  live b hb hfree := (hheaders b hb).2.trans (hi.live b hb hfree)
  mapped_aligned := hi.mapped_aligned
  canonical_mapped := hi.canonical_mapped
  canonical_used := hi.canonical_used

/-- **Writing inside a block.** -/
theorem payload (hi : HeapInv h blocks free) {x : HeapBlock} (hx : x ∈ blocks)
    (hm : SameOutside h.memory m' (x.start.toNat + 16) x.capacity) :
    HeapInv { h with memory := m' } blocks free := by
  refine hi.of_headers fun b hb => ?_
  obtain ⟨-, -, -, hsize⟩ := hi.mem_bounds hb
  obtain ⟨-, -, -, hxsize⟩ := hi.mem_bounds hx
  rw [HeapBlock.capacity] at hm
  by_cases hbx : b = x
  · subst hbx
    have hheader : SameOn h.memory m' b.start.toNat 16 := hm.sameOn (Or.inl (Nat.le_refl _))
    exact hheader.node
  · refine SameOn.header (hm.sameOn ?_) hsize
    have := hi.tiles.apart hb hx hbx
    omega

/-! ### Freeing -/

/-- The block on the list of its class. -/
def pushFree (free : Fin 9 → List HeapBlock) (b : HeapBlock) : Fin 9 → List HeapBlock :=
  Function.update free (classForSize b.size) (b :: free (classForSize b.size))

theorem mem_pushFree {c : HeapBlock} {k : Fin 9} :
    c ∈ pushFree free b k ↔ (c = b ∧ k = classForSize b.size) ∨ c ∈ free k :=
  FreeLists.mem_push

/-- Pushing a live block on its free list makes it free. -/
theorem push (hi : HeapInv h blocks free) (hb : b ∈ blocks) (hlive : b ∉ free (classForSize b.size))
    (hm : SameOutside h.memory m' b.start.toNat 16) (hsize : blockSizeAt m' b.start = b.size)
    (hlink : blockLinkAt m' b.start = h.heads (classForSize b.size)) : HeapInv
      { h with
        memory := m'
        heads := Function.update h.heads (classForSize b.size) b.start }
      blocks (pushFree free b) := by
  have hsame : ∀ c ∈ blocks, c ≠ b → SameOn h.memory m' c.start.toNat c.size.toNat := by
    intro c hc hcb
    have := (hi.mem_bounds hb).2.2.2
    exact hi.same_of_outside hb hc hcb (by omega) hm
  have hfresh : ∀ k, ∀ c ∈ free k, c.start ≠ b.start := by
    intro k c hc heq
    obtain ⟨hcb, hclass⟩ := hi.free_mem k c hc
    obtain rfl := hi.tiles.eq_of_start hcb hb heq
    rw [← hclass] at hc
    exact hlive hc
  have hlists := hi.freeLists.push (hi.start_ne_zero hb) (hi.start_aligned hb) hfresh hm hsize hlink
  exact {
    base_aligned := hi.base_aligned
    base_pos := hi.base_pos
    tiles := hi.tiles
    le_limit := hi.le_limit
    sizes := fun c hc => by
      by_cases hcb : c = b
      · rw [hcb]
        exact hsize
      · exact ((hsame c hc hcb).header (hi.mem_bounds hc).2.2.2).1.trans (hi.sizes c hc)
    chain := hlists.chain
    free_mem := fun k c hc => ⟨by
      rcases mem_pushFree.mp hc with ⟨rfl, -⟩ | hc
      · exact hb
      · exact (hi.free_mem k c hc).1, hlists.class_eq k c hc⟩
    nodup := hlists.nodup
    live := fun c hc hfree => by
      rw [mem_pushFree, not_or] at hfree
      have hcb : c ≠ b := fun heq => hfree.1 ⟨heq, by rw [heq]⟩
      exact ((hsame c hc hcb).header (hi.mem_bounds hc).2.2.2).2.trans (hi.live c hc hfree.2)
    mapped_aligned := hi.mapped_aligned
    canonical_mapped := hi.canonical_mapped
    canonical_used := hi.canonical_used }

end HeapInv

/-- **`kfree` of a live block** puts it on its free list. -/
theorem kfree_live {h : KHeap} {free : Fin 9 → List HeapBlock} (hi : HeapInv h blocks free)
    (hb : b ∈ blocks) (hlive : b ∉ free (classForSize b.size)) :
    ∃ m', SameOutside h.memory m' b.start.toNat 16 ∧
      kfree h b.pointer =
        { h with
          memory := m'
          heads := Function.update h.heads (classForSize b.size) b.start } ∧
      HeapInv (kfree h b.pointer) blocks (HeapInv.pushFree free b) := by
  obtain ⟨-, -, -, hsize⟩ := hi.mem_bounds hb
  have hheader : b.pointer - heapHeaderSize = b.start := by
    rw [HeapBlock.pointer, UInt64.add_sub_cancel]
  have haligned : ¬ b.start % 16 ≠ 0 := by
    rw [not_not]
    apply UInt64.toNat_inj.mp
    rw [UInt64.toNat_mod]
    have := hi.start_aligned hb
    show b.start.toNat % 16 = 0
    omega
  have hlarge : ¬ b.size < heapHeaderSize := by
    rw [UInt64.lt_iff_toNat_lt, show heapHeaderSize.toNat = 16 from rfl]
    omega
  obtain ⟨hout, hsize', hlink'⟩ := setHeader_spec (setBlockLink h.memory b.start 0) b.start b.size
    (h.heads (classForSize b.size))
  have hout' : SameOutside h.memory _ b.start.toNat 16 :=
    ((store64_sameOutside h.memory (b.start.toNat + 8) 0).mono (by omega) (by omega)).trans hout
  have heq : kfree h b.pointer =
      { h with
        memory := setBlockLink (setBlockSize (setBlockLink h.memory b.start 0) b.start b.size)
          b.start (h.heads (classForSize b.size))
        heads := Function.update h.heads (classForSize b.size) b.start } := by
    unfold kfree
    dsimp only
    rw [if_neg (hi.pointer_ne_zero hb), hheader, if_neg (not_not_intro (hi.live b hb hlive)),
      hi.sizes b hb]
    unfold heapFreeListAdd
    rw [if_neg (by
      rw [not_or, not_or]
      exact ⟨hi.start_ne_zero hb, haligned, hlarge⟩)]
  refine ⟨_, hout', heq, ?_⟩
  rw [heq]
  exact hi.push hb hlive hout' hsize' hlink'

/-- **`kfree` of a block on a free list** has no effect. -/
theorem kfree_free {h : KHeap} {free : Fin 9 → List HeapBlock} (hi : HeapInv h blocks free)
    {k : Fin 9} (hb : b ∈ free k) : kfree h b.pointer = h := by
  unfold kfree
  dsimp only
  split_ifs with h0 hmagic
  · rfl
  · rfl
  · rw [HeapBlock.pointer, UInt64.add_sub_cancel] at hmagic
    exact absurd (not_not.mp hmagic) (hi.free_link hb)

end Jani
