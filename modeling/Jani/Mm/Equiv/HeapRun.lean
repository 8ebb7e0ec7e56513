import Jani.Mm.Equiv.HeapCalls

/-!
# The heap over whole runs

`heapBlocks`, `freeBlocks` and `liveBlocks` read the blocks out of the heap's memory: by walking
the used part from header to header, by walking the free lists, and by the magic word.  A client
(`HeapClient`) remembers which pointers it was given and which of them it has not given back, and
may call with any of them, also with one that it gave back before, and write into what it holds.

`heap_partition` says for every state that calls lead to that the blocks partition the used part,
and for every next call that it returns and what it does (`HeapCallSpec`).
-/

namespace Jani

/-! ### Blocks in memory -/

/-- The blocks from `a` on, by their headers. -/
def walkBlocks (m : Memory) (last : UInt64) : Nat → UInt64 → List HeapBlock
  | 0, _ => []
  | fuel + 1, a =>
    if a < last then ⟨a, blockSizeAt m a⟩ :: walkBlocks m last fuel (a + blockSizeAt m a) else []

/-- The blocks on a list. -/
def walkFree (m : Memory) : Nat → UInt64 → List HeapBlock
  | 0, _ => []
  | fuel + 1, p =>
    if p = 0 then [] else ⟨p, blockSizeAt m p⟩ :: walkFree m fuel (blockLinkAt m p)

def heapBlocks (h : KHeap) : List HeapBlock := walkBlocks h.memory h.next h.fuel h.base

def freeBlocks (h : KHeap) : List HeapBlock :=
  (List.finRange 9).flatMap fun k => walkFree h.memory h.fuel (h.heads k)

def liveBlocks (h : KHeap) : List HeapBlock :=
  (heapBlocks h).filter fun b => blockLinkAt h.memory b.start = heapAllocationMagic

theorem walkBlocks_eq {m : Memory} {last : UInt64} : ∀ {blocks : List HeapBlock} {a : UInt64}
    {fuel : Nat}, Tiles a.toNat blocks last.toNat →
    (∀ b ∈ blocks, blockSizeAt m b.start = b.size) → blocks.length < fuel →
    walkBlocks m last fuel a = blocks
  | [], a, fuel + 1, htiles, _, _ => by
    have hend : a.toNat = last.toNat := htiles
    rw [walkBlocks, if_neg (by rw [UInt64.lt_iff_toNat_lt]; omega)]
  | b :: blocks, a, fuel + 1, ⟨hstart, _, h32, htiles⟩, hsizes, hfuel => by
    have hle := htiles.le
    have hlast := last.toNat_lt
    obtain rfl : b.start = a := UInt64.toNat_inj.mp hstart
    have hadd : (b.start + b.size).toNat = b.start.toNat + b.size.toNat := by
      rw [UInt64.toNat_add, Nat.mod_eq_of_lt (by omega)]
    rw [walkBlocks, if_pos (by rw [UInt64.lt_iff_toNat_lt]; omega),
      hsizes b List.mem_cons_self]
    congr 1
    exact walkBlocks_eq (by rw [hadd]; exact htiles)
      (fun c hc => hsizes c (List.mem_cons_of_mem _ hc)) (Nat.lt_of_succ_lt_succ hfuel)

theorem walkFree_eq {m : Memory} : ∀ {l : List HeapBlock} {p : UInt64} {fuel : Nat},
    Chain (blockLinkAt m) p (l.map HeapBlock.start) →
    (∀ b ∈ l, blockSizeAt m b.start = b.size) → l.length < fuel → walkFree m fuel p = l
  | [], p, fuel + 1, hchain, _, _ => by rw [walkFree, if_pos (show p = 0 from hchain)]
  | b :: l, p, fuel + 1, ⟨hp, hne, hchain⟩, hsizes, hfuel => by
    rw [walkFree, hp, if_neg hne, hsizes b List.mem_cons_self]
    congr 1
    exact walkFree_eq hchain (fun c hc => hsizes c (List.mem_cons_of_mem _ hc))
      (Nat.lt_of_succ_lt_succ hfuel)

/-- **The partition**: the blocks lie one after the other over the used part of the heap, each at
a multiple of sixteen, and each is either live or on a free list, once. -/
structure Partitioned (h : KHeap) : Prop where
  tiles : Tiles h.base.toNat (heapBlocks h) h.next.toNat
  aligned : ∀ b ∈ heapBlocks h, 16 ∣ b.start.toNat ∧ 16 ∣ b.size.toNat
  perm : (liveBlocks h ++ freeBlocks h).Perm (heapBlocks h)

variable {b : HeapBlock}

section

variable {h : KHeap} {blocks : List HeapBlock} {free : Fin 9 → List HeapBlock}
  (hi : HeapInv h blocks free)

include hi

theorem HeapInv.heapBlocks_eq : heapBlocks h = blocks :=
  walkBlocks_eq hi.tiles hi.sizes (by
    have := hi.tiles.le
    rw [KHeap.fuel]
    omega)

theorem HeapInv.freeBlocks_eq : freeBlocks h = (List.finRange 9).flatMap free := by
  rw [freeBlocks]
  congr 1
  funext k
  exact walkFree_eq (hi.chain k) (fun b hb => hi.sizes b (hi.free_mem k b hb).1)
    (hi.length_free_le k)

theorem HeapInv.mem_freeBlocks : b ∈ freeBlocks h ↔ b ∈ free (classForSize b.size) := by
  rw [hi.freeBlocks_eq, List.mem_flatMap]
  constructor
  · rintro ⟨k, -, hb⟩
    rwa [(hi.free_mem k b hb).2]
  · exact fun hb => ⟨_, List.mem_finRange _, hb⟩

theorem HeapInv.mem_liveBlocks : b ∈ liveBlocks h ↔ LiveIn blocks free b := by
  rw [liveBlocks, List.mem_filter, hi.heapBlocks_eq, decide_eq_true_iff, LiveIn]
  exact and_congr_right fun hb => hi.live_iff hb

theorem HeapInv.partitioned : Partitioned h := by
  have haligned := hi.base_aligned
  have hlive : (liveBlocks h).Nodup := by
    rw [liveBlocks, hi.heapBlocks_eq]
    exact hi.tiles.nodup.filter _
  have hfree : (freeBlocks h).Nodup := by
    rw [hi.freeBlocks_eq, List.nodup_flatMap]
    refine ⟨fun k _ => hi.nodup k, (List.nodup_finRange 9).imp fun {j k} hjk => ?_⟩
    exact fun b hb hb' => hjk ((hi.free_mem j b hb).2.symm.trans (hi.free_mem k b hb').2)
  refine ⟨by rw [hi.heapBlocks_eq]; exact hi.tiles, ?_, ?_⟩
  · rw [hi.heapBlocks_eq]
    exact fun b hb => ⟨hi.start_aligned hb, (hi.mem_bounds hb).2.2.1⟩
  · refine (List.perm_ext_iff_of_nodup (hlive.append hfree fun b hb hb' => ?_) ?_).mpr fun b => ?_
    · exact (hi.mem_liveBlocks.mp hb).2 (hi.mem_freeBlocks.mp hb')
    · rw [hi.heapBlocks_eq]
      exact hi.tiles.nodup
    · rw [List.mem_append, hi.mem_liveBlocks, hi.mem_freeBlocks, hi.heapBlocks_eq, LiveIn]
      constructor
      · rintro (hb | hb)
        · exact hb.1
        · exact (hi.free_mem _ b hb).1
      · intro hb
        by_cases hfree : b ∈ free (classForSize b.size)
        · exact Or.inr hfree
        · exact Or.inl ⟨hb, hfree⟩

theorem HeapInv.same_bytes (hb : b ∈ blocks) {m m' : Memory}
    (hsame : SameOn m m' b.start.toNat b.size.toNat) :
    bytesAt m' b.pointer.toNat b.capacity = bytesAt m b.pointer.toNat b.capacity := by
  have hp := hi.toNat_pointer hb
  have h32 := (hi.mem_bounds hb).2.2.2
  refine (hsame.mono (by omega) ?_).bytesAt
  rw [HeapBlock.capacity]
  omega

end

/-- Initialisation gives an empty heap, whatever its arguments. -/
theorem kheapInit_inv (base size : UInt64) (memory : Memory) :
    HeapInv (kheapInit base size memory) [] fun _ => [] := by
  unfold kheapInit
  split_ifs with hbad
  · exact
      { base_aligned := rfl
        base_pos := fun _ => rfl
        tiles := rfl
        le_limit := Nat.le_refl _
        sizes := by simp
        chain := fun _ => rfl
        free_mem := by simp
        nodup := fun _ => List.nodup_nil
        live := by simp
        mapped_aligned := rfl
        canonical_mapped := fun _ _ _ hlt => absurd hlt (Nat.not_lt_zero _)
        canonical_used := fun _ _ _ hlt => absurd hlt (Nat.not_lt_zero _) }
  · rw [not_or, not_or, not_or, not_not, gt_iff_lt, UInt64.not_lt, UInt64.le_iff_toNat_le,
      UInt64.toNat_sub_of_le _ _ (UInt64.le_iff_toNat_le.mpr (by
        have := base.toNat_lt
        show base.toNat ≤ 2 ^ 64 - 1
        omega)), show (0xffffffffffffffff : UInt64).toNat = 2 ^ 64 - 1 from rfl] at hbad
    obtain ⟨-, -, haligned, hroom⟩ := hbad
    have hlt := base.toNat_lt
    have hmod : base.toNat % 4096 = 0 := by
      have := congrArg UInt64.toNat haligned
      rwa [UInt64.toNat_mod] at this
    have hlimit : (base + size).toNat = base.toNat + size.toNat := by
      rw [UInt64.toNat_add, Nat.mod_eq_of_lt (by omega)]
    exact
      { base_aligned := hmod
        base_pos := fun _ => rfl
        tiles := rfl
        le_limit := by
          dsimp only
          omega
        sizes := by simp
        chain := fun _ => rfl
        free_mem := by simp
        nodup := fun _ => List.nodup_nil
        live := by simp
        mapped_aligned := hmod
        canonical_mapped := fun _ _ hle hlt => absurd hlt (Nat.not_lt.mpr hle)
        canonical_used := fun _ _ hle hlt => absurd hlt (Nat.not_lt.mpr hle) }

/-! ### Clients -/

/-- A heap with its callers: the pointers handed out so far, and those not given back. -/
structure HeapClient where
  heap : KHeap
  returned : List UInt64
  live : List UInt64

inductive HeapCall where
  | malloc (size : UInt64) (answers : List Bool)
  | free (p : UInt64)
  | realloc (p size : UInt64) (answers : List Bool)
  | write (p : UInt64) (offset : Nat) (data : List UInt8)

def heapStart (base size : UInt64) (memory : Memory) : HeapClient :=
  ⟨kheapInit base size memory, [], []⟩

/-- A pointer is handed out, unless it is the null pointer. -/
def HeapClient.receive (c : HeapClient) (p : UInt64) (h : KHeap) : HeapClient :=
  if p = 0 then { c with heap := h }
  else { heap := h, returned := p :: c.returned, live := p :: c.live }

/-- What the caller gets, and the heap and its callers after the call. -/
def heapStep (c : HeapClient) : HeapCall → Option (UInt64 × HeapClient)
  | .malloc size answers => (kmalloc c.heap size answers).map fun (p, h) => (p, c.receive p h)
  | .free p => some (0, { c with heap := kfree c.heap p, live := c.live.filter (· ≠ p) })
  | .realloc p size answers => (krealloc c.heap p size answers).map fun (q, h) =>
      -- the old block is given back when another takes its place, and by a size of zero
      if q ≠ 0 ∨ size = 0 then (q, { c with live := c.live.filter (· ≠ p) }.receive q h)
      else (q, { c with heap := h })
  | .write p offset data => some (0, { c with heap :=
      { c.heap with memory := storeBytes c.heap.memory (p.toNat + offset) data } })

/-- Callers use pointers they were given, and write inside blocks they hold. -/
def HeapCall.Valid (c : HeapClient) : HeapCall → Prop
  | .malloc _ _ => True
  | .free p => p = 0 ∨ p ∈ c.returned
  | .realloc p _ _ => p = 0 ∨ p ∈ c.returned
  | .write p offset data => p ∈ c.live ∧
      ∀ b ∈ liveBlocks c.heap, b.pointer = p → offset + data.length ≤ b.capacity

inductive HeapReachable (base size : UInt64) (memory : Memory) : HeapClient → Prop
  | start : HeapReachable base size memory (heapStart base size memory)
  | step {c c' : HeapClient} {call : HeapCall} {p : UInt64}
      (hreach : HeapReachable base size memory c) (hvalid : call.Valid c)
      (hstep : heapStep c call = some (p, c')) :
      HeapReachable base size memory c'

/-! ### What calls do -/

/-- The block is live after the call, with the bytes it had. -/
def BlockKept (h h' : KHeap) (b : HeapBlock) : Prop :=
  b ∈ liveBlocks h' ∧
    bytesAt h'.memory b.pointer.toNat b.capacity = bytesAt h.memory b.pointer.toNat b.capacity

/-- The pointer is that of a live block with room for `size` bytes. -/
def HasRoom (h : KHeap) (p size : UInt64) : Prop :=
  16 ∣ p.toNat ∧ ∃ b ∈ liveBlocks h, b.pointer = p ∧ size.toNat ≤ b.capacity

/-- An allocation: a block that was not live is handed out, or none, and no live block is
touched. -/
def MallocSpec (h : KHeap) (size p : UInt64) (h' : KHeap) : Prop :=
  (∀ b ∈ liveBlocks h, BlockKept h h' b) ∧
    (p = 0 → h'.memory = h.memory ∧ ∀ b, b ∈ liveBlocks h' ↔ b ∈ liveBlocks h) ∧
    (p ≠ 0 → HasRoom h' p size ∧ ∀ b ∈ liveBlocks h, b.pointer ≠ p)

/-- Freeing: a live block goes to a free list, and one that is on a free list stays as it is. -/
def FreeSpec (h : KHeap) (q : UInt64) (h' : KHeap) : Prop :=
  (∀ b ∈ liveBlocks h, b.pointer ≠ q → BlockKept h h' b) ∧
    (∀ b ∈ liveBlocks h, b.pointer = q → b ∈ freeBlocks h') ∧
    (∀ b ∈ freeBlocks h, b.pointer = q → h' = h) ∧ (q = 0 → h' = h)

/-- Growing or shrinking the block `b`. -/
def ReallocSpec (h : KHeap) (b : HeapBlock) (size p : UInt64) (h' : KHeap) : Prop :=
  (∀ c ∈ liveBlocks h, c ≠ b → BlockKept h h' c) ∧
    (p = 0 → BlockKept h h' b) ∧
    (p ≠ 0 → HasRoom h' p size ∧
      bytesAt h'.memory p.toNat (min b.capacity size.toNat) =
        bytesAt h.memory b.pointer.toNat (min b.capacity size.toNat))

def HeapCallSpec (c : HeapClient) (p : UInt64) (c' : HeapClient) : HeapCall → Prop
  | .malloc size _ => MallocSpec c.heap size p c'.heap
  | .free q => FreeSpec c.heap q c'.heap
  | .realloc q size _ =>
    (q = 0 → MallocSpec c.heap size p c'.heap) ∧
      (q ≠ 0 → size = 0 → p = 0 ∧ FreeSpec c.heap q c'.heap) ∧
      (q ≠ 0 → size ≠ 0 → (∀ b ∈ liveBlocks c.heap, b.pointer ≠ q) →
        p = 0 ∧ c'.heap = c.heap) ∧
      ∀ b ∈ liveBlocks c.heap, b.pointer = q → size ≠ 0 → ReallocSpec c.heap b size p c'.heap
  | .write q _ _ => ∀ b ∈ liveBlocks c.heap, b ∈ liveBlocks c'.heap ∧
      (b.pointer ≠ q → BlockKept c.heap c'.heap b)

/-! ### The invariant of a client -/

/-- The pointers handed out are pointers of blocks, and those not given back are the live ones. -/
structure ClientInv (c : HeapClient) (blocks : List HeapBlock) (free : Fin 9 → List HeapBlock) :
    Prop where
  heap : HeapInv c.heap blocks free
  returned : ∀ p ∈ c.returned, ∃ b ∈ blocks, b.pointer = p
  live : ∀ p, p ∈ c.live ↔ ∃ b, LiveIn blocks free b ∧ b.pointer = p

/-- The call returns, keeps the invariant and does what is said of it. -/
def CallOk (c : HeapClient) (call : HeapCall) : Prop :=
  ∃ p c' blocks' free', heapStep c call = some (p, c') ∧ ClientInv c' blocks' free' ∧
    HeapCallSpec c p c' call

variable {size : UInt64}

section

variable {c : HeapClient} {blocks : List HeapBlock} {free : Fin 9 → List HeapBlock}

variable {h' : KHeap} {free' : Fin 9 → List HeapBlock} {blocks' : List HeapBlock} {q : UInt64}

theorem ClientInv.same_memory (hc : ClientInv c blocks free) (hi : HeapInv h' blocks free) :
    ClientInv { c with heap := h' } blocks free :=
  ⟨hi, hc.returned, hc.live⟩

theorem BlockKept.of_same {h : KHeap} (hi : HeapInv h' blocks' free') (hb : LiveIn blocks' free' b)
    (hsame : SameOn h.memory h'.memory b.start.toNat b.size.toNat) : BlockKept h h' b :=
  ⟨hi.mem_liveBlocks.mpr hb, hi.same_bytes hb.1 hsame⟩

theorem HasRoom.of_live (hi : HeapInv h' blocks' free') (hb : LiveIn blocks' free' b)
    (hsize : size.toNat ≤ b.capacity) : HasRoom h' b.pointer size := by
  refine ⟨?_, b, hi.mem_liveBlocks.mpr hb, rfl, hsize⟩
  have := hi.start_aligned hb.1
  rw [hi.toNat_pointer hb.1]
  omega

theorem MallocSpec.of_failed {h : KHeap} (hi : HeapInv h blocks free) (hi' : HeapInv h' blocks free)
    (hmemory : h'.memory = h.memory) (size : UInt64) : MallocSpec h size 0 h' := by
  refine ⟨fun b hb => ?_, fun _ => ⟨hmemory, fun b => ?_⟩, fun h0 => absurd rfl h0⟩
  · refine BlockKept.of_same hi' (hi.mem_liveBlocks.mp hb) ?_
    rw [hmemory]
    exact SameOn.refl _ _ _
  · rw [hi.mem_liveBlocks, hi'.mem_liveBlocks]

theorem MallocSpec.of_handedOut {h : KHeap} (hi : HeapInv h blocks free)
    (hout : HandedOut h blocks free b h' blocks' free') (hsize : size.toNat ≤ b.capacity) :
    MallocSpec h size b.pointer h' := by
  have hb := (hout.live b).mpr (Or.inl rfl)
  refine ⟨fun x hx => ?_, fun h0 => absurd h0 (hout.inv.pointer_ne_zero hb.1), fun _ =>
    ⟨HasRoom.of_live hout.inv hb hsize, fun x hx heq => ?_⟩⟩
  · have hx := hi.mem_liveBlocks.mp hx
    exact BlockKept.of_same hout.inv ((hout.live x).mpr (Or.inr hx)) (hout.same x hx)
  · have hx := hi.mem_liveBlocks.mp hx
    exact hout.fresh (hout.inv.eq_of_pointer (hout.subset hx.1) hb.1 heq ▸ hx)

variable (hc : ClientInv c blocks free)

include hc

theorem ClientInv.receive (hout : HandedOut c.heap blocks free b h' blocks' free') :
    ClientInv (c.receive b.pointer h') blocks' free' := by
  have hb := (hout.live b).mpr (Or.inl rfl)
  rw [HeapClient.receive, if_neg (hout.inv.pointer_ne_zero hb.1)]
  refine ⟨hout.inv, fun p hp => ?_, fun p => ?_⟩
  · rcases List.mem_cons.mp hp with rfl | hp
    · exact ⟨b, hb.1, rfl⟩
    · obtain ⟨x, hx, rfl⟩ := hc.returned p hp
      exact ⟨x, hout.subset hx, rfl⟩
  · rw [List.mem_cons, hc.live]
    constructor
    · rintro (rfl | ⟨x, hx, rfl⟩)
      · exact ⟨b, hb, rfl⟩
      · exact ⟨x, (hout.live x).mpr (Or.inr hx), rfl⟩
    · rintro ⟨x, hx, rfl⟩
      rcases (hout.live x).mp hx with rfl | hx
      · exact Or.inl rfl
      · exact Or.inr ⟨x, hx, rfl⟩

theorem malloc_ok (size : UInt64) (answers : List Bool) :
    ∃ p h' blocks' free', kmalloc c.heap size answers = some (p, h') ∧
      ClientInv (c.receive p h') blocks' free' ∧ MallocSpec c.heap size p h' := by
  rcases kmalloc_spec hc.heap size answers with
    ⟨h', heq, hi', hmemory⟩ | ⟨b, h', blocks', free', heq, hout, hsize⟩
  · refine ⟨0, h', blocks, free, heq, ?_, MallocSpec.of_failed hc.heap hi' hmemory size⟩
    rw [HeapClient.receive, if_pos rfl]
    exact hc.same_memory hi'
  · exact ⟨_, h', blocks', free', heq, hc.receive hout,
      MallocSpec.of_handedOut hc.heap hout hsize⟩

theorem ClientInv.drop (hb : b ∈ blocks) (hi : HeapInv h' blocks (HeapInv.pushFree free b)) :
    ClientInv { c with heap := h', live := c.live.filter (· ≠ b.pointer) } blocks
      (HeapInv.pushFree free b) := by
  refine ⟨hi, hc.returned, fun p => ?_⟩
  dsimp only
  rw [List.mem_filter, hc.live, decide_eq_true_iff]
  constructor
  · rintro ⟨⟨x, hx, rfl⟩, hne⟩
    exact ⟨x, liveIn_pushFree.mpr ⟨hx, fun heq => hne (by rw [heq])⟩, rfl⟩
  · rintro ⟨x, hx, rfl⟩
    obtain ⟨hx, hne⟩ := liveIn_pushFree.mp hx
    exact ⟨⟨x, hx, rfl⟩, fun heq => hne (hc.heap.eq_of_pointer hx.1 hb heq)⟩

theorem ClientInv.drop_dead (hdead : ∀ b, LiveIn blocks free b → b.pointer ≠ q) :
    ClientInv { c with live := c.live.filter (· ≠ q) } blocks free := by
  refine ⟨hc.heap, hc.returned, fun p => ?_⟩
  dsimp only
  rw [List.mem_filter, hc.live, decide_eq_true_iff, and_iff_left_iff_imp]
  rintro ⟨b, hb, rfl⟩
  exact hdead b hb

/-- `kfree` of null or of a pointer handed out meets its specification. -/
theorem free_ok (hq : q = 0 ∨ q ∈ c.returned) : ∃ free',
      ClientInv { c with heap := kfree c.heap q, live := c.live.filter (· ≠ q) } blocks free' ∧
      FreeSpec c.heap q (kfree c.heap q) := by
  have hlive := fun {b} => hc.heap.mem_liveBlocks (b := b)
  by_cases hdead : ∀ b, LiveIn blocks free b → b.pointer ≠ q
  · -- the null pointer, or a block on a free list
    have hnothing : kfree c.heap q = c.heap := by
      rcases hq with rfl | hq
      · exact if_pos rfl
      · obtain ⟨b, hb, rfl⟩ := hc.returned q hq
        have hfree : b ∈ free (classForSize b.size) := by
          by_contra hnot
          exact hdead b ⟨hb, hnot⟩ rfl
        exact kfree_free hc.heap hfree
    rw [hnothing]
    refine ⟨free, hc.drop_dead hdead, fun b hb _ => ⟨hb, rfl⟩, fun b hb heq => ?_,
      fun _ _ _ => rfl, fun _ => rfl⟩
    exact absurd heq (hdead b (hlive.mp hb))
  · push Not at hdead
    obtain ⟨b, hb, rfl⟩ := hdead
    obtain ⟨m', hout, heq, hinv⟩ := kfree_live hc.heap hb.1 hb.2
    have h32 := (hc.heap.mem_bounds hb.1).2.2.2
    refine ⟨_, hc.drop hb.1 hinv, fun x hx hne => ?_, fun x hx hxb => ?_, fun x hx hxb => ?_,
      fun h0 => absurd h0 (hc.heap.pointer_ne_zero hb.1)⟩
    · have hx := hlive.mp hx
      have hxb : x ≠ b := fun h => hne (by rw [h])
      refine BlockKept.of_same hinv (liveIn_pushFree.mpr ⟨hx, hxb⟩) ?_
      rw [heq]
      exact hc.heap.same_of_outside hb.1 hx.1 hxb (by omega) hout
    · obtain rfl := hc.heap.eq_of_pointer (hlive.mp hx).1 hb.1 hxb
      exact hinv.mem_freeBlocks.mpr (HeapInv.mem_pushFree.mpr (Or.inl ⟨rfl, rfl⟩))
    · have hx := hc.heap.mem_freeBlocks.mp hx
      obtain rfl := hc.heap.eq_of_pointer (hc.heap.free_mem _ x hx).1 hb.1 hxb
      exact absurd hx hb.2

theorem write_ok {offset : Nat} {data : List UInt8}
    (hvalid : (HeapCall.write q offset data).Valid c) : CallOk c (.write q offset data) := by
  obtain ⟨hq, hroom⟩ := hvalid
  obtain ⟨b, hb, rfl⟩ := (hc.live q).mp hq
  have hroom := hroom b (hc.heap.mem_liveBlocks.mpr hb) rfl
  have hp := hc.heap.toNat_pointer hb.1
  have hout : SameOutside c.heap.memory
      (storeBytes c.heap.memory (b.pointer.toNat + offset) data) (b.start.toNat + 16) b.capacity :=
    (storeBytes_sameOutside c.heap.memory _ data).mono (by omega) (by omega)
  have hi := hc.heap.payload hb.1 hout
  refine ⟨0, _, blocks, free, rfl, hc.same_memory hi, fun x hx => ?_⟩
  have hx := hc.heap.mem_liveBlocks.mp hx
  refine ⟨hi.mem_liveBlocks.mpr hx, fun hne => BlockKept.of_same hi hx ?_⟩
  have hxb : x ≠ b := fun h => hne (by rw [h])
  have h32 := (hc.heap.mem_bounds hb.1).2.2.2
  exact hc.heap.same_of_outside hb.1 hx.1 hxb (Nat.le_refl _) (hout.mono (by omega) (by
    rw [HeapBlock.capacity]
    omega))

theorem ClientInv.keep (hb : LiveIn blocks free b) :
    ClientInv ({ c with live := c.live.filter (· ≠ b.pointer) }.receive b.pointer c.heap) blocks
      free := by
  rw [HeapClient.receive, if_neg (hc.heap.pointer_ne_zero hb.1)]
  refine ⟨hc.heap, fun p hp => ?_, fun p => ?_⟩
  · rcases List.mem_cons.mp hp with rfl | hp
    · exact ⟨b, hb.1, rfl⟩
    · exact hc.returned p hp
  · dsimp only
    rw [List.mem_cons, List.mem_filter, decide_eq_true_iff, hc.live]
    by_cases hp : p = b.pointer
    · subst hp
      exact ⟨fun _ => ⟨b, hb, rfl⟩, fun _ => Or.inl rfl⟩
    · simp [hp]

theorem ClientInv.move {x : HeapBlock} (hb : LiveIn blocks free b) {h'' : KHeap}
    (hout : HandedOut c.heap blocks free x h' blocks' free')
    (hi : HeapInv h'' blocks' (HeapInv.pushFree free' b)) :
    ClientInv ({ c with live := c.live.filter (· ≠ b.pointer) }.receive x.pointer h'') blocks'
      (HeapInv.pushFree free' b) := by
  have hx := (hout.live x).mpr (Or.inl rfl)
  have hb' := (hout.live b).mpr (Or.inr hb)
  have hne : x.pointer ≠ b.pointer := fun heq =>
    hout.fresh (hout.inv.eq_of_pointer hx.1 hb'.1 heq ▸ hb)
  have hdrop := (hc.receive hout).drop hb'.1 hi
  rw [HeapClient.receive, if_neg (hout.inv.pointer_ne_zero hx.1)] at hdrop ⊢
  rw [List.filter_cons_of_pos (by simp [hne])] at hdrop
  exact hdrop

theorem realloc_null_ok (size : UInt64) (answers : List Bool) :
    CallOk c (.realloc 0 size answers) := by
  obtain ⟨p, h', blocks', free', heq, hinv, hspec⟩ := malloc_ok hc size answers
  have hfilter : c.live.filter (· ≠ 0) = c.live := by
    refine List.filter_eq_self.mpr fun p hp => decide_eq_true ?_
    obtain ⟨b, hb, rfl⟩ := (hc.live p).mp hp
    exact hc.heap.pointer_ne_zero hb.1
  have hstep : heapStep c (.realloc 0 size answers) = some (p, c.receive p h') := by
    rw [heapStep, krealloc, if_pos rfl, heq, Option.map_some, hfilter]
    by_cases hp : p ≠ 0 ∨ size = 0
    · dsimp only
      rw [if_pos hp]
    · dsimp only
      rw [if_neg hp, HeapClient.receive, if_pos (by simpa using (not_or.mp hp).1)]
  refine ⟨p, _, blocks', free', hstep, hinv, fun _ => ?_, fun h0 => absurd rfl h0,
    fun h0 => absurd rfl h0, fun b hb h0 => ?_⟩
  · rw [show (c.receive p h').heap = h' by
      rw [HeapClient.receive]
      split_ifs <;> rfl]
    exact hspec
  · exact absurd h0 (hc.heap.pointer_ne_zero (hc.heap.mem_liveBlocks.mp hb).1)

theorem realloc_zero_ok (hq : q ∈ c.returned) (hq0 : q ≠ 0) (answers : List Bool) :
    CallOk c (.realloc q 0 answers) := by
  obtain ⟨free', hinv, hspec⟩ := free_ok hc (Or.inr hq)
  refine ⟨0, { c with heap := kfree c.heap q, live := c.live.filter (· ≠ q) }, blocks, free', ?_,
    hinv, fun h0 => absurd h0 hq0, fun _ _ => ⟨rfl, hspec⟩, fun _ h0 => absurd rfl h0,
    fun _ _ _ h0 => absurd rfl h0⟩
  rw [heapStep, krealloc, if_neg hq0, if_pos rfl, Option.map_some]
  rfl

/-- `krealloc` of a block of the heap meets its specification. -/
theorem realloc_ok (hb : b ∈ blocks) (hsize : size ≠ 0) (answers : List Bool) :
    CallOk c (.realloc b.pointer size answers) := by
  have hi := hc.heap
  have hlive := fun {b} => hi.mem_liveBlocks (b := b)
  have hp0 := hi.pointer_ne_zero hb
  have hsame : ∀ x ∈ liveBlocks c.heap, x.pointer = b.pointer → x = b := fun x hx heq =>
    hi.eq_of_pointer (hlive.mp hx).1 hb heq
  -- what is left of the specification when the pointer and the size are not zero
  have hspec : ∀ {p : UInt64} {c' : HeapClient}, (¬ LiveIn blocks free b → p = 0 ∧
      c'.heap = c.heap) → (LiveIn blocks free b → ReallocSpec c.heap b size p c'.heap) →
      HeapCallSpec c p c' (.realloc b.pointer size answers) := by
    refine fun hdead hgrow => ⟨fun h0 => absurd h0 hp0, fun _ h0 => absurd h0 hsize,
      fun _ _ hnot => hdead fun h => hnot b (hlive.mpr h) rfl, fun x hx heq _ => ?_⟩
    obtain rfl := hsame x hx heq
    exact hgrow (hlive.mp hx)
  rcases krealloc_spec hi hb hsize answers with ⟨hdead, heq⟩ | ⟨hblive, hfits, heq⟩ |
    ⟨hblive, h', heq, hi', hmemory⟩ |
    ⟨hblive, hcap, x, h', h'', blocks', free', heq, hout, hroom, hi', hkept, hbytes⟩
  · refine ⟨0, c, blocks, free, ?_, hc, hspec (fun _ => ⟨rfl, rfl⟩) fun h => absurd h hdead⟩
    rw [heapStep, heq, Option.map_some]
    exact congrArg some (if_neg (by simp [hsize]))
  · refine ⟨b.pointer, _, blocks, free, ?_, hc.keep hblive, hspec (fun h => absurd hblive h)
      fun _ => ?_⟩
    · rw [heapStep, heq, Option.map_some]
      exact congrArg some (if_pos (Or.inl hp0))
    · rw [HeapClient.receive, if_neg hp0]
      exact ⟨fun y hy _ => ⟨hy, rfl⟩, fun h0 => absurd h0 hp0, fun _ =>
        ⟨HasRoom.of_live hi hblive hfits, rfl⟩⟩
  · refine ⟨0, _, blocks, free, ?_, hc.same_memory hi', hspec (fun h => absurd hblive h)
      fun _ => ?_⟩
    · rw [heapStep, heq, Option.map_some]
      exact congrArg some (if_neg (by simp [hsize]))
    · have hkeep := (MallocSpec.of_failed hi hi' hmemory size).1
      exact ⟨fun y hy _ => hkeep y hy, fun _ => hkeep b (hlive.mpr hblive),
        fun h0 => absurd rfl h0⟩
  · have hx := (hout.live x).mpr (Or.inl rfl)
    have hxb : x ≠ b := fun h => hout.fresh (h ▸ hblive)
    have hx0 := hout.inv.pointer_ne_zero hx.1
    refine ⟨x.pointer, _, blocks', _, ?_, hc.move hblive hout hi', hspec
      (fun h => absurd hblive h) fun _ => ?_⟩
    · rw [heapStep, heq, Option.map_some]
      exact congrArg some (if_pos (Or.inl hx0))
    · rw [HeapClient.receive, if_neg hx0]
      refine ⟨fun y hy hyb => ?_, fun h0 => absurd h0 hx0, fun _ =>
        ⟨HasRoom.of_live hi' (liveIn_pushFree.mpr ⟨hx, hxb⟩) hroom, ?_⟩⟩
      · have hy := hlive.mp hy
        exact BlockKept.of_same hi'
          (liveIn_pushFree.mpr ⟨(hout.live y).mpr (Or.inr hy), hyb⟩) (hkept y hy hyb)
      · rw [Nat.min_eq_left hcap]
        exact hbytes

/-- **One call**, from any state with the invariant. -/
theorem heapStep_ok {call : HeapCall} (hvalid : call.Valid c) : CallOk c call := by
  cases call with
  | malloc size answers =>
    obtain ⟨p, h', blocks', free', heq, hinv, hspec⟩ := malloc_ok hc size answers
    refine ⟨p, c.receive p h', blocks', free', by rw [heapStep, heq]; rfl, hinv, ?_⟩
    rw [HeapCallSpec, show (c.receive p h').heap = h' by
      rw [HeapClient.receive]
      split_ifs <;> rfl]
    exact hspec
  | free q =>
    obtain ⟨free', hinv, hspec⟩ := free_ok hc hvalid
    exact ⟨0, _, blocks, free', rfl, hinv, hspec⟩
  | realloc q size answers =>
    by_cases hq : q = 0
    · rw [hq]
      exact realloc_null_ok hc size answers
    · have hreturned : q ∈ c.returned := Or.resolve_left hvalid hq
      by_cases hsize : size = 0
      · rw [hsize]
        exact realloc_zero_ok hc hreturned hq answers
      · obtain ⟨b, hb, rfl⟩ := hc.returned q hreturned
        exact realloc_ok hc hb hsize answers
  | write q offset data => exact write_ok hc hvalid

end

theorem HeapReachable.inv {base : UInt64} {memory : Memory} {c : HeapClient}
    (hreach : HeapReachable base size memory c) : ∃ blocks free, ClientInv c blocks free := by
  induction hreach with
  | start =>
    refine ⟨[], fun _ => [], kheapInit_inv base size memory, ?_, fun p => ?_⟩
    · simp [heapStart]
    · simp [heapStart, LiveIn]
  | step hreach hvalid hstep ih =>
    obtain ⟨blocks, free, hc⟩ := ih
    obtain ⟨p, c', blocks', free', hstep', hc', -⟩ := heapStep_ok hc hvalid
    rw [hstep] at hstep'
    obtain ⟨rfl, rfl⟩ := Prod.mk.inj (Option.some.inj hstep')
    exact ⟨blocks', free', hc'⟩

/-- **Kernel heap partition.**  Whatever the heap's region, the memory it starts with and the
answers of the page source, after any calls and writes of its callers the live blocks and those on
the free lists partition the used part, and the live ones are those not given back.  Every next
call returns, and allocates, frees, moves or refuses as `HeapCallSpec` says. -/
theorem heap_partition (base size : UInt64) (memory : Memory) {c : HeapClient}
    (hreach : HeapReachable base size memory c) : Partitioned c.heap ∧
      (∀ p, p ∈ c.live ↔ ∃ b ∈ liveBlocks c.heap, b.pointer = p) ∧
      (∀ p ∈ c.returned, ∃ b ∈ heapBlocks c.heap, b.pointer = p) ∧
      ∀ call : HeapCall, call.Valid c →
        ∃ p c', heapStep c call = some (p, c') ∧ HeapCallSpec c p c' call := by
  obtain ⟨blocks, free, hc⟩ := hreach.inv
  refine ⟨hc.heap.partitioned, fun p => ?_, fun p hp => ?_, fun call hvalid => ?_⟩
  · simp only [hc.live, hc.heap.mem_liveBlocks]
  · rw [hc.heap.heapBlocks_eq]
    exact hc.returned p hp
  · obtain ⟨p, c', -, -, hstep, -, hspec⟩ := heapStep_ok hc hvalid
    exact ⟨p, c', hstep, hspec⟩

/-- The client after a call. -/
def heapAfter (c : HeapClient) (call : HeapCall) : HeapClient :=
  ((heapStep c call).map Prod.snd).getD c

theorem HeapReachable.after {base : UInt64} {memory : Memory} {c : HeapClient}
    (hreach : HeapReachable base size memory c) {call : HeapCall} (hvalid : call.Valid c) :
    HeapReachable base size memory (heapAfter c call) := by
  rw [heapAfter]
  cases hstep : heapStep c call with
  | none => exact hreach
  | some result => exact hreach.step hvalid hstep

def twoBlocks : HeapClient :=
  heapAfter (heapAfter (heapStart 4096 8192 fun _ => 0) (.malloc 24 [true])) (.malloc 40 [])

def oneFreed : HeapClient := heapAfter twoBlocks (.free 4112)

/-- The first of two blocks is freed; the second has to move to grow. -/
theorem heap_partition_oneFreed : oneFreed.live = [4160] ∧ freeBlocks oneFreed.heap = [⟨4096, 48⟩] ∧
      liveBlocks oneFreed.heap = [⟨4144, 64⟩] ∧ Partitioned oneFreed.heap ∧
      ∃ p c', heapStep oneFreed (.realloc 4160 100 []) = some (p, c') ∧
        HeapCallSpec oneFreed p c' (.realloc 4160 100 []) := by
  have hfacts : (4112 ∈ twoBlocks.returned ∧ 4160 ∈ oneFreed.returned) ∧
      oneFreed.live = [4160] ∧ freeBlocks oneFreed.heap = [⟨4096, 48⟩] ∧
      liveBlocks oneFreed.heap = [⟨4144, 64⟩] := by decide +kernel
  have htwo : HeapReachable 4096 8192 (fun _ => 0) twoBlocks := by
    refine HeapReachable.after (HeapReachable.after HeapReachable.start ?_) ?_
    · exact trivial
    · exact trivial
  have hreach : HeapReachable 4096 8192 (fun _ => 0) oneFreed := by
    refine htwo.after ?_
    exact Or.inr hfacts.1.1
  obtain ⟨hpartition, -, -, hcalls⟩ := heap_partition 4096 8192 (fun _ => 0) hreach
  exact ⟨hfacts.2.1, hfacts.2.2.1, hfacts.2.2.2, hpartition,
    hcalls _ (Or.inr hfacts.1.2)⟩

end Jani
