import Jani.Mm.Heap
import Mathlib.Data.List.Nodup

/-!
# The segregated free lists (`free_list.c`)

Each of the nine heads starts a list that is linked through the nodes of the free blocks.
`FreeLists` says which blocks are on which list: every block is on the list of its class, and no
two blocks share a node.  `classForSize` is monotone and its last class has no upper end, so the
lists below the class of a request hold no block that would do, and `heap_free_list_take` may start
there.

`FreeListRun` is any sequence of calls, with any stores in between that keep to memory outside the
nodes.  The one thing a caller has to respect is that it does not add a block that is still on a
list.  A search has a bound on the number of nodes; that a list is shorter than the bound is all
that is asked of it.
-/

namespace Jani

structure HeapBlock where
  start : UInt64
  size : UInt64
deriving DecidableEq, Repr

/-! ### Classes -/

theorem classLoop_bounds (size : UInt64) : ∀ (remaining index : Nat) (limit : UInt64),
    index ≤ classLoop size remaining index limit ∧
      classLoop size remaining index limit ≤ index + remaining
  | 0, index, _ => ⟨Nat.le_refl _, Nat.le_refl _⟩
  | remaining + 1, index, limit => by
    have ih := classLoop_bounds size remaining (index + 1) (limit * 2)
    rw [classLoop]
    split_ifs
    · omega
    · omega

theorem classLoop_mono {a b : UInt64} (hab : a ≤ b) : ∀ (remaining index : Nat) (limit : UInt64),
    classLoop a remaining index limit ≤ classLoop b remaining index limit
  | 0, _, _ => Nat.le_refl _
  | remaining + 1, index, limit => by
    by_cases ha : a > limit
    · have hb : b > limit := UInt64.lt_of_lt_of_le ha hab
      rw [classLoop, if_pos ha, classLoop, if_pos hb]
      exact classLoop_mono hab _ _ _
    · rw [classLoop, if_neg ha]
      exact (classLoop_bounds b (remaining + 1) index limit).1

theorem classForSize_mono {a b : UInt64} (hab : a ≤ b) : classForSize a ≤ classForSize b := by
  have ha := (classLoop_bounds a 8 0 32).2
  have hb := (classLoop_bounds b 8 0 32).2
  show classLoop a 8 0 32 % 9 ≤ classLoop b 8 0 32 % 9
  rw [Nat.mod_eq_of_lt (by omega), Nat.mod_eq_of_lt (by omega)]
  exact classLoop_mono hab 8 0 32

/-! ### Nodes -/

theorem nodes_apart {p q : UInt64} (hp : 16 ∣ p.toNat) (hq : 16 ∣ q.toNat) (hne : p ≠ q) :
    p.toNat + 16 ≤ q.toNat ∨ q.toNat + 16 ≤ p.toNat := by
  have : p.toNat ≠ q.toNat := fun heq => hne (UInt64.toNat_inj.mp heq)
  omega

theorem SameOn.node {m m' : Memory} {p : UInt64} (h : SameOn m m' p.toNat 16) :
    blockSizeAt m' p = blockSizeAt m p ∧ blockLinkAt m' p = blockLinkAt m p :=
  ⟨h.load64 (Nat.le_refl _) (by omega), h.load64 (by omega) (by omega)⟩

theorem setHeader_spec (m : Memory) (header size link : UInt64) :
    SameOutside m (setBlockLink (setBlockSize m header size) header link) header.toNat 16 ∧
      blockSizeAt (setBlockLink (setBlockSize m header size) header link) header = size ∧
      blockLinkAt (setBlockLink (setBlockSize m header size) header link) header = link := by
  refine ⟨?_, ?_, load64_store64 _ _ _⟩
  · exact ((store64_sameOutside m header.toNat size).mono (Nat.le_refl _) (by omega)).trans
      ((store64_sameOutside _ (header.toNat + 8) link).mono (by omega) (by omega))
  · rw [blockSizeAt, setBlockLink, load64_store64_of_ne _ _ (Or.inl (Nat.le_refl _)), setBlockSize,
      load64_store64]

/-! ### The lists -/

/-- The blocks of `free k` are on the list of class `k`, in order. -/
structure FreeLists (m : Memory) (heads : Fin 9 → UInt64) (free : Fin 9 → List HeapBlock) :
    Prop where
  chain : ∀ k, Chain (blockLinkAt m) (heads k) ((free k).map HeapBlock.start)
  sizes : ∀ k, ∀ b ∈ free k, blockSizeAt m b.start = b.size
  class_eq : ∀ k, ∀ b ∈ free k, classForSize b.size = k
  aligned : ∀ k, ∀ b ∈ free k, 16 ∣ b.start.toNat
  nodup : ∀ k, (free k).Nodup
  start_inj : ∀ j k, ∀ b ∈ free j, ∀ c ∈ free k, b.start = c.start → b = c

namespace FreeLists

variable {m m' : Memory} {heads : Fin 9 → UInt64} {free : Fin 9 → List HeapBlock}

theorem congr (hf : FreeLists m heads free)
    (hsame : ∀ k, ∀ b ∈ free k, SameOn m m' b.start.toNat 16) : FreeLists m' heads free where
  chain k := (hf.chain k).congr fun q hq => by
    obtain ⟨b, hb, rfl⟩ := List.mem_map.mp hq
    exact (hsame k b hb).node.2
  sizes k b hb := (hsame k b hb).node.1.trans (hf.sizes k b hb)
  class_eq := hf.class_eq
  aligned := hf.aligned
  nodup := hf.nodup
  start_inj := hf.start_inj

theorem mem_push {b c : HeapBlock} {k : Fin 9} :
    c ∈ Function.update free (classForSize b.size) (b :: free (classForSize b.size)) k ↔
      (c = b ∧ k = classForSize b.size) ∨ c ∈ free k := by
  by_cases hk : k = classForSize b.size
  · subst hk
    rw [Function.update_self, List.mem_cons]
    simp
  · rw [Function.update_of_ne hk]
    simp [hk]

/-- A block outside the lists becomes the head of its class. -/
theorem push (hf : FreeLists m heads free) {c : HeapBlock} (hne : c.start ≠ 0)
    (haligned : 16 ∣ c.start.toNat) (hfresh : ∀ k, ∀ b ∈ free k, b.start ≠ c.start)
    (hm : SameOutside m m' c.start.toNat 16) (hsize : blockSizeAt m' c.start = c.size)
    (hlink : blockLinkAt m' c.start = heads (classForSize c.size)) :
    FreeLists m' (Function.update heads (classForSize c.size) c.start)
      (Function.update free (classForSize c.size) (c :: free (classForSize c.size))) := by
  have hold : FreeLists m' heads free := hf.congr fun k b hb =>
    hm.sameOn (nodes_apart (hf.aligned k b hb) haligned (hfresh k b hb))
  refine ⟨fun k => ?_, fun k b hb => ?_, fun k b hb => ?_, fun k b hb => ?_, fun k => ?_, ?_⟩
  · by_cases hk : k = classForSize c.size
    · subst hk
      rw [Function.update_self, Function.update_self, List.map_cons]
      refine ⟨rfl, hne, ?_⟩
      rw [hlink]
      exact hold.chain _
    · rw [Function.update_of_ne hk, Function.update_of_ne hk]
      exact hold.chain k
  · rcases mem_push.mp hb with ⟨rfl, -⟩ | hb
    · exact hsize
    · exact hold.sizes k b hb
  · rcases mem_push.mp hb with ⟨rfl, rfl⟩ | hb
    · rfl
    · exact hold.class_eq k b hb
  · rcases mem_push.mp hb with ⟨rfl, -⟩ | hb
    · exact haligned
    · exact hold.aligned k b hb
  · by_cases hk : k = classForSize c.size
    · subst hk
      rw [Function.update_self]
      exact List.nodup_cons.mpr ⟨fun hc => hfresh _ c hc rfl, hold.nodup _⟩
    · rw [Function.update_of_ne hk]
      exact hold.nodup k
  · intro j k b hb d hd heq
    rcases mem_push.mp hb with ⟨hbc, -⟩ | hb'
    · rcases mem_push.mp hd with ⟨hdc, -⟩ | hd'
      · rw [hbc, hdc]
      · exact absurd (heq.symm.trans (congrArg _ hbc)) (hfresh k d hd')
    · rcases mem_push.mp hd with ⟨hdc, -⟩ | hd'
      · exact absurd (heq.trans (congrArg _ hdc)) (hfresh j b hb')
      · exact hold.start_inj j k b hb' d hd' heq

/-! ### Searching -/

end FreeLists

/-- The search through one list: no node is large enough, or it finds the first one that is and
the node before it. -/
theorem searchClass_spec {m : Memory} (minimumSize : UInt64) :
    ∀ {l : List HeapBlock} {fuel : Nat} {previous current : UInt64},
      Chain (blockLinkAt m) current (l.map HeapBlock.start) →
      (∀ b ∈ l, blockSizeAt m b.start = b.size) → l.length < fuel →
      (searchClass m minimumSize fuel previous current = some none ∧
        ∀ b ∈ l, ¬ minimumSize ≤ b.size) ∨
        ∃ before c after, l = before ++ c :: after ∧ minimumSize ≤ c.size ∧
          searchClass m minimumSize fuel previous current =
            some (some ((before.map HeapBlock.start).getLastD previous, c.start))
  | [], fuel + 1, previous, current, hchain, _, _ => by
    left
    rw [searchClass, if_pos (show current = 0 from hchain)]
    simp
  | b :: l, fuel + 1, previous, current, ⟨hcurrent, hne, hchain⟩, hsizes, hfuel => by
    rw [searchClass, hcurrent, if_neg hne, hsizes b List.mem_cons_self]
    by_cases hlarge : b.size ≥ minimumSize
    · exact Or.inr ⟨[], b, l, rfl, hlarge, by rw [if_pos hlarge]; rfl⟩
    · rw [if_neg hlarge]
      rcases searchClass_spec minimumSize hchain (fun c hc => hsizes c (List.mem_cons_of_mem _ hc))
        (Nat.lt_of_succ_lt_succ hfuel) with ⟨hnone, hsmall⟩ | ⟨before, c, after, rfl, hc, hsome⟩
      · exact Or.inl ⟨hnone, List.forall_mem_cons.mpr ⟨hlarge, hsmall⟩⟩
      · refine Or.inr ⟨b :: before, c, after, rfl, hc, ?_⟩
        rw [List.map_cons, List.getLastD_cons]
        exact hsome

variable {h : KHeap}

theorem searchClasses_spec {free : Fin 9 → List HeapBlock} (hf : FreeLists h.memory h.heads free)
    (minimumSize : UInt64) {fuel : Nat} (hfuel : ∀ k, (free k).length < fuel) : ∀ classes,
      (searchClasses h minimumSize fuel classes = some none ∧
        ∀ k ∈ classes, ∀ b ∈ free k, ¬ minimumSize ≤ b.size) ∨
      ∃ k before c after, free k = before ++ c :: after ∧ minimumSize ≤ c.size ∧
        searchClasses h minimumSize fuel classes =
          some (some (k, (before.map HeapBlock.start).getLastD 0, c.start)) := by
  intro classes
  induction classes with
  | nil => exact Or.inl ⟨rfl, by simp⟩
  | cons k classes ih =>
    rw [searchClasses]
    rcases searchClass_spec minimumSize (hf.chain k) (hf.sizes k) (hfuel k) with
      ⟨hnone, hsmall⟩ | ⟨before, c, after, hfree, hc, hsome⟩
    · rw [hnone]
      exact ih.imp_left fun hrest => ⟨hrest.1, List.forall_mem_cons.mpr ⟨hsmall, hrest.2⟩⟩
    · rw [hsome]
      exact Or.inr ⟨k, before, c, after, hfree, hc, rfl⟩

/-! ### Unlinking -/

theorem unlinkNode_eq (h : KHeap) (k : Fin 9) (previous current : UInt64) :
    ∃ m' head, unlinkNode h k previous current =
      { h with memory := m', heads := Function.update h.heads k head } := by
  rw [unlinkNode]
  split_ifs
  · exact ⟨_, _, rfl⟩
  · exact ⟨_, h.heads k, by rw [Function.update_eq_self]⟩

namespace FreeLists

variable {m m' : Memory} {heads : Fin 9 → UInt64} {free : Fin 9 → List HeapBlock} {k : Fin 9}
  {before after : List HeapBlock} {c : HeapBlock}

theorem mem_of_unlinked (hfree : free k = before ++ c :: after) {j : Fin 9} {b : HeapBlock}
    (hb : b ∈ Function.update free k (before ++ after) j) : b ∈ free j := by
  by_cases hj : j = k
  · subst hj
    rw [Function.update_self, List.mem_append] at hb
    rw [hfree, List.mem_append]
    exact hb.imp_right (List.mem_cons_of_mem _)
  · rwa [Function.update_of_ne hj] at hb

theorem replace (hf : FreeLists m heads free) (hfree : free k = before ++ c :: after)
    {head : UInt64} (hchain : Chain (blockLinkAt m') head ((before ++ after).map HeapBlock.start))
    (hsizes : ∀ j, ∀ b ∈ free j, blockSizeAt m' b.start = b.size)
    (hlinks : ∀ j ≠ k, ∀ b ∈ free j, blockLinkAt m' b.start = blockLinkAt m b.start) :
    FreeLists m' (Function.update heads k head) (Function.update free k (before ++ after)) where
  chain j := by
    by_cases hj : j = k
    · subst hj
      rw [Function.update_self, Function.update_self]
      exact hchain
    · rw [Function.update_of_ne hj, Function.update_of_ne hj]
      refine (hf.chain j).congr fun q hq => ?_
      obtain ⟨b, hb, rfl⟩ := List.mem_map.mp hq
      exact hlinks j hj b hb
  sizes j b hb := hsizes j b (mem_of_unlinked hfree hb)
  class_eq j b hb := hf.class_eq j b (mem_of_unlinked hfree hb)
  aligned j b hb := hf.aligned j b (mem_of_unlinked hfree hb)
  nodup j := by
    by_cases hj : j = k
    · subst hj
      rw [Function.update_self]
      have := hf.nodup j
      rw [hfree] at this
      exact (List.nodup_middle.mp this).of_cons
    · rw [Function.update_of_ne hj]
      exact hf.nodup j
  start_inj i j b hb d hd := hf.start_inj i j b (mem_of_unlinked hfree hb) d
    (mem_of_unlinked hfree hd)

/-- The pointer of the node before it is all that has to change for a node to leave its list. -/
theorem relink (hf : FreeLists m heads free) {p : HeapBlock}
    (hfree : free k = (before ++ [p]) ++ c :: after) (hout : SameOutside m m' (p.start.toNat + 8) 8)
    (hlink : blockLinkAt m' p.start = blockLinkAt m c.start) :
    FreeLists m' heads (Function.update free k ((before ++ [p]) ++ after)) := by
  have hpk : p ∈ free k := by simp [hfree]
  have hnode : ∀ j, ∀ b ∈ free j, b ≠ p → SameOn m m' b.start.toNat 16 := by
    intro j b hb hne
    have hstart : b.start ≠ p.start := fun heq => hne (hf.start_inj j k b hb p hpk heq)
    have := nodes_apart (hf.aligned j b hb) (hf.aligned k p hpk) hstart
    exact hout.sameOn (by omega)
  have hsizes : ∀ j, ∀ b ∈ free j, blockSizeAt m' b.start = b.size := by
    intro j b hb
    by_cases hbp : b = p
    · rw [hbp] at hb ⊢
      exact ((hout.sameOn (Or.inl (Nat.le_refl _))).load64 (Nat.le_refl _) (Nat.le_refl _)).trans
        (hf.sizes j p hb)
    · exact (hnode j b hb hbp).node.1.trans (hf.sizes j b hb)
  rw [← Function.update_eq_self k heads]
  refine hf.replace hfree ?_ hsizes fun j hj b hb => (hnode j b hb fun heq => hj ?_).node.2
  · have hchain := hf.chain k
    have hnodup := hf.nodup k
    rw [hfree, List.append_assoc, List.singleton_append] at hchain hnodup
    -- the node before occurs once
    have hrest := (List.nodup_cons.mp (List.nodup_middle.mp hnodup)).1
    rw [List.append_assoc, List.singleton_append, List.map_append, List.map_cons]
    rw [List.map_append, List.map_cons, List.map_cons] at hchain
    refine hchain.unlink hlink fun y hy => ?_
    rw [← List.map_append] at hy
    obtain ⟨b, hb, rfl⟩ := List.mem_map.mp hy
    have hbrest : b ∈ before ++ c :: after := by
      rw [List.mem_append] at hb ⊢
      exact hb.imp_right (List.mem_cons_of_mem _)
    have hbk : b ∈ free k := by
      rw [hfree, List.append_assoc, List.singleton_append, List.mem_append]
      exact (List.mem_append.mp hbrest).imp_right (List.mem_cons_of_mem _)
    exact (hnode k b hbk fun heq => hrest (heq ▸ hbrest)).node.2
  · rw [← hf.class_eq j b hb, heq, hf.class_eq k p hpk]

/-- **Unlinking**: the other blocks stay on their lists in order, and memory changes at most in a
node before the one that goes. -/
theorem unlink {h : KHeap} (hf : FreeLists h.memory h.heads free)
    (hfree : free k = before ++ c :: after) :
    FreeLists (unlinkNode h k ((before.map HeapBlock.start).getLastD 0) c.start).memory
        (unlinkNode h k ((before.map HeapBlock.start).getLastD 0) c.start).heads
        (Function.update free k (before ++ after)) ∧
      ∀ a n, (∀ b ∈ before, a + n ≤ b.start.toNat ∨ b.start.toNat + 16 ≤ a) →
        SameOn h.memory
          (unlinkNode h k ((before.map HeapBlock.start).getLastD 0) c.start).memory a n := by
  have hchain := hf.chain k
  rw [hfree] at hchain
  rcases List.eq_nil_or_concat' before with rfl | ⟨before, p, rfl⟩
  · -- the head of the list is taken
    exact ⟨hf.replace hfree hchain.2.2 hf.sizes fun _ _ _ _ => rfl,
      fun a n _ => SameOn.refl _ a n⟩
  · -- a node further down is taken, and the pointer of the one before it changes
    have hlast : ((before ++ [p]).map HeapBlock.start).getLastD 0 = p.start := by
      rw [List.map_append, List.map_singleton, List.getLastD_concat]
    have hp0 : p.start ≠ 0 := hchain.ne_zero _ (by simp)
    have hout : SameOutside h.memory
        (setBlockLink h.memory p.start (blockLinkAt h.memory c.start)) (p.start.toNat + 8) 8 :=
      store64_sameOutside _ _ _
    rw [hlast, unlinkNode, if_neg hp0]
    refine ⟨hf.relink hfree hout (load64_store64 _ _ _), fun a n hapart => hout.sameOn ?_⟩
    have := hapart p (by simp)
    omega

end FreeLists

/-! ### Calls in any order -/

/-- A node that is reached from a head. -/
def Listed (h : KHeap) (p : UInt64) : Prop :=
  ∃ k l, Chain (blockLinkAt h.memory) (h.heads k) l ∧ p ∈ l

/-- A bound that no search exceeds. -/
def EnoughFuel (h : KHeap) (fuel : Nat) : Prop :=
  ∀ k l, Chain (blockLinkAt h.memory) (h.heads k) l → l.length < fuel

/-- The states that calls lead to.  Memory outside the nodes belongs to others, who may store what
they like in it. -/
inductive FreeListRun : KHeap → Prop
  | reset (h : KHeap) : FreeListRun (heapFreeListReset h)
  | add {h : KHeap} (memory size : UInt64) : FreeListRun h →
      ((heapFreeListAdd h memory size).1 = true → ¬ Listed h memory) →
      FreeListRun (heapFreeListAdd h memory size).2
  | take {h h' : KHeap} (minimumSize : UInt64) (fuel : Nat) {taken : Option (UInt64 × UInt64)} :
      FreeListRun h → EnoughFuel h fuel →
      heapFreeListTake h minimumSize fuel = some (taken, h') → FreeListRun h'
  | store {h : KHeap} (address : Nat) (value : UInt8) : FreeListRun h →
      (∀ p, Listed h p → address < p.toNat ∨ p.toNat + 16 ≤ address) →
      FreeListRun { h with memory := Function.update h.memory address value }

/-- The blocks on each list, as the pointers and sizes in memory have it. -/
def OnLists (h : KHeap) (free : Fin 9 → List HeapBlock) : Prop :=
  ∀ k, Chain (blockLinkAt h.memory) (h.heads k) ((free k).map HeapBlock.start) ∧
    ∀ b ∈ free k, blockSizeAt h.memory b.start = b.size

/-- What is asked of `heap_free_list_take`, given the blocks that are on the lists. -/
structure TakeSpec (h : KHeap) (free : Fin 9 → List HeapBlock) (minimumSize : UInt64)
    (taken : Option (UInt64 × UInt64)) (h' : KHeap) : Prop where
  none_iff : taken = none ↔ ∀ k, ∀ b ∈ free k, ¬ minimumSize ≤ b.size
  unchanged : taken = none → h' = h
  unlinked : ∀ p size, taken = some (p, size) → ∃ k before after,
    free k = before ++ ⟨p, size⟩ :: after ∧ minimumSize ≤ size ∧
      OnLists h' (Function.update free k (before ++ after))

namespace FreeLists

variable {h : KHeap} {free : Fin 9 → List HeapBlock} (hf : FreeLists h.memory h.heads free)

include hf

theorem onLists : OnLists h free :=
  fun k => ⟨hf.chain k, hf.sizes k⟩

theorem listed {k : Fin 9} {b : HeapBlock} (hb : b ∈ free k) :
    Listed h b.start := ⟨k, _, hf.chain k, List.mem_map_of_mem hb⟩

theorem length_lt {fuel : Nat} (hfuel : EnoughFuel h fuel) (k : Fin 9) :
    (free k).length < fuel := by
  have := hfuel k _ (hf.chain k)
  rwa [List.length_map] at this

theorem heapFreeListAdd (memory size : UInt64)
    (hfresh : (heapFreeListAdd h memory size).1 = true → ¬ Listed h memory) :
    ∃ free', FreeLists (heapFreeListAdd h memory size).2.memory
      (heapFreeListAdd h memory size).2.heads free' := by
  rw [Jani.heapFreeListAdd] at hfresh ⊢
  by_cases hrefused : memory = 0 ∨ memory % 16 ≠ 0 ∨ size < heapHeaderSize
  · rw [if_pos hrefused]
    exact ⟨free, hf⟩
  rw [if_neg hrefused] at hfresh ⊢
  simp only [not_or, not_not] at hrefused
  obtain ⟨hne, haligned, -⟩ := hrefused
  have hdvd : 16 ∣ memory.toNat := Nat.dvd_of_mod_eq_zero (by
    have := congrArg UInt64.toNat haligned
    rwa [UInt64.toNat_mod] at this)
  have hother : ∀ k, ∀ b ∈ free k, b.start ≠ memory := by
    rintro k b hb rfl
    exact hfresh rfl (hf.listed hb)
  obtain ⟨hout, hsize, hlink⟩ := setHeader_spec h.memory memory size (h.heads (classForSize size))
  let c : HeapBlock := ⟨memory, size⟩
  exact ⟨_, FreeLists.push (c := c) hf hne hdvd hother hout hsize hlink⟩

/-- **One take**: the lists below the class of the request hold nothing that is large enough. -/
theorem heapFreeListTake {minimumSize : UInt64} (hne : minimumSize ≠ 0) {fuel : Nat}
    (hfuel : ∀ k, (free k).length < fuel) :
    ∃ taken h' free', heapFreeListTake h minimumSize fuel = some (taken, h') ∧
      FreeLists h'.memory h'.heads free' ∧ TakeSpec h free minimumSize taken h' := by
  rw [Jani.heapFreeListTake, if_neg hne]
  rcases searchClasses_spec hf minimumSize hfuel
    ((List.finRange 9).filter fun k => classForSize minimumSize ≤ k) with
    ⟨hnone, hsmall⟩ | ⟨k, before, c, after, hfree, hc, hsome⟩
  · rw [hnone]
    refine ⟨none, h, free, rfl, hf, ⟨fun _ k b hb hle => ?_, fun _ => rfl⟩, fun _ => rfl, ?_⟩
    · have hclass := classForSize_mono hle
      rw [hf.class_eq k b hb] at hclass
      exact hsmall k (by simp [hclass]) b hb hle
    · simp
  · rw [hsome]
    have hck : c ∈ free k := by simp [hfree]
    obtain ⟨hlists, -⟩ := hf.unlink hfree
    refine ⟨_, _, _, rfl, hlists, ⟨?_, ?_⟩, ?_, fun p size htaken => ?_⟩
    · simp
    · exact fun hsmall => absurd hc (hsmall k c hck)
    · simp
    · obtain ⟨rfl, rfl⟩ := Prod.mk.inj (Option.some.inj htaken)
      rw [hf.sizes k c hck]
      exact ⟨k, before, after, hfree, hc, hlists.onLists⟩

end FreeLists

theorem FreeListRun.lists (hrun : FreeListRun h) : ∃ free, FreeLists h.memory h.heads free := by
  induction hrun with
  | reset h =>
    refine ⟨fun _ => [], fun k => rfl, ?_, ?_, ?_, fun _ => List.nodup_nil, ?_⟩
    all_goals simp
  | add memory size _ hfresh ih =>
    obtain ⟨free, hf⟩ := ih
    exact hf.heapFreeListAdd memory size hfresh
  | take minimumSize fuel _ hfuel htake ih =>
    obtain ⟨free, hf⟩ := ih
    by_cases hzero : minimumSize = 0
    · rw [heapFreeListTake, if_pos hzero] at htake
      obtain ⟨-, rfl⟩ := Prod.mk.inj (Option.some.inj htake)
      exact ⟨free, hf⟩
    · obtain ⟨taken, h', free', heq, hf', -⟩ := hf.heapFreeListTake hzero (hf.length_lt hfuel)
      rw [htake] at heq
      obtain ⟨-, rfl⟩ := Prod.mk.inj (Option.some.inj heq)
      exact ⟨free', hf'⟩
  | store address value _ hoff ih =>
    obtain ⟨free, hf⟩ := ih
    refine ⟨free, hf.congr fun k b hb x hx hx' => Function.update_of_ne ?_ _ _⟩
    have := hoff _ (hf.listed hb)
    omega

instance (h : KHeap) (free : Fin 9 → List HeapBlock) : Decidable (OnLists h free) :=
  inferInstanceAs (Decidable (∀ k, _ ∧ ∀ b ∈ free k, _ = _))

theorem OnLists.not_listed {free : Fin 9 → List HeapBlock} (hon : OnLists h free) {p : UInt64}
    (hp : ∀ k, p ∉ (free k).map HeapBlock.start) : ¬ Listed h p := by
  rintro ⟨k, l, hchain, hl⟩
  rw [hchain.unique (hon k).1] at hl
  exact hp k hl

theorem OnLists.unique {free free' : Fin 9 → List HeapBlock} (hon : OnLists h free)
    (hon' : OnLists h free') : free = free' := by
  -- the pointers are those of the chain, and the sizes are those in memory
  have hblocks : ∀ {free : Fin 9 → List HeapBlock}, OnLists h free → ∀ k,
      ((free k).map HeapBlock.start).map (fun p => ⟨p, blockSizeAt h.memory p⟩) = free k := by
    intro free hon k
    rw [List.map_map]
    refine (List.map_congr_left fun b hb => ?_).trans (List.map_id _)
    rw [Function.comp_apply, (hon k).2 b hb]
    rfl
  funext k
  rw [← hblocks hon k, (hon k).1.unique (hon' k).1, hblocks hon' k]

/-- **Segregated free lists.**  After any calls and stores that add no block twice, a request for
at least one byte finds nothing exactly if no block on any list is large enough.  Otherwise it takes
one that is off its list and reports its size, and every other block stays on its list in order.  A
request for nothing gets nothing. -/
theorem free_list_take_complete (hrun : FreeListRun h) : ∃ free, OnLists h free ∧
      (∀ minimumSize, minimumSize ≠ 0 → ∀ fuel, (∀ k, (free k).length < fuel) →
        ∃ taken h', heapFreeListTake h minimumSize fuel = some (taken, h') ∧
          TakeSpec h free minimumSize taken h') ∧
      ∀ fuel, heapFreeListTake h 0 fuel = some (none, h) := by
  obtain ⟨free, hf⟩ := hrun.lists
  refine ⟨free, hf.onLists, fun minimumSize hne fuel hfuel => ?_, fun fuel => if_pos rfl⟩
  obtain ⟨taken, h', -, heq, -, hspec⟩ := hf.heapFreeListTake hne hfuel
  exact ⟨taken, h', heq, hspec⟩

/-- Lists with nothing on them. -/
def noBlocks : KHeap := heapFreeListReset ⟨0, 0, 0, 0, fun _ => 0, fun _ => 0⟩

def oneListed : KHeap := (heapFreeListAdd noBlocks 4096 48).2

def twoListed : KHeap := (heapFreeListAdd oneListed 8192 48).2

def threeListed : KHeap := (heapFreeListAdd twoListed 12288 200).2

/-- Two blocks of one class, and a larger one. -/
def threeBlocks : Fin 9 → List HeapBlock :=
  fun k => if k.val = 1 then [⟨8192, 48⟩, ⟨4096, 48⟩] else if k.val = 3 then [⟨12288, 200⟩] else []

theorem listed_blocks : OnLists noBlocks (fun _ => []) ∧
    OnLists oneListed (Function.update (fun _ => []) 1 [⟨4096, 48⟩]) ∧
    OnLists twoListed (Function.update (fun _ => []) 1 [⟨8192, 48⟩, ⟨4096, 48⟩]) ∧
    OnLists threeListed threeBlocks := by
  decide +kernel

theorem threeListed_run : FreeListRun threeListed := by
  obtain ⟨hnone, hone, htwo, -⟩ := listed_blocks
  refine .add 12288 200 (.add 8192 48 (.add 4096 48 (.reset _) fun _ => ?_) fun _ => ?_) fun _ => ?_
  · exact hnone.not_listed (by decide)
  · exact hone.not_listed (by decide)
  · exact htwo.not_listed (by decide)

/-- A request for sixty bytes passes the two blocks of its class, which have forty-eight. -/
theorem free_list_take_complete_threeListed : OnLists threeListed threeBlocks ∧
    (∃ h', heapFreeListTake threeListed 60 3 = some (some (12288, 200), h') ∧
      TakeSpec threeListed threeBlocks 60 (some (12288, 200)) h') ∧
    heapFreeListTake threeListed 0 3 = some (none, threeListed) := by
  have htaken : (heapFreeListTake threeListed 60 3).map Prod.fst = some (some (12288, 200)) := by
    decide +kernel
  obtain ⟨free, hon, htake, hzero⟩ := free_list_take_complete threeListed_run
  obtain rfl := hon.unique listed_blocks.2.2.2
  obtain ⟨taken, h', heq, hspec⟩ := htake 60 (by decide) 3 (by decide)
  rw [heq] at htaken
  obtain rfl : taken = some (12288, 200) := Option.some.inj htaken
  exact ⟨hon, ⟨h', heq, hspec⟩, hzero 3⟩

/-- The same block added once more: its pointer leads to itself. -/
def listedTwice : KHeap := (heapFreeListAdd oneListed 4096 48).2

theorem searchClass_listedTwice (fuel : Nat) : ∀ previous,
    searchClass listedTwice.memory 60 fuel previous 4096 = none := by
  have hnode : blockSizeAt listedTwice.memory 4096 = 48 ∧
      blockLinkAt listedTwice.memory 4096 = 4096 := by decide +kernel
  induction fuel with
  | zero => exact fun _ => rfl
  | succ fuel ih =>
    intro previous
    rw [searchClass, if_neg (by decide), hnode.1, if_neg (by decide), hnode.2]
    exact ih 4096

/-- A request for nothing gets nothing, although a block is there.  A block that was added twice
makes a search go round for ever. -/
theorem free_list_take_zero_or_twice :
    (∃ free, OnLists oneListed free ∧ (∃ k, ∃ b ∈ free k, (0 : UInt64) ≤ b.size) ∧
      ∀ fuel, heapFreeListTake oneListed 0 fuel = some (none, oneListed)) ∧
    ∀ fuel, heapFreeListTake listedTwice 60 fuel = none := by
  refine ⟨⟨_, listed_blocks.2.1, ⟨1, ⟨4096, 48⟩, by decide, by decide⟩, fun _ => rfl⟩,
    fun fuel => ?_⟩
  · have hclasses : (List.finRange 9).filter (fun k => classForSize 60 ≤ k) =
        [1, 2, 3, 4, 5, 6, 7, 8] := by decide
    have hhead : listedTwice.heads 1 = 4096 := by decide +kernel
    rw [heapFreeListTake, if_neg (by decide), hclasses, searchClasses, hhead,
      searchClass_listedTwice]

end Jani
