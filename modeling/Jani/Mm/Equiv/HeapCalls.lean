import Jani.Mm.Equiv.Heap

/-!
# What the heap's calls do to the partition

`kmalloc` either takes a block off a free list or adds one at the end of the used part; in both
cases the live blocks are those from before and the one that is handed out (`kmalloc_spec`).
`krealloc` allocates, copies and frees (`krealloc_spec`).  The search through the free lists ends
because a list holds every block at most once.
-/

namespace Jani

/-- A block that is on no free list. -/
def LiveIn (blocks : List HeapBlock) (free : Fin 9 → List HeapBlock) (b : HeapBlock) : Prop :=
  b ∈ blocks ∧ b ∉ free (classForSize b.size)

section

variable {h : KHeap} {blocks : List HeapBlock} {free : Fin 9 → List HeapBlock}

/-! ### Taking a block off a free list -/

/-- Taking a block off its free list makes it live. -/
theorem HeapInv.take (hi : HeapInv h blocks free) {k : Fin 9} {before after : List HeapBlock}
    {c : HeapBlock} (hfree : free k = before ++ c :: after) {m' : Memory} {head : UInt64}
    (hlists : FreeLists m' (Function.update h.heads k head)
      (Function.update free k (before ++ after)))
    (hsize : blockSizeAt m' c.start = c.size)
    (hsame : ∀ b ∈ blocks, b ∉ free k → SameOn h.memory m' b.start.toNat b.size.toNat)
    (hmagic : blockLinkAt m' c.start = heapAllocationMagic) :
    HeapInv { h with memory := m', heads := Function.update h.heads k head } blocks
      (Function.update free k (before ++ after)) := by
  -- another block is on the lists as it was before
  have hkeep : ∀ b, b ≠ c → ∀ j, b ∈ free j → b ∈ Function.update free k (before ++ after) j := by
    intro b hbc j hb
    by_cases hj : j = k
    · rw [hj, hfree, List.mem_append, List.mem_cons] at hb
      rw [hj, Function.update_self, List.mem_append]
      exact hb.imp_right fun hb => hb.resolve_left hbc
    · rwa [Function.update_of_ne hj]
  exact {
    base_aligned := hi.base_aligned
    base_pos := hi.base_pos
    tiles := hi.tiles
    le_limit := hi.le_limit
    sizes := fun b hb => by
      by_cases hbc : b = c
      · rw [hbc]
        exact hsize
      by_cases hbk : b ∈ free k
      · exact hlists.sizes k b (hkeep b hbc k hbk)
      · exact ((hsame b hb hbk).header (hi.mem_bounds hb).2.2.2).1.trans (hi.sizes b hb)
    chain := hlists.chain
    free_mem := fun j b hb =>
      ⟨(hi.free_mem j b (FreeLists.mem_of_unlinked hfree hb)).1, hlists.class_eq j b hb⟩
    nodup := hlists.nodup
    live := fun b hb hlive => by
      by_cases hbc : b = c
      · rw [hbc]
        exact hmagic
      have hbfree : b ∉ free (classForSize b.size) := fun hmem => hlive (hkeep b hbc _ hmem)
      have hbk : b ∉ free k := fun hmem => hbfree (by rwa [(hi.free_mem k b hmem).2])
      exact ((hsame b hb hbk).header (hi.mem_bounds hb).2.2.2).2.trans (hi.live b hb hbfree)
    mapped_aligned := hi.mapped_aligned
    canonical_mapped := hi.canonical_mapped
    canonical_used := hi.canonical_used }

/-- **Taking a block off a free list**: the block is handed out, and no other block that is live
changes. -/
theorem take_spec (hi : HeapInv h blocks free) {k : Fin 9} {before after : List HeapBlock}
    {c : HeapBlock} (hfree : free k = before ++ c :: after) : ∃ m' head,
      { unlinkNode h k ((before.map HeapBlock.start).getLastD 0) c.start with
        memory := writeHeader
          (unlinkNode h k ((before.map HeapBlock.start).getLastD 0) c.start).memory c.start
          c.size } = { h with memory := m', heads := Function.update h.heads k head } ∧
      HeapInv { h with memory := m', heads := Function.update h.heads k head } blocks
        (Function.update free k (before ++ after)) ∧
      ∀ b, LiveIn blocks free b → SameOn h.memory m' b.start.toNat b.size.toNat := by
  have hin : ∀ b ∈ before ++ c :: after, b ∈ free k := fun b hb => by rwa [hfree]
  have hck : c ∈ free k := hin c (by simp)
  have hcb : c ∈ blocks := (hi.free_mem k c hck).1
  have hcrest : c ∉ before ++ after := by
    have hnodup := hi.nodup k
    rw [hfree] at hnodup
    exact (List.nodup_cons.mp (List.nodup_middle.mp hnodup)).1
  have hapart : ∀ b ∈ blocks, ∀ x ∈ free k, b ≠ x →
      b.start.toNat + b.size.toNat ≤ x.start.toNat ∨ x.start.toNat + 16 ≤ b.start.toNat := by
    intro b hb x hx hne
    have hxb := (hi.free_mem k x hx).1
    have := (hi.mem_bounds hxb).2.2.2
    have := hi.tiles.apart hb hxb hne
    omega
  obtain ⟨hlists, hmemory⟩ := hi.freeLists.unlink hfree
  obtain ⟨m₁, head, hunlink⟩ :=
    unlinkNode_eq h k ((before.map HeapBlock.start).getLastD 0) c.start
  rw [hunlink] at hlists hmemory ⊢
  obtain ⟨hout, hsize, hlink⟩ := setHeader_spec m₁ c.start c.size heapAllocationMagic
  -- the block's own header is on no list any more
  have hlists' : FreeLists (writeHeader m₁ c.start c.size) (Function.update h.heads k head)
      (Function.update free k (before ++ after)) := by
    refine hlists.congr fun j b hb => hout.sameOn ?_
    have hbj := FreeLists.mem_of_unlinked hfree hb
    have hne : b ≠ c := by
      rintro rfl
      rw [← hlists.class_eq j b hb, (hi.free_mem k b hck).2, Function.update_self] at hb
      exact hcrest hb
    exact nodes_apart (hlists.aligned j b hb) (hi.start_aligned hcb) fun heq =>
      hne (hi.tiles.eq_of_start (hi.free_mem j b hbj).1 hcb heq)
  have hsame : ∀ b ∈ blocks, b ∉ free k →
      SameOn h.memory (writeHeader m₁ c.start c.size) b.start.toNat b.size.toNat := by
    intro b hb hbk
    have hne : ∀ x ∈ free k, b ≠ x := fun x hx heq => hbk (heq ▸ hx)
    refine (hmemory _ _ fun x hx => ?_).trans (hout.sameOn (hapart b hb c hck (hne c hck)))
    have hxk : x ∈ free k := hin x (List.mem_append_left _ hx)
    exact hapart b hb x hxk (hne x hxk)
  exact ⟨_, head, rfl, hi.take hfree hlists' hsize hsame hlink, fun b hb =>
    hsame b hb.1 fun hbk => hb.2 (by rwa [(hi.free_mem k b hbk).2])⟩

end

/-! ### Sizes -/

theorem toNat_alignUp {value : UInt64} (h : value.toNat + 15 < 2 ^ 64) :
    (alignUp value heapAlignment).toNat = (value.toNat + 15) / 16 * 16 := by
  have hmask : (~~~(heapAlignment - 1)).toNat = (2 ^ 60 - 1) * 2 ^ 4 := by decide
  have hadd : (value + (heapAlignment - 1)).toNat = value.toNat + 15 := by
    rw [UInt64.toNat_add, show (heapAlignment - 1).toNat = 15 by decide, Nat.mod_eq_of_lt h]
  rw [alignUp, toNat_and_mask hmask, hadd]
  omega

theorem alignUp_of_dvd {value : UInt64} (h : 16 ∣ value.toNat) :
    alignUp value heapAlignment = value := by
  have hlt := value.toNat_lt
  apply UInt64.toNat_inj.mp
  rw [toNat_alignUp (by omega)]
  omega

theorem calculateBlockSize_spec {size blockSize : UInt64} (hsize : size ≠ 0)
    (h : calculateBlockSize size = some blockSize) :
    size.toNat + 16 ≤ blockSize.toNat ∧ 16 ∣ blockSize.toNat ∧ 32 ≤ blockSize.toNat := by
  have hpos : size.toNat ≠ 0 := fun h0 => hsize (UInt64.toNat_inj.mp h0)
  unfold calculateBlockSize at h
  dsimp only at h
  split_ifs at h with h1 h2
  rw [gt_iff_lt, UInt64.not_lt, UInt64.le_iff_toNat_le,
    show (0xffffffffffffffff - heapHeaderSize).toNat = 2 ^ 64 - 17 by decide] at h1
  have hadd : (size + heapHeaderSize).toNat = size.toNat + 16 := by
    rw [UInt64.toNat_add, show heapHeaderSize.toNat = 16 by decide, Nat.mod_eq_of_lt (by omega)]
  rw [gt_iff_lt, UInt64.not_lt, UInt64.le_iff_toNat_le, hadd,
    show (0xffffffffffffffff - (heapAlignment - 1)).toNat = 2 ^ 64 - 16 by decide] at h2
  rw [← Option.some.inj h, toNat_alignUp (by omega), hadd]
  omega

/-! ### Mapping pages -/

/-- Only canonical pages get mapped, and when the loop succeeds the pages suffice. -/
theorem mapPages_spec (newNext : UInt64) {first : Nat} : ∀ (answers : List Bool)
    {mappedEnd : UInt64}, mappedEnd.toNat % 4096 = 0 → CanonicalPages first mappedEnd.toNat →
      (mapPages newNext answers mappedEnd).2.toNat % 4096 = 0 ∧
        CanonicalPages first (mapPages newNext answers mappedEnd).2.toNat ∧
        ((mapPages newNext answers mappedEnd).1 = true →
          newNext.toNat ≤ (mapPages newNext answers mappedEnd).2.toNat)
  | [], mappedEnd, haligned, hcanonical => by
    refine ⟨haligned, hcanonical, fun hok => ?_⟩
    rw [mapPages, Bool.not_eq_true', decide_eq_false_iff_not, UInt64.not_lt,
      UInt64.le_iff_toNat_le] at hok
    exact hok
  | granted :: answers, mappedEnd, haligned, hcanonical => by
    rw [mapPages]
    by_cases hlt : mappedEnd < newNext
    · rw [if_pos hlt]
      split
      · rename_i hmap
        have hpage : addressIsCanonical mappedEnd = true := (Bool.and_eq_true_iff.mp hmap).2
        have hadd : (mappedEnd + heapPageSize).toNat = (mappedEnd.toNat + 4096) % 2 ^ 64 := by
          rw [UInt64.toNat_add, show heapPageSize.toNat = 4096 by decide]
        have hend := mappedEnd.toNat_lt
        refine mapPages_spec newNext answers (by omega) fun page hpage' hfirst hlast => ?_
        -- beyond the last page of the address space nothing is left to show
        by_cases heq : page.toNat = mappedEnd.toNat
        · rw [UInt64.toNat_inj.mp heq]
          exact hpage
        · exact hcanonical page hpage' hfirst (by omega)
      · exact ⟨haligned, hcanonical, fun h => absurd h Bool.false_ne_true⟩
    · rw [if_neg hlt]
      exact ⟨haligned, hcanonical, fun _ => UInt64.le_iff_toNat_le.mp (UInt64.not_lt.mp hlt)⟩

/-! ### Allocation -/

/-- `b` was handed out: it is the only new live block, and no other live block changed. -/
structure HandedOut (h : KHeap) (blocks : List HeapBlock) (free : Fin 9 → List HeapBlock)
    (b : HeapBlock) (h' : KHeap) (blocks' : List HeapBlock) (free' : Fin 9 → List HeapBlock) :
    Prop where
  inv : HeapInv h' blocks' free'
  subset : blocks ⊆ blocks'
  live : ∀ x, LiveIn blocks' free' x ↔ x = b ∨ LiveIn blocks free x
  fresh : ¬ LiveIn blocks free b
  same : ∀ x, LiveIn blocks free x → SameOn h.memory h'.memory x.start.toNat x.size.toNat

section

variable {h : KHeap} {blocks : List HeapBlock} {free : Fin 9 → List HeapBlock}

theorem HeapInv.mapped (hi : HeapInv h blocks free) {mappedEnd : UInt64}
    (haligned : mappedEnd.toNat % 4096 = 0)
    (hcanonical : CanonicalPages h.base.toNat mappedEnd.toNat) :
    HeapInv { h with mappedEnd := mappedEnd } blocks free :=
  { hi with mapped_aligned := haligned, canonical_mapped := hcanonical }

/-- A new block at the end of the heap, in pages that are mapped, can be handed out. -/
theorem HeapInv.append (hi : HeapInv h blocks free) {b : HeapBlock} (hbase : h.base ≠ 0)
    (hstart : b.start = h.next) (halign : 16 ∣ b.size.toNat) (hsize : 32 ≤ b.size.toNat)
    {next mappedEnd : UInt64} (hnext : next.toNat = h.next.toNat + b.size.toNat)
    (hlimit : next.toNat ≤ h.limit.toNat) (haligned : mappedEnd.toNat % 4096 = 0)
    (hcanonical : CanonicalPages h.base.toNat mappedEnd.toNat)
    (hmapped : next.toNat ≤ mappedEnd.toNat) : HandedOut h blocks free b
      { h with
        mappedEnd := mappedEnd
        memory := writeHeader h.memory b.start b.size
        next := next }
      (blocks ++ [b]) free := by
  obtain ⟨hout, hbsize, hlink⟩ := setHeader_spec h.memory b.start b.size heapAllocationMagic
  have hsame : ∀ x ∈ blocks, SameOn h.memory (writeHeader h.memory b.start b.size)
      x.start.toNat x.size.toNat := fun x hx => hout.sameOn (Or.inl (by
    rw [hstart]
    exact (hi.mem_bounds hx).2.1))
  have hbnew : b ∉ blocks := fun hb => by
    have := (hi.mem_bounds hb).2.1
    rw [hstart] at this
    omega
  have hbfree : ∀ k, b ∉ free k := fun k hb => hbnew (hi.free_mem k b hb).1
  refine ⟨{ hi with
      base_pos := fun h0 => absurd h0 hbase
      tiles := ?_
      le_limit := hlimit
      sizes := ?_
      chain := ?_
      free_mem := ?_
      live := ?_
      mapped_aligned := haligned
      canonical_mapped := hcanonical
      canonical_used := ?_ }, fun x hx => List.mem_append_left _ hx, ?_, fun hb => hbnew hb.1,
    fun x hx => hsame x hx.1⟩
  · have := hi.tiles.snoc (by rw [hstart]) halign hsize
    dsimp only
    rw [hnext]
    exact this
  · intro x hx
    rcases List.mem_append.mp hx with hx | hx
    · exact ((hsame x hx).header (hi.mem_bounds hx).2.2.2).1.trans (hi.sizes x hx)
    · rw [List.mem_singleton.mp hx]
      exact hbsize
  · intro k
    refine (hi.chain k).congr fun q hq => ?_
    obtain ⟨x, hx, rfl⟩ := List.mem_map.mp hq
    have hxb := (hi.free_mem k x hx).1
    exact ((hsame x hxb).header (hi.mem_bounds hxb).2.2.2).2
  · intro k x hx
    exact (hi.free_mem k x hx).imp_left fun hxb => List.mem_append_left _ hxb
  · intro x hx hfree
    rcases List.mem_append.mp hx with hx | hx
    · exact ((hsame x hx).header (hi.mem_bounds hx).2.2.2).2.trans (hi.live x hx hfree)
    · rw [List.mem_singleton.mp hx]
      exact hlink
  · exact fun page hpage hfirst hlast => hcanonical page hpage hfirst (by
      have : page.toNat < next.toNat := hlast
      omega)
  · intro x
    rw [LiveIn, LiveIn, List.mem_append, List.mem_singleton]
    constructor
    · rintro ⟨hx | rfl, hfree⟩
      · exact Or.inr ⟨hx, hfree⟩
      · exact Or.inl rfl
    · rintro (rfl | ⟨hx, hfree⟩)
      · exact ⟨Or.inr rfl, hbfree _⟩
      · exact ⟨Or.inl hx, hfree⟩

/-- **Extending the heap** adds a block at its end, or changes nothing but the mapped pages. -/
theorem extendHeap_spec (hi : HeapInv h blocks free) (hbase : h.base ≠ 0) {blockSize : UInt64}
    (halign : 16 ∣ blockSize.toNat) (hsize : 32 ≤ blockSize.toNat) (answers : List Bool) :
    (∃ mappedEnd, extendHeap h blockSize answers = (0, { h with mappedEnd := mappedEnd }) ∧
      HeapInv { h with mappedEnd := mappedEnd } blocks free) ∨
    ∃ h' blocks', extendHeap h blockSize answers = ((⟨h.next, blockSize⟩ : HeapBlock).pointer, h') ∧
      HandedOut h blocks free ⟨h.next, blockSize⟩ h' blocks' free := by
  have hnext : 16 ∣ h.next.toNat := by
    have := hi.base_aligned
    exact (hi.tiles.aligned (by omega)).2
  unfold extendHeap
  dsimp only
  rw [alignUp_of_dvd hnext]
  split_ifs with hroom
  · exact Or.inl ⟨h.mappedEnd, rfl, hi⟩
  · rw [not_or, gt_iff_lt, gt_iff_lt, UInt64.not_lt, UInt64.not_lt, UInt64.le_iff_toNat_le,
      UInt64.le_iff_toNat_le] at hroom
    obtain ⟨hle, hroom⟩ := hroom
    rw [UInt64.toNat_sub_of_le _ _ (UInt64.le_iff_toNat_le.mpr hle)] at hroom
    have hlimit := h.limit.toNat_lt
    have hsum : (h.next + blockSize).toNat = h.next.toNat + blockSize.toNat := by
      rw [UInt64.toNat_add, Nat.mod_eq_of_lt (by omega)]
    obtain ⟨haligned, hcanonical, hok⟩ :=
      mapPages_spec (h.next + blockSize) answers hi.mapped_aligned hi.canonical_mapped
    rcases hmap : mapPages (h.next + blockSize) answers h.mappedEnd with ⟨ok, mappedEnd⟩
    rw [hmap] at haligned hcanonical hok
    cases ok with
    | false => exact Or.inl ⟨mappedEnd, rfl, hi.mapped haligned hcanonical⟩
    | true =>
      refine Or.inr ⟨_, blocks ++ [⟨h.next, blockSize⟩], rfl, ?_⟩
      exact hi.append hbase rfl halign hsize hsum (by omega) haligned hcanonical (hok rfl)

/-- **`kmalloc`** hands out a block with room for the bytes asked for, or leaves the blocks and
the memory alone. -/
theorem kmalloc_spec (hi : HeapInv h blocks free) (size : UInt64) (answers : List Bool) :
    (∃ h', kmalloc h size answers = some (0, h') ∧ HeapInv h' blocks free ∧
      h'.memory = h.memory) ∨
    ∃ b h' blocks' free', kmalloc h size answers = some (b.pointer, h') ∧
      HandedOut h blocks free b h' blocks' free' ∧ size.toNat ≤ b.capacity := by
  unfold kmalloc
  by_cases hzero : size = 0 ∨ h.base = 0
  · rw [if_pos hzero]
    exact Or.inl ⟨h, rfl, hi, rfl⟩
  rw [if_neg hzero]
  rw [not_or] at hzero
  cases hblock : calculateBlockSize size with
  | none => exact Or.inl ⟨h, rfl, hi, rfl⟩
  | some blockSize =>
    obtain ⟨hroom, halign, h32⟩ := calculateBlockSize_spec hzero.1 hblock
    have hne : blockSize ≠ 0 := by
      rintro rfl
      rw [UInt64.toNat_zero] at h32
      omega
    dsimp only
    rw [heapFreeListTake, if_neg hne]
    rcases searchClasses_spec hi.freeLists blockSize hi.length_free_le
      ((List.finRange 9).filter fun k => classForSize blockSize ≤ k) with
      ⟨hnone, -⟩ | ⟨k, before, c, after, hfree, hc, hsome⟩
    · rw [hnone]
      rcases extendHeap_spec hi hzero.2 halign h32 answers with
        ⟨mappedEnd, heq, hi'⟩ | ⟨h', blocks', heq, hout⟩
      · exact Or.inl ⟨_, congrArg some heq, hi', rfl⟩
      · refine Or.inr ⟨_, h', blocks', free, congrArg some heq, hout, ?_⟩
        rw [HeapBlock.capacity]
        dsimp only
        omega
    · rw [hsome]
      dsimp only
      have hcfree : c ∈ free k := by
        rw [hfree]
        simp
      obtain ⟨hcb, hclass⟩ := hi.free_mem k c hcfree
      obtain ⟨m', head, heq, hi', hsame⟩ := take_spec hi hfree
      rw [hi.sizes c hcb, heq]
      refine Or.inr ⟨c, _, blocks, _, rfl, ⟨hi', List.Subset.refl _, fun x => ?_, ?_, hsame⟩, ?_⟩
      · have hnodup := hi.nodup k
        rw [hfree] at hnodup
        have hcrest := (List.nodup_cons.mp (List.nodup_middle.mp hnodup)).1
        unfold LiveIn
        by_cases hx : classForSize x.size = k
        · rw [hx, Function.update_self, hfree]
          by_cases hxc : x = c
          · subst hxc
            exact ⟨fun _ => Or.inl rfl, fun _ => ⟨hcb, hcrest⟩⟩
          · simp [hxc]
        · rw [Function.update_of_ne hx]
          constructor
          · exact Or.inr
          · rintro (rfl | hlive)
            · exact absurd hclass hx
            · exact hlive
      · rintro ⟨-, hnot⟩
        rw [hclass] at hnot
        exact hnot hcfree
      · rw [UInt64.le_iff_toNat_le] at hc
        rw [HeapBlock.capacity]
        omega

/-! ### Freeing and growing -/

theorem liveIn_pushFree {b x : HeapBlock} :
    LiveIn blocks (HeapInv.pushFree free b) x ↔ LiveIn blocks free x ∧ x ≠ b := by
  rw [LiveIn, LiveIn, HeapInv.mem_pushFree]
  constructor
  · rintro ⟨hx, hfree⟩
    rw [not_or] at hfree
    exact ⟨⟨hx, hfree.2⟩, fun heq => hfree.1 ⟨heq, by rw [heq]⟩⟩
  · rintro ⟨⟨hx, hfree⟩, hne⟩
    exact ⟨hx, not_or.mpr ⟨fun h => hne h.1, hfree⟩⟩

/-- **`krealloc` on the pointer of a block.**  A live block that is too small moves: its bytes are
copied to the block handed out and it is freed. -/
theorem krealloc_spec (hi : HeapInv h blocks free) {b : HeapBlock} (hb : b ∈ blocks)
    {newSize : UInt64} (hsize : newSize ≠ 0) (answers : List Bool) :
    (¬ LiveIn blocks free b ∧ krealloc h b.pointer newSize answers = some (0, h)) ∨
    (LiveIn blocks free b ∧ newSize.toNat ≤ b.capacity ∧
      krealloc h b.pointer newSize answers = some (b.pointer, h)) ∨
    (LiveIn blocks free b ∧ ∃ h', krealloc h b.pointer newSize answers = some (0, h') ∧
      HeapInv h' blocks free ∧ h'.memory = h.memory) ∨
    (LiveIn blocks free b ∧ b.capacity ≤ newSize.toNat ∧ ∃ c h' h'' blocks' free',
      krealloc h b.pointer newSize answers = some (c.pointer, h'') ∧
      HandedOut h blocks free c h' blocks' free' ∧ newSize.toNat ≤ c.capacity ∧
      HeapInv h'' blocks' (HeapInv.pushFree free' b) ∧
      (∀ x, LiveIn blocks free x → x ≠ b →
        SameOn h.memory h''.memory x.start.toNat x.size.toNat) ∧
      bytesAt h''.memory c.pointer.toNat b.capacity =
        bytesAt h.memory b.pointer.toNat b.capacity) := by
  obtain ⟨-, -, -, h32⟩ := hi.mem_bounds hb
  have hheader : b.pointer - heapHeaderSize = b.start := by
    rw [HeapBlock.pointer, UInt64.add_sub_cancel]
  have hlarge : ¬ b.size < heapHeaderSize := by
    rw [UInt64.lt_iff_toNat_lt, show heapHeaderSize.toNat = 16 from rfl]
    omega
  have hcapacity : (b.size - heapHeaderSize).toNat = b.capacity :=
    UInt64.toNat_sub_of_le _ _ (UInt64.not_lt.mp hlarge)
  unfold krealloc
  dsimp only
  rw [if_neg (hi.pointer_ne_zero hb), if_neg hsize, hheader, hi.sizes b hb]
  by_cases hlive : b ∉ free (classForSize b.size)
  swap
  · rw [if_pos fun hmagic => hlive ((hi.live_iff hb).mp hmagic)]
    exact Or.inl ⟨fun h => hlive h.2, rfl⟩
  have hblive : LiveIn blocks free b := ⟨hb, hlive⟩
  rw [if_neg (not_not_intro (hi.live b hb hlive)), if_neg hlarge]
  by_cases hfits : newSize ≤ b.size - heapHeaderSize
  · rw [if_pos hfits]
    rw [UInt64.le_iff_toNat_le, hcapacity] at hfits
    exact Or.inr (Or.inl ⟨hblive, hfits, rfl⟩)
  rw [if_neg hfits]
  rw [UInt64.not_le, UInt64.lt_iff_toNat_lt, hcapacity] at hfits
  rcases kmalloc_spec hi newSize answers with
    ⟨h', heq, hi', hmemory⟩ | ⟨c, h', blocks', free', heq, hout, hroom⟩
  · rw [heq]
    exact Or.inr (Or.inr (Or.inl ⟨hblive, h', rfl, hi', hmemory⟩))
  · rw [heq]
    right; right; right
    have hc := ((hout.live c).mpr (Or.inl rfl))
    have hb' : LiveIn blocks' free' b := (hout.live b).mpr (Or.inr hblive)
    have hne : c ≠ b := fun h => hout.fresh (h ▸ hblive)
    have hpc := hout.inv.toNat_pointer hc.1
    have hpb := hi.toNat_pointer hb
    dsimp only
    rw [if_neg (hout.inv.pointer_ne_zero hc.1), hcapacity]
    -- the copy stays inside the new block
    have hcopy : SameOutside h'.memory
        (copyBytes h'.memory c.pointer.toNat b.pointer.toNat b.capacity) c.pointer.toNat
        b.capacity := by
      have := storeBytes_sameOutside h'.memory c.pointer.toNat
        (bytesAt h'.memory b.pointer.toNat b.capacity)
      rwa [length_bytesAt] at this
    have hpayload : SameOutside h'.memory
        (copyBytes h'.memory c.pointer.toNat b.pointer.toNat b.capacity) (c.start.toNat + 16)
        c.capacity := hcopy.mono (by omega) (by omega)
    have hcsize := (hout.inv.mem_bounds hc.1).2.2.2
    have hcblock := hpayload.mono (a := c.start.toNat) (n := c.size.toNat) (by omega) (by
      rw [HeapBlock.capacity]
      omega)
    obtain ⟨m'', hfree, heq', hinv⟩ := kfree_live (hout.inv.payload hc.1 hpayload) hb'.1 hb'.2
    refine ⟨hblive, by omega, c, h', _, blocks', free', rfl, hout, hroom, hinv, ?_, ?_⟩
    · intro x hx hxb
      have hx' := (hout.live x).mpr (Or.inr hx)
      have hxc : x ≠ c := fun h => hout.fresh (h ▸ hx)
      rw [heq']
      exact ((hout.same x hx).trans
        (hout.inv.same_of_outside hc.1 hx'.1 hxc (Nat.le_refl _) hcblock)).trans
        (hout.inv.same_of_outside hb'.1 hx'.1 hxb (by omega) hfree)
    · rw [heq']
      have hkept : SameOn _ m'' c.pointer.toNat b.capacity :=
        (hout.inv.same_of_outside hb'.1 hc.1 hne (by omega) hfree).mono (by omega) (by
          rw [HeapBlock.capacity] at hroom
          omega)
      have hcopied : bytesAt (copyBytes h'.memory c.pointer.toNat b.pointer.toNat b.capacity)
          c.pointer.toNat b.capacity = bytesAt h'.memory b.pointer.toNat b.capacity := by
        have := bytesAt_storeBytes h'.memory c.pointer.toNat
          (bytesAt h'.memory b.pointer.toNat b.capacity)
        rwa [length_bytesAt] at this
      have hold : SameOn h.memory h'.memory b.pointer.toNat b.capacity :=
        (hout.same b hblive).mono (by omega) (by
          rw [HeapBlock.capacity]
          omega)
      exact (hkept.bytesAt.trans hcopied).trans hold.bytesAt

end

end Jani
