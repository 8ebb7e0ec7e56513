import Jani.Lib.Bits
import Jani.Mm.Vmm
import Mathlib.Data.List.Nodup

/-!
# Page tables as a map of pages

`pageMap` is what the tables mean: for each canonical page the frame and the flags of its entry in
the last level.  The tables are a radix tree of depth three (`VmmTree`), so that a write to an entry
is seen by one page, and the canonical addresses and the paths through the tables correspond
(`pagePath_injective`).

Each function of `vmm.c` gets one lemma: the walk that creates tables keeps the meaning whether it
gets to the end or not (`walkTables_spec`), and the three calls are an insertion, a removal and a
lookup in the map (`vmmMapPage_spec`, `vmmUnmapPage_spec`, `vmmVirtualToPhysical_spec`).
-/

namespace Jani

/-! ### Addresses -/

theorem toNat_shiftRight_ofNat (a : UInt64) {n : Nat} (hn : n < 64) :
    (a >>> UInt64.ofNat n).toNat = a.toNat / 2 ^ n := by
  rw [UInt64.toNat_shiftRight, UInt64.toNat_ofNat', Nat.mod_eq_of_lt (show n < 2 ^ 64 by omega),
    Nat.mod_eq_of_lt hn, Nat.shiftRight_eq_div_pow]

theorem val_tableIndex (a : UInt64) {n : Nat} (hn : n < 64) :
    (tableIndex (UInt64.ofNat n) a).val = a.toNat / 2 ^ n % 512 := by
  have hmask : (0x1FF : UInt64).toNat = (2 ^ 9 - 1) * 2 ^ 0 := rfl
  rw [tableIndex, Fin.val_ofNat, toNat_and_mask hmask, toNat_shiftRight_ofNat a hn]
  omega

theorem addressIsCanonical_iff (a : UInt64) :
    addressIsCanonical a = true ↔ a.toNat / 2 ^ 48 = 65535 * (a.toNat / 2 ^ 47 % 2) := by
  have hlt := a.toNat_lt
  have hbit : ((a >>> 47) &&& 1).toNat = a.toNat / 2 ^ 47 % 2 := by
    have hmask : (1 : UInt64).toNat = (2 ^ 1 - 1) * 2 ^ 0 := rfl
    rw [toNat_and_mask hmask, show (47 : UInt64) = UInt64.ofNat 47 from rfl,
      toNat_shiftRight_ofNat a (by norm_num)]
    omega
  have hupper : (a >>> 48).toNat = a.toNat / 2 ^ 48 := toNat_shiftRight_ofNat a (by norm_num)
  have hzero : (a >>> 47) &&& 1 = 0 ↔ a.toNat / 2 ^ 47 % 2 = 0 := by
    rw [← UInt64.toNat_inj, hbit, UInt64.toNat_zero]
  unfold addressIsCanonical
  by_cases h0 : (a >>> 47) &&& 1 = 0
  · rw [if_neg (not_not_intro h0), decide_eq_true_iff, ← UInt64.toNat_inj, hupper,
      hzero.mp h0, UInt64.toNat_zero]
  · rw [if_pos h0, decide_eq_true_iff, ← UInt64.toNat_inj, hupper,
      show (0xffff : UInt64).toNat = 65535 from rfl]
    rw [hzero] at h0
    omega

theorem toNat_pageOffset (a : UInt64) : (a &&& pageOffsetMask).toNat = a.toNat % 4096 := by
  have hmask : pageOffsetMask.toNat = (2 ^ 12 - 1) * 2 ^ 0 := rfl
  rw [toNat_and_mask hmask]
  omega

theorem pageOffset_eq_zero_iff (a : UInt64) : a &&& pageOffsetMask = 0 ↔ a.toNat % 4096 = 0 := by
  rw [← UInt64.toNat_inj, toNat_pageOffset, UInt64.toNat_zero]

theorem toNat_pageFrame (e : UInt64) :
    (e &&& pageAddressMask).toNat = e.toNat / 4096 % 2 ^ 40 * 4096 := by
  have hmask : pageAddressMask.toNat = (2 ^ 40 - 1) * 2 ^ 12 := by decide
  exact toNat_and_mask hmask

/-- The page of an address. -/
def pageOf (a : UInt64) : UInt64 := a &&& ~~~pageOffsetMask

theorem toNat_pageOf (a : UInt64) : (pageOf a).toNat = a.toNat / 4096 * 4096 := by
  have hmask : (~~~pageOffsetMask).toNat = (2 ^ 52 - 1) * 2 ^ 12 := by decide
  have hlt := a.toNat_lt
  rw [pageOf, toNat_and_mask hmask]
  omega

theorem addressIsCanonical_pageOf (a : UInt64) :
    addressIsCanonical (pageOf a) = addressIsCanonical a := by
  rw [Bool.eq_iff_iff, addressIsCanonical_iff, addressIsCanonical_iff, toNat_pageOf]
  omega

theorem tableIndex_pageOf (a : UInt64) {n : Nat} (hn : n < 64) (h12 : 12 ≤ n) :
    tableIndex (UInt64.ofNat n) (pageOf a) = tableIndex (UInt64.ofNat n) a := by
  have hpow : 2 ^ n = 4096 * 2 ^ (n - 12) := by
    rw [show (4096 : Nat) = 2 ^ 12 by norm_num, ← Nat.pow_add]
    congr 1
    omega
  rw [Fin.ext_iff, val_tableIndex _ hn, val_tableIndex _ hn, toNat_pageOf, hpow,
    ← Nat.div_div_eq_div_mul, ← Nat.div_div_eq_div_mul, Nat.mul_div_cancel _ (by norm_num)]

theorem tablePath_pageOf (a : UInt64) : tablePath (pageOf a) = tablePath a := by
  unfold tablePath pml4Index pdptIndex pdIndex
  rw [show (39 : UInt64) = UInt64.ofNat 39 from rfl, show (30 : UInt64) = UInt64.ofNat 30 from rfl,
    show (21 : UInt64) = UInt64.ofNat 21 from rfl, tableIndex_pageOf a (by norm_num) (by norm_num),
    tableIndex_pageOf a (by norm_num) (by norm_num),
    tableIndex_pageOf a (by norm_num) (by norm_num)]

theorem ptIndex_pageOf (a : UInt64) : ptIndex (pageOf a) = ptIndex a :=
  tableIndex_pageOf a (n := 12) (by norm_num) (by norm_num)

theorem pagePath_injective {a b : UInt64} (ha : addressIsCanonical a = true)
    (hb : addressIsCanonical b = true) (ha' : a &&& pageOffsetMask = 0)
    (hb' : b &&& pageOffsetMask = 0) (hpath : tablePath a = tablePath b)
    (hindex : ptIndex a = ptIndex b) : a = b := by
  rw [addressIsCanonical_iff] at ha hb
  rw [pageOffset_eq_zero_iff] at ha' hb'
  simp only [tablePath, List.cons.injEq, and_true] at hpath
  obtain ⟨h39, h30, h21⟩ := hpath
  have hval : ∀ {n : Nat}, n < 64 →
      tableIndex (UInt64.ofNat n) a = tableIndex (UInt64.ofNat n) b →
      a.toNat / 2 ^ n % 512 = b.toNat / 2 ^ n % 512 := fun hn h => by
    rw [← val_tableIndex a hn, ← val_tableIndex b hn, h]
  have h39 := hval (n := 39) (by norm_num) h39
  have h30 := hval (n := 30) (by norm_num) h30
  have h21 := hval (n := 21) (by norm_num) h21
  have h12 := hval (n := 12) (by norm_num) hindex
  have hlt := a.toNat_lt
  have hlt' := b.toNat_lt
  apply UInt64.toNat_inj.mp
  omega

/-! ### Entries -/

structure PageMapping where
  frame : UInt64
  flags : UInt64
deriving DecidableEq, Repr

/-- What an entry of the last level says. -/
def mappingOf (entry : UInt64) : Option PageMapping :=
  if entry &&& vmmPagePresent = 0 then none
  else some ⟨entry &&& pageAddressMask, entry &&& ~~~pageAddressMask⟩

theorem tableFlags_cases (flags : UInt64) : tableFlags flags = 3 ∨ tableFlags flags = 7 := by
  unfold tableFlags
  split_ifs
  · exact Or.inr rfl
  · exact Or.inl rfl

theorem tableFlags_and (flags : UInt64) : tableFlags flags &&& vmmPagePresent = 1 ∧
    tableFlags flags &&& pageEntryHuge = 0 ∧ tableFlags flags &&& pageAddressMask = 0 := by
  rcases tableFlags_cases flags with h | h <;> rw [h] <;> decide

theorem tableFromEntry_or_tableFlags (s : Vmm) (flags : UInt64) {entry : UInt64}
    (hpresent : entry &&& vmmPagePresent ≠ 0) (hhuge : entry &&& pageEntryHuge = 0) :
    tableFromEntry s (entry ||| tableFlags flags) = tableFromEntry s entry := by
  obtain ⟨h1, h2, h3⟩ := tableFlags_and flags
  unfold tableFromEntry
  rw [or_and_distrib, or_and_distrib, or_and_distrib, h1, h2, h3, UInt64.or_zero, UInt64.or_zero,
    if_neg (not_or.mpr ⟨or_ne_zero_of_right (by decide), not_not_intro hhuge⟩),
    if_neg (not_or.mpr ⟨hpresent, not_not_intro hhuge⟩)]

variable {s : Vmm}

theorem tableFromEntry_new {frame : UInt64} (flags : UInt64)
    (hframe : frame &&& ~~~pageAddressMask = 0) (htable : vmmPhysicalToVirtual s frame ≠ 0) :
    tableFromEntry s (frame ||| tableFlags flags) = some (vmmPhysicalToVirtual s frame) := by
  obtain ⟨h1, h2, h3⟩ := tableFlags_and flags
  have hhuge : frame &&& pageEntryHuge = 0 := and_eq_zero_of_mask hframe (by decide)
  unfold tableFromEntry
  rw [or_and_distrib, or_and_distrib, or_and_distrib, h1, h2, h3, hhuge, and_mask_eq_self hframe,
    UInt64.or_zero, UInt64.or_zero,
    if_neg (not_or.mpr ⟨or_ne_zero_of_right (by decide), not_not_intro rfl⟩)]
  exact if_neg htable

theorem mappingOf_zero : mappingOf 0 = none := by decide

theorem mappingOf_new {frame : UInt64} (flags : UInt64)
    (hframe : frame &&& ~~~pageAddressMask = 0) :
    mappingOf (frame ||| vmmPagePresent ||| (flags &&& vmmLeafFlags)) =
      some ⟨frame, vmmPagePresent ||| (flags &&& vmmLeafFlags)⟩ := by
  have hframe1 : frame &&& vmmPagePresent = 0 := and_eq_zero_of_mask hframe (by decide)
  have hflags : ∀ mask, vmmLeafFlags &&& mask = 0 → flags &&& vmmLeafFlags &&& mask = 0 :=
    fun mask h => by rw [UInt64.and_assoc, h, UInt64.and_zero]
  have hflags' : flags &&& vmmLeafFlags &&& ~~~pageAddressMask = flags &&& vmmLeafFlags := by
    rw [UInt64.and_assoc, show vmmLeafFlags &&& ~~~pageAddressMask = vmmLeafFlags by decide]
  unfold mappingOf
  rw [or_and_distrib, or_and_distrib, or_and_distrib, or_and_distrib, or_and_distrib,
    or_and_distrib, hframe1, hflags _ (by decide), hflags _ (by decide), hflags',
    and_mask_eq_self hframe, hframe, UInt64.zero_or, UInt64.or_zero, UInt64.zero_or,
    show vmmPagePresent &&& pageAddressMask = 0 by decide, UInt64.or_zero, UInt64.or_zero,
    show vmmPagePresent &&& ~~~pageAddressMask = vmmPagePresent by decide]
  exact if_neg (by decide)

/-! ### The map -/

/-- For each page what it is mapped to. -/
abbrev AddressSpace := UInt64 → Option PageMapping

/-- The table at the end of a path from the root. -/
def Vmm.tableAt (s : Vmm) (path : List (Fin 512)) : Option UInt64 :=
  Radix.descend (tableFromEntry s) s.memory s.rootPageTable path

/-- **What the tables mean.** -/
def pageMap (s : Vmm) : AddressSpace := fun v =>
  if s.ready = true ∧ v &&& pageOffsetMask = 0 ∧ addressIsCanonical v = true then
    ((s.tableAt (tablePath v)).map fun t => s.memory t (ptIndex v)).bind mappingOf
  else none

/-- The tables are a tree: no table is reached along two paths. -/
def VmmTree (s : Vmm) : Prop := Radix.TreeTo 3 (tableFromEntry s) s.memory s.rootPageTable

def IsPageTable (s : Vmm) (table : UInt64) : Prop := ∃ p, p.length ≤ 3 ∧ s.tableAt p = some table

/-- Frames that the allocator may hand out: each once, and none that holds a page table. -/
structure FramesOk (s : Vmm) (frames : List UInt64) : Prop where
  nodup : (frames.filter (· ≠ 0)).Nodup
  fits : ∀ f ∈ frames, f &&& ~~~pageAddressMask = 0
  fresh : ∀ f ∈ frames, f ≠ 0 → ¬ IsPageTable s (vmmPhysicalToVirtual s f)

/-! ### Tables made on the way -/

/-- The tables changed, and mean `A` now. -/
structure Becomes (s s' : Vmm) (A : AddressSpace) : Prop where
  ready : s'.ready = s.ready
  hhdmOffset : s'.hhdmOffset = s.hhdmOffset
  rootPageTable : s'.rootPageTable = s.rootPageTable
  tree : VmmTree s'
  pageMap : pageMap s' = A

/-- The tables may have changed, and mean the same. -/
abbrev SameMeaning (s s' : Vmm) : Prop := Becomes s s' (pageMap s)

theorem SameMeaning.refl (htree : VmmTree s) : SameMeaning s s :=
  ⟨rfl, rfl, rfl, htree, rfl⟩

variable {A : AddressSpace} {f : UInt64} {frames : List UInt64}

theorem Becomes.trans {s' s'' : Vmm} {B : AddressSpace} (h : Becomes s s' A)
    (h' : Becomes s' s'' B) : Becomes s s'' B :=
  ⟨h'.ready.trans h.ready, h'.hhdmOffset.trans h.hhdmOffset,
    h'.rootPageTable.trans h.rootPageTable, h'.tree, h'.pageMap⟩

theorem Becomes.same {s' s'' : Vmm} (h : Becomes s s' A) (h' : SameMeaning s' s'') :
    Becomes s s'' A :=
  Becomes.trans h (by rwa [SameMeaning, h.pageMap] at h')

theorem Becomes.physicalToVirtual {s' : Vmm} (h : Becomes s s' A) (f : UInt64) :
    vmmPhysicalToVirtual s' f = vmmPhysicalToVirtual s f := by
  rw [vmmPhysicalToVirtual, vmmPhysicalToVirtual, h.ready, h.hhdmOffset]

theorem vmmPhysicalToVirtual_injective (hready : s.ready = true) {g : UInt64}
    (h : vmmPhysicalToVirtual s f = vmmPhysicalToVirtual s g) : f = g := by
  rw [vmmPhysicalToVirtual, vmmPhysicalToVirtual, if_pos hready, if_pos hready] at h
  exact (UInt64.add_right_inj s.hhdmOffset).mp h

theorem FramesOk.suffix (h : FramesOk s (f :: frames)) : FramesOk s frames where
  nodup := by
    have := h.nodup
    rw [List.filter_cons] at this
    split_ifs at this
    · exact this.of_cons
    · exact this
  fits g hg := h.fits g (List.mem_cons_of_mem _ hg)
  fresh g hg := h.fresh g (List.mem_cons_of_mem _ hg)

section

variable {s : Vmm} {t : UInt64} {q : List (Fin 512)}

theorem pageMap_congr {m : UInt64 → Fin 512 → UInt64} (h : ∀ p j, p.length = 3 →
      (Radix.leafAt (tableFromEntry s) m s.rootPageTable p j).bind mappingOf =
        (Radix.leafAt (tableFromEntry s) s.memory s.rootPageTable p j).bind mappingOf) :
    pageMap { s with memory := m } = pageMap s := by
  funext v
  unfold pageMap
  split_ifs
  · exact h (tablePath v) (ptIndex v) rfl
  · rfl

variable {i : Fin 512}

theorem relink_spec (htree : VmmTree s) (hq : q.length < 3) (ht : s.tableAt q = some t) {e : UInt64}
    (he : tableFromEntry s e = tableFromEntry s (s.memory t i)) :
    SameMeaning s (s.setEntry (t, i) e) ∧ ∀ p, (s.setEntry (t, i) e).tableAt p = s.tableAt p := by
  obtain ⟨hdescend, htree', hleaf⟩ := Radix.TreeTo.relink htree hq ht he
  refine ⟨⟨rfl, rfl, rfl, htree', pageMap_congr fun p j hp => ?_⟩, hdescend⟩
  rw [hleaf p j hp]

/-- The tables after a new one was linked in. -/
def withTable (s : Vmm) (slot : EntrySlot) (frame flags : UInt64) : Vmm :=
  { s with memory :=
      Function.update s.memory (vmmPhysicalToVirtual s frame) fun _ => 0 }.setEntry slot
    (frame ||| tableFlags flags)

theorem attach_spec (htree : VmmTree s) (hq : q.length < 3) (ht : s.tableAt q = some t)
    (hnone : tableFromEntry s (s.memory t i) = none) (flags : UInt64)
    (hfits : f &&& ~~~pageAddressMask = 0) (htable : vmmPhysicalToVirtual s f ≠ 0)
    (hfresh : ¬ IsPageTable s (vmmPhysicalToVirtual s f)) :
    SameMeaning s (withTable s (t, i) f flags) ∧
      ∀ p, p.length ≤ 3 → (withTable s (t, i) f flags).tableAt p =
        if p = q ++ [i] then some (vmmPhysicalToVirtual s f) else s.tableAt p := by
  obtain ⟨hdescend, htree', hleaf⟩ := Radix.TreeTo.attach htree hq ht hnone
    (fun p hp h => hfresh ⟨p, hp, h⟩) (show tableFromEntry s 0 = none from rfl)
    (tableFromEntry_new flags hfits htable)
  refine ⟨⟨rfl, rfl, rfl, htree', pageMap_congr (s := s) fun p j hp => ?_⟩, hdescend⟩
  rw [hleaf p j hp]
  split_ifs with hpq
  · rw [Radix.leafAt, hpq, Radix.descend_concat i ht, hnone]
    exact mappingOf_zero
  · rfl

theorem FramesOk.attach {flags : UInt64} (hframes : FramesOk s (f :: frames))
    (hready : s.ready = true) (hf : f ≠ 0) (hsame : SameMeaning s (withTable s (t, i) f flags))
    (htables : ∀ p, p.length ≤ 3 → (withTable s (t, i) f flags).tableAt p =
      if p = q ++ [i] then some (vmmPhysicalToVirtual s f) else s.tableAt p) :
    FramesOk (withTable s (t, i) f flags) frames where
  nodup := hframes.suffix.nodup
  fits := hframes.suffix.fits
  fresh g hg hg0 := by
    rintro ⟨p, hp, hp'⟩
    rw [htables p hp, hsame.physicalToVirtual] at hp'
    split_ifs at hp'
    · have hfg := vmmPhysicalToVirtual_injective hready (Option.some.inj hp')
      have hnodup := hframes.nodup
      rw [List.filter_cons_of_pos (by simpa using hf)] at hnodup
      exact (List.nodup_cons.mp hnodup).1 (List.mem_filter.mpr ⟨hfg ▸ hg, by simpa using hf⟩)
    · exact hframes.suffix.fresh g hg hg0 ⟨p, hp, hp'⟩

/-- No huge page is in the way: what is present on the path leads to a table. -/
def PathOpen (s : Vmm) (q path : List (Fin 512)) : Prop :=
  ∀ p i rest t, path = p ++ i :: rest → s.tableAt (q ++ p) = some t →
    s.memory t i &&& vmmPagePresent ≠ 0 → (tableFromEntry s (s.memory t i)).isSome

/-- The allocator has a frame for each of `n` requests. -/
def Granted (s : Vmm) (n : Nat) (frames : List UInt64) : Prop :=
  n ≤ frames.length ∧ ∀ f ∈ frames, f ≠ 0 ∧ vmmPhysicalToVirtual s f ≠ 0

theorem VmmTree.below_ne (htree : VmmTree s) (ht : s.tableAt q = some t) {p : List (Fin 512)}
    {u : UInt64} (hu : s.tableAt (q ++ i :: p) = some u) (hlen : (q ++ i :: p).length ≤ 3) :
    u ≠ t := by
  rintro rfl
  have := congrArg List.length (htree (q ++ i :: p) q u hlen
    ((List.length_append ▸ Nat.le_add_right _ _ : q.length ≤ _).trans hlen) hu ht)
  rw [List.length_append, List.length_cons] at this
  omega

/-- **One level down**: the meaning stays, and a table that is returned is at the end of the
longer path.  With an open path and enough frames there is one. -/
theorem getOrCreateTable_spec (htree : VmmTree s) (hready : s.ready = true)
    (hframes : FramesOk s frames) (hq : q.length < 3) (ht : s.tableAt q = some t) (i : Fin 512)
    (flags : UInt64) : ∃ r s' frames', getOrCreateTable s (t, i) flags frames = (r, s', frames') ∧
      SameMeaning s s' ∧ FramesOk s' frames' ∧
      (∀ t', r = some t' → s'.tableAt (q ++ [i]) = some t') ∧
      ∀ path n, (q ++ i :: path).length ≤ 3 → PathOpen s q (i :: path) → Granted s (n + 1) frames →
        ∃ t', r = some t' ∧ PathOpen s' (q ++ [i]) path ∧ Granted s' n frames' := by
  have hentry : s.entry (t, i) = s.memory t i := rfl
  unfold getOrCreateTable
  rw [hentry]
  split
  · rename_i hpresent
    by_cases hhuge : s.memory t i &&& pageEntryHuge ≠ 0
    · -- a huge page is in the way
      rw [if_pos hhuge]
      refine ⟨_, _, _, rfl, .refl htree, hframes, by simp, fun path n _ hopen => ?_⟩
      have := hopen [] i path t rfl (by rwa [List.append_nil]) hpresent
      rw [tableFromEntry, if_pos (Or.inr hhuge)] at this
      cases this
    · rw [if_neg hhuge]
      have he := tableFromEntry_or_tableFlags s flags hpresent (not_not.mp hhuge)
      obtain ⟨hsame, htables⟩ := relink_spec htree hq ht he
      refine ⟨_, _, _, rfl, hsame, ⟨hframes.nodup, hframes.fits, fun f hf hf0 => ?_⟩,
        fun t' ht' => ?_, fun path n hlen hopen hgranted => ?_⟩
      · rintro ⟨p, hp, hp'⟩
        rw [htables, hsame.physicalToVirtual] at hp'
        exact hframes.fresh f hf hf0 ⟨p, hp, hp'⟩
      · rw [htables, Vmm.tableAt, Radix.descend_concat i ht, ← he]
        exact ht'
      · have hsome := hopen [] i path t rfl (by rwa [List.append_nil]) hpresent
        obtain ⟨t', ht'⟩ := Option.isSome_iff_exists.mp hsome
        refine ⟨t', he.trans ht', fun p j rest u hpath hu => ?_,
          (Nat.le_succ n).trans hgranted.1, fun f hf => ?_⟩
        · rw [htables, List.append_assoc, List.singleton_append] at hu
          have hne : u ≠ t := htree.below_ne ht hu (by
            rw [hpath] at hlen
            simp only [List.length_append, List.length_cons] at hlen ⊢
            omega)
          rw [show (s.setEntry (t, i) _).memory u = s.memory u from
            Radix.setEntry_of_node_ne hne _ _]
          exact hopen (i :: p) j rest u (by rw [hpath]; rfl) hu
        · rw [hsame.physicalToVirtual]
          exact hgranted.2 f hf
  · rename_i hpresent
    have hnone : tableFromEntry s (s.memory t i) = none := by
      rw [tableFromEntry, if_pos (Or.inl (not_not.mp hpresent))]
    cases frames with
    | nil =>
      refine ⟨_, _, _, rfl, .refl htree, hframes, by simp, fun path n _ _ hgranted => ?_⟩
      exact absurd hgranted.1 (by simp)
    | cons f frames =>
      dsimp only
      split
      · rename_i hrefused
        refine ⟨_, _, _, rfl, .refl htree, hframes.suffix, by simp, fun path n _ _ hgranted => ?_⟩
        obtain ⟨h0, h1⟩ := hgranted.2 f List.mem_cons_self
        exact absurd hrefused (not_or.mpr ⟨h0, h1⟩)
      · rename_i hrefused
        rw [not_or] at hrefused
        obtain ⟨hf0, htable⟩ := hrefused
        obtain ⟨hsame, htables⟩ := attach_spec htree hq ht hnone flags
          (hframes.fits f List.mem_cons_self) htable (hframes.fresh f List.mem_cons_self hf0)
        have hnew : (withTable s (t, i) f flags).tableAt (q ++ [i]) =
            some (vmmPhysicalToVirtual s f) := by
          rw [htables _ (by simp; omega), if_pos rfl]
        refine ⟨_, withTable s (t, i) f flags, _, rfl, hsame,
          hframes.attach hready hf0 hsame htables, fun t' ht' => hnew.trans ht',
          fun path n hlen _ hgranted =>
            ⟨_, rfl, fun p j rest u hpath hu hu' => ?_, ?_, fun g hg => ?_⟩⟩
        · -- nothing is present in the new table, and nothing lies below it
          rw [htables _ (by rw [hpath] at hlen; simp at hlen ⊢; omega)] at hu
          split_ifs at hu with hp
          · have hft : vmmPhysicalToVirtual s f ≠ t := fun heq =>
              hframes.fresh f List.mem_cons_self hf0 ⟨q, Nat.le_of_lt hq, by rw [heq]; exact ht⟩
            have hclear : (withTable s (t, i) f flags).memory u j = 0 := by
              rw [← Option.some.inj hu]
              refine (congrFun (Radix.setEntry_of_node_ne hft _ _) j).trans ?_
              dsimp only
              rw [Function.update_self]
            rw [hclear] at hu'
            exact absurd (UInt64.zero_and) hu'
          · rw [Vmm.tableAt, Radix.descend_append, Radix.descend_concat i ht, hnone] at hu
            cases hu
        · have := hgranted.1
          rw [List.length_cons] at this
          omega
        · rw [hsame.physicalToVirtual]
          exact hgranted.2 g (List.mem_cons_of_mem _ hg)

/-- **The walk that makes tables.** -/
theorem walkTables_spec (flags : UInt64) : ∀ (path : List (Fin 512)) {s : Vmm} {t : UInt64}
    {q : List (Fin 512)} {frames : List UInt64}, VmmTree s → s.ready = true → FramesOk s frames →
    (q ++ path).length ≤ 3 → s.tableAt q = some t →
    ∃ r s' frames', walkTables true flags path s t frames = (r, s', frames') ∧
      SameMeaning s s' ∧ FramesOk s' frames' ∧
      (∀ t', r = some t' → s'.tableAt (q ++ path) = some t') ∧
      (PathOpen s q path → Granted s path.length frames → ∃ t', r = some t') := by
  intro path
  induction path with
  | nil =>
    intro s t q frames htree hready hframes hlen ht
    refine ⟨_, _, _, rfl, .refl htree, hframes, fun t' ht' => ?_, fun _ _ => ⟨t, rfl⟩⟩
    rw [List.append_nil, ht, ht']
  | cons i path ih =>
    intro s t q frames htree hready hframes hlen ht
    have hq : q.length < 3 := by
      rw [List.length_append, List.length_cons] at hlen
      omega
    obtain ⟨r, s₁, frames₁, heq, hsame, hframes₁, hr, hopen⟩ :=
      getOrCreateTable_spec htree hready hframes hq ht i flags
    rw [walkTables, nextTable, if_pos rfl, heq]
    cases r with
    | none =>
      refine ⟨_, _, _, rfl, hsame, hframes₁, by simp, fun ho hg => ?_⟩
      obtain ⟨t', ht', -⟩ := hopen path path.length hlen ho hg
      cases ht'
    | some t₁ =>
      rw [← List.singleton_append, ← List.append_assoc] at hlen
      obtain ⟨r, s₂, frames₂, heq₂, hsame₂, hframes₂, hr₂, hopen₂⟩ :=
        ih hsame.tree (hsame.ready.trans hready) hframes₁ hlen (hr t₁ rfl)
      refine ⟨r, s₂, frames₂, heq₂, hsame.same hsame₂, hframes₂, fun t' ht' => ?_,
        fun ho hg => ?_⟩
      · rw [← List.singleton_append, ← List.append_assoc]
        exact hr₂ t' ht'
      · rw [List.append_assoc, List.singleton_append] at hlen
        obtain ⟨t', -, ho', hg'⟩ := hopen path path.length hlen ho hg
        exact hopen₂ ho' hg'

theorem walkTables_look (s : Vmm) (flags : UInt64) (frames : List UInt64) :
    ∀ (path : List (Fin 512)) (t : UInt64), walkTables false flags path s t frames =
      (Radix.descend (tableFromEntry s) s.memory t path, s, frames)
  | [], _ => rfl
  | i :: path, t => by
    rw [walkTables, nextTable, if_neg Bool.false_ne_true, Radix.descend]
    dsimp only [Vmm.entry]
    cases tableFromEntry s (s.memory t i) with
    | none => rfl
    | some t' => exact walkTables_look s flags frames path t'

theorem findLeafEntry_look (s : Vmm) (v : UInt64) : (findLeafEntry s v false 0 []).1 =
    if s.ready = true ∧ addressIsCanonical v = true then
      (s.tableAt (tablePath v)).map fun t => (t, ptIndex v)
    else none := by
  unfold findLeafEntry
  rw [walkTables_look]
  by_cases hc : s.ready = true ∧ addressIsCanonical v = true
  · rw [if_pos hc, hc.1, hc.2, Vmm.tableAt]
    cases Radix.descend (tableFromEntry s) s.memory s.rootPageTable (tablePath v) <;> rfl
  · rw [if_neg hc, if_pos]
    simpa [-not_and, not_and_or] using hc

/-! ### The calls -/

theorem setLeaf_spec (htree : VmmTree s) (hready : s.ready = true) {v : UInt64}
    (hcanonical : addressIsCanonical v = true) (haligned : v &&& pageOffsetMask = 0)
    (ht : s.tableAt (tablePath v) = some t) (e : UInt64) :
    Becomes s (s.setEntry (t, ptIndex v) e) (Function.update (pageMap s) v (mappingOf e)) ∧
      ∀ p, p.length ≤ 3 → (s.setEntry (t, ptIndex v) e).tableAt p = s.tableAt p := by
  obtain ⟨hdescend, htree', hleaf⟩ := Radix.TreeTo.setLeaf htree (q := tablePath v) rfl ht
    (ptIndex v) e
  refine ⟨⟨rfl, rfl, rfl, htree', funext fun w => ?_⟩, hdescend⟩
  have hw : pageMap (s.setEntry (t, ptIndex v) e) w =
      if s.ready = true ∧ w &&& pageOffsetMask = 0 ∧ addressIsCanonical w = true then
        (if tablePath w = tablePath v ∧ ptIndex w = ptIndex v then some e
          else Radix.leafAt (tableFromEntry s) s.memory s.rootPageTable (tablePath w)
            (ptIndex w)).bind mappingOf
      else none := by
    rw [← hleaf (tablePath w) (ptIndex w) rfl]
    rfl
  rw [hw]
  by_cases hwv : w = v
  · subst hwv
    rw [Function.update_self, if_pos ⟨hready, haligned, hcanonical⟩, if_pos ⟨rfl, rfl⟩]
    rfl
  · rw [Function.update_of_ne hwv]
    unfold pageMap
    split_ifs with hpage hpath
    · exact absurd (pagePath_injective hpage.2.2 hcanonical hpage.2.1 haligned hpath.1 hpath.2) hwv
    · rfl
    · rfl

theorem FramesOk.congr (hframes : FramesOk s frames) {s' : Vmm} (hbecomes : Becomes s s' A)
    (htables : ∀ p, p.length ≤ 3 → s'.tableAt p = s.tableAt p) : FramesOk s' frames where
  nodup := hframes.nodup
  fits := hframes.fits
  fresh f hf hf0 := by
    rintro ⟨p, hp, hp'⟩
    rw [htables p hp, hbecomes.physicalToVirtual] at hp'
    exact hframes.fresh f hf hf0 ⟨p, hp, hp'⟩

/-- What `vmm_map_page` asks of its arguments. -/
def MapLegal (virtualAddress physicalAddress flags : UInt64) : Prop :=
  virtualAddress &&& pageOffsetMask = 0 ∧ physicalAddress &&& pageOffsetMask = 0 ∧
    physicalAddress &&& ~~~pageAddressMask = 0 ∧
    (flags &&& vmmPageWritable ≠ 0 → flags &&& vmmPageNoExecute ≠ 0)

/-- What a mapping with these arguments says. -/
def newMapping (physicalAddress flags : UInt64) : PageMapping :=
  ⟨physicalAddress, vmmPagePresent ||| (flags &&& vmmLeafFlags)⟩

theorem pageMap_of_table (hready : s.ready = true) {v : UInt64}
    (hcanonical : addressIsCanonical v = true) (haligned : v &&& pageOffsetMask = 0)
    (ht : s.tableAt (tablePath v) = some t) : pageMap s v = mappingOf (s.entry (t, ptIndex v)) := by
  rw [pageMap, if_pos ⟨hready, haligned, hcanonical⟩, ht]
  rfl

theorem mappingOf_eq_none_iff (e : UInt64) : mappingOf e = none ↔ e &&& vmmPagePresent = 0 := by
  unfold mappingOf
  split_ifs with h
  · exact ⟨fun _ => h, fun _ => rfl⟩
  · exact ⟨fun h' => h'.elim, fun h' => absurd h' h⟩

/-- **`vmm_map_page`** adds a mapping for a page that has none, or changes no mapping. -/
theorem vmmMapPage_spec (htree : VmmTree s) (hframes : FramesOk s frames) (v p flags : UInt64) :
    ∃ ok s' frames', vmmMapPage s v p flags frames = (ok, s', frames') ∧ FramesOk s' frames' ∧
      (ok = false → SameMeaning s s') ∧
      (ok = true → MapLegal v p flags ∧ addressIsCanonical v = true ∧ pageMap s v = none ∧
        Becomes s s' (Function.update (pageMap s) v (some (newMapping p flags)))) ∧
      (s.ready = true → PathOpen s [] (tablePath v) → Granted s 3 frames → MapLegal v p flags →
        addressIsCanonical v = true → pageMap s v = none → ok = true) := by
  unfold vmmMapPage
  split
  · rename_i hbad
    refine ⟨_, _, _, rfl, hframes, fun _ => .refl htree, by simp, fun _ _ _ hlegal => ?_⟩
    obtain ⟨h1, h2, h3, h4⟩ := hlegal
    rcases hbad with h | h | h | h
    · exact absurd h1 h
    · exact absurd h2 h
    · exact absurd h3 h
    · exact absurd h.2 (h4 h.1)
  rename_i hbad
  have hlegal : MapLegal v p flags := by
    simp only [not_or, not_not, not_and] at hbad
    exact hbad
  unfold findLeafEntry
  by_cases hc : s.ready = true ∧ addressIsCanonical v = true
  swap
  · rw [if_pos (by simpa [-not_and, not_and_or] using hc)]
    refine ⟨_, _, _, rfl, hframes, fun _ => .refl htree, by simp, fun h1 _ _ _ h2 => ?_⟩
    exact absurd ⟨h1, h2⟩ hc
  obtain ⟨hready, hcanonical⟩ := hc
  rw [if_neg (by simp [hready, hcanonical])]
  obtain ⟨r, s₁, frames₁, heq, hsame, hframes₁, hr, hopen⟩ := walkTables_spec flags (tablePath v)
    htree hready hframes (q := []) (Nat.le_refl 3) rfl
  rw [heq]
  cases r with
  | none =>
    refine ⟨_, _, _, rfl, hframes₁, fun _ => hsame, by simp, fun _ ho hg => ?_⟩
    obtain ⟨t', ht'⟩ := hopen ho hg
    cases ht'
  | some t =>
    dsimp only
    have ht := hr t rfl
    have hmap := pageMap_of_table (hsame.ready.trans hready) hcanonical hlegal.1 ht
    rw [hsame.pageMap] at hmap
    split
    · rename_i hpresent
      refine ⟨_, _, _, rfl, hframes₁, fun _ => hsame, by simp, fun _ _ _ _ _ hnone => ?_⟩
      rw [hmap, mappingOf_eq_none_iff] at hnone
      exact absurd hnone hpresent
    · rename_i hpresent
      obtain ⟨hbecomes, htables⟩ := setLeaf_spec hsame.tree (hsame.ready.trans hready) hcanonical
        hlegal.1 ht (p ||| vmmPagePresent ||| (flags &&& vmmLeafFlags))
      refine ⟨_, _, _, rfl, hframes₁.congr hbecomes htables, by simp, fun _ => ?_,
        fun _ _ _ _ _ _ => rfl⟩
      refine ⟨hlegal, hcanonical, ?_, ?_⟩
      · rw [hmap, mappingOf_eq_none_iff]
        exact not_not.mp hpresent
      · rw [mappingOf_new flags hlegal.2.2.1, hsame.pageMap] at hbecomes
        exact Becomes.trans hsame hbecomes

/-- **`vmm_unmap_page`** takes the mapping of a page away, if it has one. -/
theorem vmmUnmapPage_spec (htree : VmmTree s) (v : UInt64) :
    (pageMap s v = none → vmmUnmapPage s v = (0, s)) ∧
      ∀ mapping, pageMap s v = some mapping → (vmmUnmapPage s v).1 = mapping.frame ∧
        Becomes s (vmmUnmapPage s v).2 (Function.update (pageMap s) v none) := by
  unfold vmmUnmapPage
  rw [findLeafEntry_look]
  by_cases haligned : v &&& pageOffsetMask = 0
  swap
  · rw [if_pos haligned, pageMap, if_neg fun h => haligned h.2.1]
    exact ⟨fun _ => rfl, by simp⟩
  rw [if_neg (not_not_intro haligned)]
  by_cases hc : s.ready = true ∧ addressIsCanonical v = true
  swap
  · rw [if_neg hc, pageMap, if_neg fun h => hc ⟨h.1, h.2.2⟩]
    exact ⟨fun _ => rfl, by simp⟩
  rw [if_pos hc]
  cases ht : s.tableAt (tablePath v) with
  | none =>
    rw [pageMap, if_pos ⟨hc.1, haligned, hc.2⟩, ht]
    exact ⟨fun _ => rfl, by simp⟩
  | some t =>
    rw [pageMap_of_table hc.1 hc.2 haligned ht, mappingOf_eq_none_iff]
    dsimp only [Option.map_some]
    split
    · rename_i hpresent
      refine ⟨fun _ => rfl, fun mapping h => ?_⟩
      rw [(mappingOf_eq_none_iff _).mpr hpresent] at h
      cases h
    · rename_i hpresent
      refine ⟨fun h => absurd h hpresent, fun mapping h => ?_⟩
      rw [mappingOf, if_neg hpresent] at h
      have hbecomes := (setLeaf_spec htree hc.1 hc.2 haligned ht 0).1
      rw [mappingOf_zero] at hbecomes
      exact ⟨by rw [← Option.some.inj h], hbecomes⟩

/-- **`vmm_virtual_to_physical`** looks the page up and adds the offset. -/
theorem vmmVirtualToPhysical_spec (s : Vmm) (v : UInt64) : vmmVirtualToPhysical s v =
    match pageMap s (pageOf v) with
    | none => 0
    | some mapping => mapping.frame + (v &&& pageOffsetMask) := by
  have haligned : pageOf v &&& pageOffsetMask = 0 := by
    rw [pageOffset_eq_zero_iff, toNat_pageOf, Nat.mul_mod_left]
  unfold vmmVirtualToPhysical
  rw [findLeafEntry_look, ← addressIsCanonical_pageOf, ← tablePath_pageOf, ← ptIndex_pageOf]
  by_cases hc : s.ready = true ∧ addressIsCanonical (pageOf v) = true
  swap
  · rw [if_neg hc, pageMap, if_neg fun h => hc ⟨h.1, h.2.2⟩]
  rw [if_pos hc]
  cases ht : s.tableAt (tablePath (pageOf v)) with
  | none => rw [pageMap, if_pos ⟨hc.1, haligned, hc.2⟩, ht]; rfl
  | some t =>
    rw [pageMap_of_table hc.1 hc.2 haligned ht, mappingOf]
    dsimp only [Option.map_some]
    split_ifs
    · rfl
    · dsimp only
      have hframe := toNat_pageFrame (s.entry (t, ptIndex (pageOf v)))
      have hoffset := toNat_pageOffset v
      apply UInt64.toNat_inj.mp
      rw [toNat_or_of_lt (k := 12) (by omega) (by omega), UInt64.toNat_add,
        Nat.mod_eq_of_lt (by omega)]

end

end Jani
