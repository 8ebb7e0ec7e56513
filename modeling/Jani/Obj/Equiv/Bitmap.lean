import Jani.Obj.Bitmap

/-!
# The bitmap as a set of sectors

With a buffer that is long enough, setting and clearing bits are insertion and removal in the set
of marked sectors (`bitmapTest_bitmapSetRange`, `bitmapTest_bitmapClearRange`), and an allocation
is a run of allocatable sectors none of which was marked (`bitmapAllocate_spec`), and the lowest
such run (`bitmapAllocate_lowest`).

The sectors of an extent are `firstSector + i` for `i < count`, in 64-bit arithmetic.
-/

namespace Jani

/-! ### Extents -/

/-- The sector belongs to the extent. -/
def InExtent (firstSector count sector : UInt64) : Prop := sector - firstSector < count

instance (firstSector count sector : UInt64) : Decidable (InExtent firstSector count sector) :=
  inferInstanceAs (Decidable (_ < _))

theorem inExtent_iff {firstSector count sector : UInt64}
    (h : firstSector.toNat + count.toNat ≤ 2 ^ 64) : InExtent firstSector count sector ↔
      firstSector.toNat ≤ sector.toNat ∧ sector.toNat < firstSector.toNat + count.toNat := by
  have hf := firstSector.toNat_lt
  have hs := sector.toNat_lt
  rw [InExtent, UInt64.lt_iff_toNat_lt, UInt64.toNat_sub]
  omega

theorem not_inExtent_zero (firstSector sector : UInt64) : ¬ InExtent firstSector 0 sector := by
  rw [InExtent, UInt64.lt_iff_toNat_lt]
  exact Nat.not_lt_zero _

theorem sub_toNat_lt_succ_iff (sector firstSector : UInt64) {n : Nat} (hn : n + 1 < 2 ^ 64) :
    (sector - firstSector).toNat < n + 1 ↔
      sector = firstSector ∨ (sector - (firstSector + 1)).toNat < n := by
  have hf := firstSector.toNat_lt
  have hs := sector.toNat_lt
  rw [UInt64.toNat_sub, UInt64.toNat_sub, UInt64.toNat_add, ← UInt64.toNat_inj]
  simp only [UInt64.reduceToNat]
  omega

/-! ### Bits -/

/-- The buffer holds a bit for every sector. -/
def BitmapFits (sectorCount : UInt64) (bitmap : List UInt8) : Prop :=
  sectorCount.toNat ≤ 8 * bitmap.length

theorem bitmapMask_toNat (sector : UInt64) :
    (bitmapMask sector).toNat = 2 ^ (sector.toNat % 8) := by
  have hlt : sector.toNat % 8 < 8 := Nat.mod_lt _ (by omega)
  have hk : (sector % 8).toUInt8.toNat = sector.toNat % 8 := by
    rw [UInt64.toNat_toUInt8, UInt64.toNat_mod]
    simp only [UInt64.reduceToNat]
    omega
  have hpow : 2 ^ (sector.toNat % 8) < 2 ^ 8 := Nat.pow_lt_pow_right (by omega) hlt
  rw [bitmapMask, UInt8.toNat_shiftLeft, hk, Nat.mod_eq_of_lt hlt, UInt8.toNat_one,
    Nat.one_shiftLeft, Nat.mod_eq_of_lt hpow]

theorem and_bitmapMask_ne_zero (byte : UInt8) (sector : UInt64) :
    byte &&& bitmapMask sector ≠ 0 ↔ byte.toNat.testBit (sector.toNat % 8) = true := by
  rw [Ne, ← UInt8.toNat_inj, UInt8.toNat_and, bitmapMask_toNat]
  constructor
  · intro h
    by_contra hbit
    apply h
    apply Nat.eq_of_testBit_eq
    intro i
    rw [Nat.testBit_and, Nat.testBit_two_pow]
    by_cases hi : sector.toNat % 8 = i
    · subst hi
      simp [Bool.eq_false_iff.mpr hbit]
    · simp [hi]
  · intro h hzero
    have := congrArg (Nat.testBit · (sector.toNat % 8)) hzero
    simp [Nat.testBit_and, h] at this

theorem testBit_or_bitmapMask (byte : UInt8) (sector : UInt64) (i : Nat) :
    (byte ||| bitmapMask sector).toNat.testBit i =
      if sector.toNat % 8 = i then true else byte.toNat.testBit i := by
  rw [UInt8.toNat_or, bitmapMask_toNat, Nat.testBit_or, Nat.testBit_two_pow]
  split_ifs with hi <;> simp [hi]

theorem testBit_and_not_bitmapMask (byte : UInt8) (sector : UInt64) {i : Nat} (hi : i < 8) :
    (byte &&& ~~~(bitmapMask sector)).toNat.testBit i =
      if sector.toNat % 8 = i then false else byte.toNat.testBit i := by
  have hlt : 2 ^ (sector.toNat % 8) < 2 ^ 8 :=
    Nat.pow_lt_pow_right (by omega) (Nat.mod_lt _ (by omega))
  have hnot : (~~~(bitmapMask sector)).toNat = 2 ^ 8 - (2 ^ (sector.toNat % 8) + 1) := by
    rw [UInt8.toNat_not, bitmapMask_toNat]
    have : UInt8.size = 256 := rfl
    omega
  rw [UInt8.toNat_and, hnot, Nat.testBit_and, Nat.testBit_two_pow_sub_succ hlt,
    Nat.testBit_two_pow]
  split_ifs with hbit <;> simp [hi, hbit]

theorem sector_ext {s t : UInt64} (hbyte : s.toNat / 8 = t.toNat / 8)
    (hbit : s.toNat % 8 = t.toNat % 8) : s = t := by
  apply UInt64.toNat_inj.mp
  omega

theorem sector_div_toNat (s : UInt64) : (s / 8).toNat = s.toNat / 8 := by
  rw [UInt64.toNat_div]
  rfl

section Marks

variable {n : UInt64} {bitmap : List UInt8}

theorem bitmapTest_of_ge {sector : UInt64}
    (h : n ≤ sector) : bitmapTest n bitmap sector = true := by
  rw [bitmapTest, if_pos h]

theorem bitmapTest_of_lt {sector : UInt64} (h : sector < n) : bitmapTest n bitmap sector =
      (bitmap.getD (sector.toNat / 8) 0).toNat.testBit (sector.toNat % 8) := by
  rw [bitmapTest, if_neg (UInt64.not_le.mpr h), sector_div_toNat, Bool.eq_iff_iff,
    decide_eq_true_eq, and_bitmapMask_ne_zero]

@[simp]
theorem length_bitmapSet (sector : UInt64) :
    (bitmapSet n bitmap sector).length = bitmap.length := by
  unfold bitmapSet
  split_ifs <;> simp

@[simp]
theorem length_bitmapClear (sector : UInt64) :
    (bitmapClear n bitmap sector).length = bitmap.length := by
  unfold bitmapClear
  split_ifs <;> simp

theorem getD_modify {f : UInt8 → UInt8} {i j : Nat} (hi : i < bitmap.length) :
    (bitmap.modify i f).getD j 0 = if i = j then f (bitmap.getD j 0) else bitmap.getD j 0 := by
  rw [List.getD_eq_getElem?_getD, List.getD_eq_getElem?_getD, List.getElem?_modify]
  split_ifs with hij
  · subst hij
    rw [List.getElem?_eq_getElem hi]
    rfl
  · simp

/-- A change of the bit of one sector leaves the bits of the others alone. -/
theorem bitmapTest_modify (hfit : BitmapFits n bitmap) {s t : UInt64} (ht : t < n)
    {f : UInt8 → UInt8} {v : Bool} (hf : ∀ byte : UInt8, ∀ i < 8, (f byte).toNat.testBit i =
      if s.toNat % 8 = i then v else byte.toNat.testBit i) :
    bitmapTest n (if s ≥ n then bitmap else bitmap.modify (s / 8).toNat f) t =
      if t = s then v else bitmapTest n bitmap t := by
  have ht' := UInt64.lt_iff_toNat_lt.mp ht
  split_ifs with hs heq heq
  · subst heq
    exact absurd ht (UInt64.not_lt.mpr hs)
  · rfl
  · have hbyte : s.toNat / 8 < bitmap.length := by unfold BitmapFits at hfit; subst heq; omega
    rw [bitmapTest_of_lt ht, sector_div_toNat, getD_modify hbyte, heq, if_pos rfl,
      hf _ _ (Nat.mod_lt _ (by omega)), if_pos rfl]
  · have hbyte : s.toNat / 8 < bitmap.length := by
      have hlt := UInt64.lt_iff_toNat_lt.mp (UInt64.not_le.mp hs)
      unfold BitmapFits at hfit
      omega
    rw [bitmapTest_of_lt ht, bitmapTest_of_lt ht, sector_div_toNat, getD_modify hbyte]
    split_ifs with hij
    · rw [hf _ _ (Nat.mod_lt _ (by omega)), if_neg fun hbit => heq (sector_ext hij hbit).symm]
    · rfl

theorem bitmapTest_bitmapSet (hfit : BitmapFits n bitmap) (s : UInt64) {t : UInt64} (ht : t < n) :
    bitmapTest n (bitmapSet n bitmap s) t = if t = s then true else bitmapTest n bitmap t :=
  bitmapTest_modify hfit ht fun byte i _ => testBit_or_bitmapMask byte s i

theorem bitmapTest_bitmapClear (hfit : BitmapFits n bitmap) (s : UInt64) {t : UInt64} (ht : t < n) :
    bitmapTest n (bitmapClear n bitmap s) t = if t = s then false else bitmapTest n bitmap t :=
  bitmapTest_modify hfit ht fun byte _ hi => testBit_and_not_bitmapMask byte s hi

end Marks

/-! ### Ranges -/

theorem length_bitmapRange {f : List UInt8 → UInt64 → List UInt8}
    (hf : ∀ b s, (f b s).length = b.length) : ∀ (k : Nat) (bitmap : List UInt8) (s : UInt64),
      (bitmapRange f k bitmap s).length = bitmap.length
  | 0, _, _ => rfl
  | k + 1, bitmap, s => by rw [bitmapRange, length_bitmapRange hf k, hf]

section Ranges

variable {n : UInt64}

@[simp]
theorem length_bitmapSetRange (bitmap : List UInt8) (firstSector count : UInt64) :
    (bitmapSetRange n bitmap firstSector count).length = bitmap.length :=
  length_bitmapRange (fun _ _ => length_bitmapSet _) _ _ _

@[simp]
theorem length_bitmapClearRange (bitmap : List UInt8) (firstSector count : UInt64) :
    (bitmapClearRange n bitmap firstSector count).length = bitmap.length :=
  length_bitmapRange (fun _ _ => length_bitmapClear _) _ _ _

theorem bitmapTest_bitmapRange {f : List UInt8 → UInt64 → List UInt8} {v : Bool} {t : UInt64}
    (hlength : ∀ b s, (f b s).length = b.length)
    (hf : ∀ b s, BitmapFits n b → bitmapTest n (f b s) t = if t = s then v else bitmapTest n b t) :
    ∀ (k : Nat) (bitmap : List UInt8) (s : UInt64), k < 2 ^ 64 → BitmapFits n bitmap →
      bitmapTest n (bitmapRange f k bitmap s) t =
        if (t - s).toNat < k then v else bitmapTest n bitmap t
  | 0, bitmap, s, _, _ => rfl
  | k + 1, bitmap, s, hk, hfit => by
    have hfit' : BitmapFits n (f bitmap s) := by
      rw [BitmapFits, hlength]
      exact hfit
    rw [bitmapRange, bitmapTest_bitmapRange hlength hf k _ _ (by omega) hfit', hf _ _ hfit,
      if_congr (sub_toNat_lt_succ_iff t s hk) rfl rfl]
    split_ifs <;> tauto

variable {bitmap : List UInt8}

/-- **Marking an extent** adds its sectors. -/
theorem bitmapTest_bitmapSetRange (hfit : BitmapFits n bitmap) (firstSector count t : UInt64) :
    bitmapTest n (bitmapSetRange n bitmap firstSector count) t = true ↔
      bitmapTest n bitmap t = true ∨ InExtent firstSector count t := by
  rcases UInt64.lt_or_le t n with ht | ht
  · rw [bitmapSetRange, bitmapTest_bitmapRange (fun _ _ => length_bitmapSet _)
      (fun _ s h => bitmapTest_bitmapSet h s ht) _ _ _ count.toNat_lt hfit, InExtent,
      UInt64.lt_iff_toNat_lt]
    split_ifs with h <;> simp [h]
  · simp [bitmapTest_of_ge ht]

/-- **Clearing an extent** removes its sectors. -/
theorem bitmapTest_bitmapClearRange (hfit : BitmapFits n bitmap) (firstSector count : UInt64)
    {t : UInt64} (ht : t < n) :
    bitmapTest n (bitmapClearRange n bitmap firstSector count) t = true ↔
      bitmapTest n bitmap t = true ∧ ¬ InExtent firstSector count t := by
  rw [bitmapClearRange, bitmapTest_bitmapRange (fun _ _ => length_bitmapClear _)
    (fun _ s h => bitmapTest_bitmapClear h s ht) _ _ _ count.toNat_lt hfit, InExtent,
    UInt64.lt_iff_toNat_lt]
  split_ifs with h <;> simp [h]

end Ranges

/-! ### Allocation -/

theorem toNat_add_one {a : UInt64} (h : a.toNat + 1 < 2 ^ 64) : (a + 1).toNat = a.toNat + 1 := by
  rw [UInt64.toNat_add, UInt64.toNat_one, Nat.mod_eq_of_lt h]

theorem toNat_succ_of_lt {a b : UInt64} (h : a < b) : (a + 1).toNat = a.toNat + 1 := by
  have hlt := UInt64.lt_iff_toNat_lt.mp h
  have hb := b.toNat_lt
  exact toNat_add_one (by omega)

theorem succ_lt_of_ne {a b : UInt64} (h : a < b) (hne : a + 1 ≠ b) : a + 1 < b := by
  have hlt := UInt64.lt_iff_toNat_lt.mp h
  have hsucc : a.toNat + 1 ≠ b.toNat := fun heq =>
    hne (UInt64.toNat_inj.mp (by rw [toNat_succ_of_lt h, heq]))
  rw [UInt64.lt_iff_toNat_lt, toNat_succ_of_lt h]
  omega

variable {bitmap : List UInt8} {n : UInt64}

/-- The search keeps `run` free sectors behind it, all of them allocatable. -/
theorem bitmapFindRun_spec {count : UInt64} : ∀ (fuel : Nat) (sector run firstSector : UInt64),
      3 + run.toNat ≤ sector.toNat → run < count →
      (∀ t : UInt64, sector.toNat - run.toNat ≤ t.toNat → t.toNat < sector.toNat →
        bitmapTest n bitmap t = false) →
      bitmapFindRun n bitmap count fuel sector run = some firstSector →
      3 ≤ firstSector.toNat ∧ firstSector.toNat + count.toNat ≤ n.toNat ∧
        ∀ t : UInt64, firstSector.toNat ≤ t.toNat →
          t.toNat < firstSector.toNat + count.toNat → bitmapTest n bitmap t = false
  | 0, _, _, _, _, _, _, h => by cases h
  | fuel + 1, sector, run, firstSector, hbase, hrun, hfree, h => by
    have hrun' := UInt64.lt_iff_toNat_lt.mp hrun
    rw [bitmapFindRun] at h
    split_ifs at h with hlt htest hdone
    · -- a marked sector: the run starts again behind it
      have hs1 := toNat_succ_of_lt hlt
      refine bitmapFindRun_spec fuel (sector + 1) 0 firstSector ?_ ?_ ?_ h
      · rw [hs1]
        simp only [UInt64.reduceToNat]
        omega
      · rw [UInt64.lt_iff_toNat_lt]
        simp only [UInt64.reduceToNat]
        omega
      · intro t h1 h2
        rw [hs1] at h1 h2
        simp only [UInt64.reduceToNat] at h1
        omega
    · -- the run is complete
      have hnat := UInt64.lt_iff_toNat_lt.mp hlt
      have hcount := toNat_succ_of_lt hrun
      rw [hdone] at hcount
      have hfirst : firstSector.toNat = sector.toNat - run.toNat := by
        have hs := sector.toNat_lt
        rw [← Option.some.inj h, UInt64.toNat_add, UInt64.toNat_sub]
        simp only [UInt64.reduceToNat]
        omega
      refine ⟨by omega, by omega, ?_⟩
      intro t h1 h2
      rcases Nat.lt_or_ge t.toNat sector.toNat with h3 | h3
      · exact hfree t (by omega) h3
      · have : t = sector := UInt64.toNat_inj.mp (by omega)
        rw [this]
        exact Bool.eq_false_iff.mpr htest
    · -- the run grows by this sector
      have hs1 := toNat_succ_of_lt hlt
      have hr1 := toNat_succ_of_lt hrun
      refine bitmapFindRun_spec fuel (sector + 1) (run + 1) firstSector ?_
        (succ_lt_of_ne hrun hdone) ?_ h
      · omega
      · intro t h1 h2
        rcases Nat.lt_or_ge t.toNat sector.toNat with h3 | h3
        · exact hfree t (by omega) h3
        · have : t = sector := UInt64.toNat_inj.mp (by omega)
          rw [this]
          exact Bool.eq_false_iff.mpr htest

/-- What an allocation guarantees. -/
structure Allocated (n : UInt64) (bitmap : List UInt8) (count firstSector : UInt64) : Prop where
  first : 3 ≤ firstSector.toNat
  last : firstSector.toNat + count.toNat ≤ n.toNat
  pos : 0 < count.toNat
  free : ∀ t : UInt64, InExtent firstSector count t → bitmapTest n bitmap t = false

theorem Allocated.three_le {count firstSector t : UInt64} (h : Allocated n bitmap count firstSector)
    (ht : InExtent firstSector count t) : 3 ≤ t.toNat := by
  have hn := n.toNat_lt
  have hlast := h.last
  rw [inExtent_iff (by omega)] at ht
  exact h.first.trans ht.1

/-- **Allocation**: the run consists of allocatable sectors that were not marked. -/
theorem bitmapAllocate_spec {bitmap bitmap' : List UInt8} {count firstSector : UInt64}
    (h : bitmapAllocate n bitmap count = some (firstSector, bitmap')) :
    Allocated n bitmap count firstSector ∧
      bitmap' = bitmapSetRange n bitmap firstSector count := by
  unfold bitmapAllocate at h
  split_ifs at h with hguard
  rw [not_or] at hguard
  have hpos : 0 < count.toNat := by
    have : count.toNat ≠ (0 : UInt64).toNat := fun hc => hguard.1 (UInt64.toNat_inj.mp hc)
    simp only [UInt64.reduceToNat] at this
    omega
  split at h
  · cases h
  rename_i s hrun
  obtain ⟨rfl, rfl⟩ := Prod.mk.inj (Option.some.inj h)
  have hspec := bitmapFindRun_spec n.toNat objectStoreFirstAllocatableSector 0 s
    (by decide) (UInt64.lt_iff_toNat_lt.mpr hpos)
    (by intro t h1 h2; simp only [UInt64.reduceToNat, Nat.sub_zero] at h1; omega) hrun
  refine ⟨⟨hspec.1, hspec.2.1, hpos, ?_⟩, rfl⟩
  intro t ht
  have hn := n.toNat_lt
  rw [inExtent_iff (by omega)] at ht
  exact hspec.2.2 t ht.1 ht.2

/-! ### First fit -/

/-- The search passes by no free run: while each of them starts at the current one or behind it,
the search comes to an end at the first of them. -/
theorem bitmapFindRun_lowest {count other : UInt64} (h : Allocated n bitmap count other) :
    ∀ (fuel : Nat) (sector run : UInt64),
      run < count → run.toNat ≤ sector.toNat → n.toNat ≤ sector.toNat + fuel →
      sector.toNat ≤ other.toNat + run.toNat →
      ∃ firstSector, bitmapFindRun n bitmap count fuel sector run = some firstSector ∧
        firstSector ≤ other
  | 0, sector, run, hrun, _, hfuel, hpass => by
    have hrun' := UInt64.lt_iff_toNat_lt.mp hrun
    have hlast := h.last
    omega
  | fuel + 1, sector, run, hrun, hle, hfuel, hpass => by
    have hrun' := UInt64.lt_iff_toNat_lt.mp hrun
    have hlast := h.last
    have hn := n.toNat_lt
    have hlt : sector < n := UInt64.lt_iff_toNat_lt.mpr (by omega)
    have hs1 := toNat_succ_of_lt hlt
    have hr1 := toNat_succ_of_lt hrun
    rw [bitmapFindRun, if_pos hlt]
    split_ifs with htest hdone
    · -- a marked sector is not in the run, which therefore starts behind it
      refine bitmapFindRun_lowest h fuel (sector + 1) 0 ?_ (Nat.zero_le _) (by omega) ?_
      · rw [UInt64.lt_iff_toNat_lt, UInt64.toNat_zero]
        omega
      · by_contra hnot
        rw [UInt64.toNat_zero] at hnot
        have hin : InExtent other count sector :=
          (inExtent_iff (by omega)).mpr ⟨by omega, by omega⟩
        rw [h.free sector hin] at htest
        cases htest
    · refine ⟨_, rfl, ?_⟩
      rw [hdone] at hr1
      rw [UInt64.le_iff_toNat_le, UInt64.toNat_add, UInt64.toNat_sub, UInt64.toNat_one]
      omega
    · exact bitmapFindRun_lowest h fuel (sector + 1) (run + 1) (succ_lt_of_ne hrun hdone)
        (by omega) (by omega) (by omega)

theorem bitmapAllocate_lowest {count other : UInt64} (h : Allocated n bitmap count other) :
    ∃ firstSector bitmap',
      bitmapAllocate n bitmap count = some (firstSector, bitmap') ∧ firstSector ≤ other := by
  have hfirst := h.first
  have hlast := h.last
  have hpos : (0 : UInt64) < count := UInt64.lt_iff_toNat_lt.mpr h.pos
  obtain ⟨firstSector, hfind, hle⟩ := bitmapFindRun_lowest h n.toNat
    objectStoreFirstAllocatableSector 0 hpos (Nat.zero_le _) (Nat.le_add_left _ _) hfirst
  refine ⟨firstSector, bitmapSetRange n bitmap firstSector count, ?_, hle⟩
  have hguard : ¬ (count = 0 ∨ count > n) := by
    rw [not_or, gt_iff_lt, UInt64.not_lt, UInt64.le_iff_toNat_le]
    exact ⟨(UInt64.ne_of_lt hpos).symm, by omega⟩
  rw [bitmapAllocate, if_neg hguard, hfind]

theorem bitmapRange_set_congr {n N : UInt64} (hle : n ≤ N) : ∀ (k : Nat) (bitmap : List UInt8)
    (s : UInt64), s.toNat + k ≤ n.toNat →
      bitmapRange (bitmapSet n) k bitmap s = bitmapRange (bitmapSet N) k bitmap s
  | 0, _, _, _ => rfl
  | k + 1, bitmap, s, h => by
    have hs : s < n := UInt64.lt_iff_toNat_lt.mpr (by omega)
    have hset : bitmapSet n bitmap s = bitmapSet N bitmap s := by
      rw [bitmapSet, bitmapSet, if_neg (UInt64.not_le.mpr hs),
        if_neg (UInt64.not_le.mpr (UInt64.lt_of_lt_of_le hs hle))]
    rw [bitmapRange, bitmapRange, hset]
    exact bitmapRange_set_congr hle k _ _ (by rw [toNat_succ_of_lt hs]; omega)

/-- The bitmap after a call, which changes it only if it succeeds. -/
def bitmapAfter (sectorCount : UInt64) (bitmap : List UInt8) (count : UInt64) : List UInt8 :=
  match bitmapAllocate sectorCount bitmap count with
  | none => bitmap
  | some (_, bitmap') => bitmap'

/-- **First fit**: an allocation succeeds exactly if there is a free run of the length, and then
returns the lowest one.  Its bits are set and all others are left, also those of the buffer behind
the last sector: the buffer is read as the bitmap of any number of sectors it has room for. -/
theorem bitmap_allocate_first_fit (n : UInt64) (bitmap : List UInt8) (count : UInt64) :
    ((bitmapAllocate n bitmap count).isSome = true ↔ ∃ first, Allocated n bitmap count first) ∧
    (∀ first bitmap', bitmapAllocate n bitmap count = some (first, bitmap') →
      Allocated n bitmap count first ∧
      (∀ other, Allocated n bitmap count other → first ≤ other) ∧
      bitmapAfter n bitmap count = bitmap' ∧ bitmap'.length = bitmap.length ∧
      ∀ N t, n ≤ N → BitmapFits N bitmap →
        (bitmapTest N bitmap' t = true ↔
          bitmapTest N bitmap t = true ∨ InExtent first count t)) ∧
    (bitmapAllocate n bitmap count = none → bitmapAfter n bitmap count = bitmap) := by
  refine ⟨⟨fun hsome => ?_, ?_⟩, fun first bitmap' h => ?_, fun h => ?_⟩
  · obtain ⟨⟨first, bitmap'⟩, h⟩ := Option.isSome_iff_exists.mp hsome
    exact ⟨first, (bitmapAllocate_spec h).1⟩
  · rintro ⟨other, hother⟩
    obtain ⟨first, bitmap', h, -⟩ := bitmapAllocate_lowest hother
    rw [h]
    rfl
  · obtain ⟨hal, rfl⟩ := bitmapAllocate_spec h
    refine ⟨hal, fun other hother => ?_, by rw [bitmapAfter, h], length_bitmapSetRange _ _ _,
      fun N t hle hfit => ?_⟩
    · obtain ⟨first', bitmap', h', hle⟩ := bitmapAllocate_lowest hother
      obtain ⟨rfl, -⟩ := Prod.mk.inj (Option.some.inj (h.symm.trans h'))
      exact hle
    · rw [bitmapSetRange, bitmapRange_set_congr hle _ _ _ hal.last]
      exact bitmapTest_bitmapSetRange hfit first count t
  · rw [bitmapAfter, h]

end Jani
