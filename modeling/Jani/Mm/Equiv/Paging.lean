import Jani.Mm.Equiv.Vmm

/-!
# Paging refines a finite map

Calls of `vmm_map_page`, `vmm_unmap_page`, `vmm_virtual_to_physical` and `mmio_map`, in any order
and with any arguments, act on the map of pages that the tables mean: `PagingCall.Refines` says
what each call may do to the map, and `paging_refines` that it does.

A frame of zero stands for failure in what `vmm_unmap_page` and `vmm_virtual_to_physical` return,
but `vmm_map_page` accepts it.  The calls are a refinement as long as nobody maps that frame
(`NonzeroFrame`); `paging_frame_zero` shows what happens otherwise.
-/

namespace Jani

/-! ### Runs -/

inductive PagingCall where
  | map (virtualAddress physicalAddress flags : UInt64) (frames : List UInt64)
  | unmap (virtualAddress : UInt64)
  | translate (virtualAddress : UInt64)
  | mmio (physicalAddress length : UInt64) (frames : List UInt64)

/-- What the caller gets, with one for success of `vmm_map_page`, and the state after the call. -/
def pagingStep (p : Paging) : PagingCall → UInt64 × Paging
  | .map v physical flags frames =>
    let result := vmmMapPage p.vmm v physical flags frames
    (if result.1 then 1 else 0, { p with vmm := result.2.1 })
  | .unmap v => ((vmmUnmapPage p.vmm v).1, { p with vmm := (vmmUnmapPage p.vmm v).2 })
  | .translate v => (vmmVirtualToPhysical p.vmm v, p)
  | .mmio physical length frames =>
    ((mmioMap p physical length frames).1, (mmioMap p physical length frames).2.1)

/-- The frames that the allocator hands out during a call are not page tables. -/
def PagingCall.FramesOk (s : Vmm) : PagingCall → Prop
  | .map _ _ _ frames => Jani.FramesOk s frames
  | .mmio _ _ frames => Jani.FramesOk s frames
  | .unmap _ => True
  | .translate _ => True

/-- The call asks for no mapping of frame zero. -/
def PagingCall.NonzeroFrame : PagingCall → Prop
  | .map _ physical _ _ => physical ≠ 0
  | .mmio physical _ _ => pageOf physical ≠ 0
  | .unmap _ => True
  | .translate _ => True

/-- States that calls lead to, each call with what `ok` asks for. -/
inductive PagingRun (ok : PagingCall → Prop) (start : Paging) : Paging → Prop
  | start : PagingRun ok start start
  | step {p : Paging} {call : PagingCall} (hrun : PagingRun ok start p)
      (hframes : call.FramesOk p.vmm) (hok : ok call) :
      PagingRun ok start (pagingStep p call).2

/-! ### The map -/

/-- The map takes canonical pages to frames other than zero. -/
def AddressSpace.Proper (A : AddressSpace) : Prop :=
  ∀ v mapping, A v = some mapping →
    v &&& pageOffsetMask = 0 ∧ addressIsCanonical v = true ∧ mapping.frame ≠ 0 ∧
      mapping.frame &&& pageOffsetMask = 0

def PageMapping.WritableExecutable (mapping : PageMapping) : Prop :=
  mapping.flags &&& vmmPageWritable ≠ 0 ∧ mapping.flags &&& vmmPageNoExecute = 0

/-- `A'` has mappings for `count` pages from `first` on that `A` did not have, and agrees with `A`
elsewhere. -/
def MapsRange (A : AddressSpace) (first physical : UInt64) (count : Nat) (A' : AddressSpace) :
    Prop :=
  (∀ i < count, A (first + UInt64.ofNat i * mmioPageSize) = none ∧
    A' (first + UInt64.ofNat i * mmioPageSize) =
      some (newMapping (physical + UInt64.ofNat i * mmioPageSize) mmioFlags)) ∧
    ∀ v, (∀ i < count, v ≠ first + UInt64.ofNat i * mmioPageSize) → A' v = A v

/-- How many pages a device takes. -/
def mmioPageCount (physical length : UInt64) : Nat :=
  ((physical &&& pageOffsetMask).toNat + length.toNat + 4095) / 4096

/-- What a call may return and do to the map. -/
def PagingCall.Refines (p : Paging) (r : UInt64) (A A' : AddressSpace) : PagingCall → Prop
  | .map v physical flags frames =>
    (r = 0 → A' = A) ∧
      (r ≠ 0 → MapLegal v physical flags ∧ addressIsCanonical v = true ∧ A v = none ∧
        A' = Function.update A v (some (newMapping physical flags))) ∧
      (p.vmm.ready = true → PathOpen p.vmm [] (tablePath v) → Granted p.vmm 3 frames →
        MapLegal v physical flags → addressIsCanonical v = true → A v = none → r ≠ 0)
  | .unmap v =>
    (r = 0 → A v = none ∧ A' = A) ∧
      (r ≠ 0 → ∃ mapping, A v = some mapping ∧ r = mapping.frame ∧ A' = Function.update A v none)
  | .translate v =>
    A' = A ∧ (A (pageOf v) = none → r = 0) ∧
      ∀ mapping, A (pageOf v) = some mapping →
        r.toNat = mapping.frame.toNat + (v &&& pageOffsetMask).toNat
  | .mmio physical length _ =>
    (r = 0 → A' = A) ∧
      (r ≠ 0 → r = p.mmioNextVirtual + (physical &&& pageOffsetMask) ∧
        MapsRange A p.mmioNextVirtual (pageOf physical) (mmioPageCount physical length) A')

/-! ### Device memory -/

section

variable {A A' : AddressSpace} {first physical : UInt64} {count : Nat}

theorem MapsRange.snoc (h : MapsRange A first physical count A')
    (hnone : A' (first + UInt64.ofNat count * mmioPageSize) = none) :
    MapsRange A first physical (count + 1)
      (Function.update A' (first + UInt64.ofNat count * mmioPageSize)
        (some (newMapping (physical + UInt64.ofNat count * mmioPageSize) mmioFlags))) := by
  have hne : ∀ i < count, first + UInt64.ofNat count * mmioPageSize ≠
      first + UInt64.ofNat i * mmioPageSize := fun i hi heq => by
    rw [heq, (h.1 i hi).2] at hnone
    cases hnone
  refine ⟨fun i hi => ?_, fun v hv => ?_⟩
  · by_cases heq : i = count
    · subst heq
      rw [Function.update_self, ← h.2 _ hne]
      exact ⟨hnone, rfl⟩
    · have hi' : i < count := by omega
      rw [Function.update_of_ne (hne i hi').symm]
      exact h.1 i hi'
  · rw [Function.update_of_ne (hv count (Nat.lt_succ_self _))]
    exact h.2 v fun i hi => hv i (Nat.lt_succ_of_lt hi)

/-- The arguments of the first `count` calls of the loop of `mmio_map` are in order. -/
def RangeLegal (first physical : UInt64) (count : Nat) : Prop :=
  ∀ i < count, MapLegal (first + UInt64.ofNat i * mmioPageSize)
    (physical + UInt64.ofNat i * mmioPageSize) mmioFlags ∧
    addressIsCanonical (first + UInt64.ofNat i * mmioPageSize) = true

/-- **The loop of `mmio_map`.**  A failure takes back the pages that were mapped, so that the map
is the one from before the loop. -/
theorem mmioMapPages_spec {s₀ : Vmm} (first physical : UInt64) : ∀ (remaining index : Nat)
    {s : Vmm} {frames : List UInt64}, Becomes s₀ s (pageMap s) → FramesOk s frames →
    (∀ u, SameMeaning s u → SameMeaning s₀ (mmioUnmapPages first index u)) →
    MapsRange (pageMap s₀) first physical index (pageMap s) → RangeLegal first physical index →
    ∃ ok s' frames',
      mmioMapPages first physical remaining index s frames = (ok, s', frames') ∧
      (ok = false → SameMeaning s₀ s') ∧
      (ok = true → Becomes s₀ s' (pageMap s') ∧
        MapsRange (pageMap s₀) first physical (index + remaining) (pageMap s') ∧
        RangeLegal first physical (index + remaining)) := by
  intro remaining
  induction remaining with
  | zero =>
    intro index s frames hs hframes _ hdone hlegal
    exact ⟨true, s, frames, rfl, by simp, fun _ => ⟨hs, hdone, hlegal⟩⟩
  | succ remaining ih =>
    intro index s frames hs hframes hundo hdone hlegal
    rw [mmioMapPages]
    set v := first + UInt64.ofNat index * mmioPageSize with hv
    obtain ⟨ok, s₁, frames₁, heq, hframes₁, hfailed, hmapped, -⟩ := vmmMapPage_spec hs.tree
      hframes v (physical + UInt64.ofNat index * mmioPageSize) mmioFlags
    rw [heq]
    cases ok with
    | false => exact ⟨_, _, _, rfl, fun _ => hundo s₁ (hfailed rfl), by simp⟩
    | true =>
      obtain ⟨hlegal', hcanonical, hnone, hbecomes⟩ := hmapped rfl
      have hs₁ : Becomes s₀ s₁ (pageMap s₁) := by
        rw [hbecomes.pageMap]
        exact hs.trans hbecomes
      rw [show index + (remaining + 1) = index + 1 + remaining by omega]
      refine ih (index + 1) hs₁ hframes₁ (fun u hu => ?_) ?_ fun i hi => ?_
      · -- taking the page back gives the map before it
        rw [SameMeaning, hbecomes.pageMap] at hu
        have hunmap := (vmmUnmapPage_spec hu.tree v).2
          (newMapping (physical + UInt64.ofNat index * mmioPageSize) mmioFlags)
          (by rw [hu.pageMap, Function.update_self])
        have hback := hunmap.2
        rw [hu.pageMap, Function.update_idem, ← hnone, Function.update_eq_self] at hback
        exact hundo _ ((hbecomes.trans hu).trans hback)
      · rw [hbecomes.pageMap]
        exact hdone.snoc hnone
      · rcases Nat.lt_succ_iff_lt_or_eq.mp hi with hi | rfl
        · exact hlegal i hi
        · exact ⟨hlegal', hcanonical⟩

theorem RangeLegal.toNat_frame (h : RangeLegal first physical count) :
    ∀ i < count, (physical + UInt64.ofNat i * mmioPageSize).toNat = physical.toNat + i * 4096 := by
  intro i
  induction i with
  | zero => intro _; simp
  | succ i ih =>
    intro hi
    have hi' : i < count := Nat.lt_of_succ_lt hi
    have hprevious := ih hi'
    obtain ⟨⟨-, -, hfits, -⟩, -⟩ := h i hi'
    have hlt : (physical + UInt64.ofNat i * mmioPageSize).toNat < 2 ^ 52 := by
      rw [← and_mask_eq_self hfits, toNat_pageFrame]
      omega
    have hnext : physical + UInt64.ofNat (i + 1) * mmioPageSize =
        physical + UInt64.ofNat i * mmioPageSize + mmioPageSize := by
      rw [UInt64.ofNat_add, UInt64.add_mul, UInt64.add_assoc]
      rfl
    rw [hnext, UInt64.toNat_add, hprevious, show mmioPageSize.toNat = 4096 from rfl,
      Nat.mod_eq_of_lt (by omega)]
    omega

end

theorem pageOf_eq_sub (a : UInt64) : a - (a &&& (mmioPageSize - 1)) = pageOf a := by
  have hmask : mmioPageSize - 1 = pageOffsetMask := by decide
  have hoffset := toNat_pageOffset a
  apply UInt64.toNat_inj.mp
  rw [hmask, UInt64.toNat_sub_of_le _ _ (by rw [UInt64.le_iff_toNat_le]; omega), hoffset,
    toNat_pageOf]
  omega

/-- The place for the next device lies in the region for devices. -/
def MmioNextOk (p : Paging) : Prop :=
  memoryLayoutMmioBase.toNat ≤ p.mmioNextVirtual.toNat ∧
    p.mmioNextVirtual.toNat ≤ memoryLayoutMmioBase.toNat + memoryLayoutMmioSize.toNat

/-- What `mmio_map` does: nothing to the map, or the pages of the device are mapped. -/
inductive MmioOutcome (p : Paging) (physical length : UInt64) : UInt64 → Paging → Prop
  | refused {p' : Paging} (hsame : SameMeaning p.vmm p'.vmm)
      (hnext : p'.mmioNextVirtual = p.mmioNextVirtual) : MmioOutcome p physical length 0 p'
  | mapped {p' : Paging} (hne : p.mmioNextVirtual + (physical &&& pageOffsetMask) ≠ 0)
      (hbecomes : Becomes p.vmm p'.vmm (pageMap p'.vmm)) (hnext : MmioNextOk p')
      (hrange : MapsRange (pageMap p.vmm) p.mmioNextVirtual (pageOf physical)
        (mmioPageCount physical length) (pageMap p'.vmm))
      (hlegal : RangeLegal p.mmioNextVirtual (pageOf physical) (mmioPageCount physical length)) :
      MmioOutcome p physical length (p.mmioNextVirtual + (physical &&& pageOffsetMask)) p'

/-- **`mmio_map`** maps the pages of a device, or changes no mapping. -/
theorem mmioMap_spec {p : Paging} (htree : VmmTree p.vmm) (hnext : MmioNextOk p)
    {frames : List UInt64} (hframes : FramesOk p.vmm frames) (physical length : UInt64) :
    MmioOutcome p physical length (mmioMap p physical length frames).1
      (mmioMap p physical length frames).2.1 := by
  have hrefused : MmioOutcome p physical length 0 p := .refused (.refl htree) rfl
  obtain ⟨hbase, hend⟩ := hnext
  have hbaseNat : memoryLayoutMmioBase.toNat = 0xFFFFD08000000000 := rfl
  have hsizeNat : memoryLayoutMmioSize.toNat = 0x8000000000 := rfl
  have hpageNat : mmioPageSize.toNat = 4096 := rfl
  have hmaskNat : pageOffsetMask.toNat = 4095 := rfl
  have hoffset := toNat_pageOffset physical
  unfold mmioMap
  dsimp only
  rw [pageOf_eq_sub, show mmioPageSize - 1 = pageOffsetMask by decide]
  set offset := physical &&& pageOffsetMask with hoffsetDef
  by_cases h0 : length = 0
  · rw [if_pos h0]
    exact hrefused
  rw [if_neg h0]
  split
  · exact hrefused
  rename_i hlength
  split
  · exact hrefused
  rename_i hspan
  split
  · exact hrefused
  rename_i hroom
  -- nothing overflows, so the machine words are the numbers
  have hmax : (0xffffffffffffffff - offset - pageOffsetMask).toNat =
      2 ^ 64 - 1 - offset.toNat - 4095 := by
    have h1 : (0xffffffffffffffff - offset).toNat = 2 ^ 64 - 1 - offset.toNat :=
      UInt64.toNat_sub_of_le _ _ (by
        rw [UInt64.le_iff_toNat_le]
        show offset.toNat ≤ 2 ^ 64 - 1
        omega)
    rw [UInt64.toNat_sub_of_le _ _ (by rw [UInt64.le_iff_toNat_le]; omega), h1, hmaskNat]
  rw [gt_iff_lt, UInt64.not_lt, UInt64.le_iff_toNat_le] at hlength hspan hroom
  rw [hmax] at hlength
  have hcount : ((offset + length + pageOffsetMask) / mmioPageSize).toNat =
      mmioPageCount physical length := by
    rw [UInt64.toNat_div, UInt64.toNat_add, UInt64.toNat_add, hmaskNat, hpageNat, mmioPageCount,
      ← hoffsetDef, Nat.mod_eq_of_lt (show offset.toNat + length.toNat < 2 ^ 64 by omega),
      Nat.mod_eq_of_lt (by omega)]
  have hspanNat : ((offset + length + pageOffsetMask) / mmioPageSize * mmioPageSize).toNat =
      mmioPageCount physical length * 4096 := by
    rw [UInt64.toNat_mul, hcount, hpageNat, Nat.mod_eq_of_lt]
    rw [mmioPageCount, ← hoffsetDef]
    omega
  rw [UInt64.toNat_sub_of_le _ _ (UInt64.le_iff_toNat_le.mpr hbase),
    UInt64.toNat_sub_of_le _ _ (UInt64.le_iff_toNat_le.mpr hspan), hspanNat] at hroom
  rw [hspanNat] at hspan
  rw [hcount]
  have hsame : SameMeaning p.vmm p.vmm := .refl htree
  obtain ⟨ok, s', frames', heq, hfailed, hmapped⟩ := mmioMapPages_spec p.mmioNextVirtual
    (pageOf physical) (mmioPageCount physical length) 0 hsame hframes (fun u hu => hu)
    ⟨fun i hi => absurd hi (Nat.not_lt_zero i), fun v _ => rfl⟩
    (fun i hi => absurd hi (Nat.not_lt_zero i))
  rw [heq]
  cases ok with
  | false => exact .refused (hfailed rfl) rfl
  | true =>
    obtain ⟨hbecomes, hrange, hlegal⟩ := hmapped rfl
    rw [Nat.zero_add] at hrange hlegal
    refine .mapped (fun hzero => ?_) hbecomes ?_ hrange hlegal
    · have := congrArg UInt64.toNat hzero
      rw [← hoffsetDef, UInt64.toNat_add, Nat.mod_eq_of_lt (by omega), UInt64.toNat_zero] at this
      omega
    · unfold MmioNextOk
      dsimp only
      rw [UInt64.toNat_add, hspanNat, Nat.mod_eq_of_lt (by omega)]
      omega

/-! ### The refinement -/

/-- What holds between calls. -/
structure PagingInv (p : Paging) : Prop where
  tree : VmmTree p.vmm
  proper : (pageMap p.vmm).Proper
  next : MmioNextOk p

theorem AddressSpace.Proper.update {A : AddressSpace} (h : A.Proper) {v physical flags : UInt64}
    (hlegal : MapLegal v physical flags) (hcanonical : addressIsCanonical v = true)
    (hphysical : physical ≠ 0) :
    AddressSpace.Proper (Function.update A v (some (newMapping physical flags))) := by
  intro w mapping hw
  by_cases hwv : w = v
  · subst hwv
    rw [Function.update_self] at hw
    rw [← Option.some.inj hw]
    exact ⟨hlegal.1, hcanonical, hphysical, hlegal.2.1⟩
  · rw [Function.update_of_ne hwv] at hw
    exact h w mapping hw

theorem AddressSpace.Proper.remove {A : AddressSpace} (h : A.Proper) (v : UInt64) :
    AddressSpace.Proper (Function.update A v none) := by
  intro w mapping hw
  by_cases hwv : w = v
  · rw [hwv, Function.update_self] at hw
    cases hw
  · rw [Function.update_of_ne hwv] at hw
    exact h w mapping hw

theorem AddressSpace.Proper.range {A A' : AddressSpace} (h : A.Proper) {first physical : UInt64}
    {count : Nat} (hrange : MapsRange A first physical count A')
    (hlegal : RangeLegal first physical count) (hphysical : physical ≠ 0) : A'.Proper := by
  intro w mapping hw
  by_cases hin : ∃ i < count, w = first + UInt64.ofNat i * mmioPageSize
  · obtain ⟨i, hi, rfl⟩ := hin
    rw [(hrange.1 i hi).2] at hw
    rw [← Option.some.inj hw]
    refine ⟨(hlegal i hi).1.1, (hlegal i hi).2, fun hzero => hphysical ?_, (hlegal i hi).1.2.1⟩
    have hnat := hlegal.toNat_frame i hi
    rw [show physical + UInt64.ofNat i * mmioPageSize = 0 from hzero, UInt64.toNat_zero] at hnat
    apply UInt64.toNat_inj.mp
    rw [UInt64.toNat_zero]
    omega
  · push Not at hin
    rw [hrange.2 w hin] at hw
    exact h w mapping hw

/-- Every paging call keeps what holds between calls. -/
theorem PagingInv.step {p : Paging} (h : PagingInv p) {call : PagingCall}
    (hframes : call.FramesOk p.vmm) (hnonzero : call.NonzeroFrame) :
    PagingInv (pagingStep p call).2 := by
  cases call with
  | map v physical flags frames =>
    obtain ⟨ok, s', frames', heq, -, hfailed, hmapped, -⟩ :=
      vmmMapPage_spec h.tree hframes v physical flags
    rw [pagingStep, heq]
    cases ok with
    | false =>
      have hsame := hfailed rfl
      exact ⟨hsame.tree, by rw [hsame.pageMap]; exact h.proper, h.next⟩
    | true =>
      obtain ⟨hlegal, hcanonical, -, hbecomes⟩ := hmapped rfl
      refine ⟨hbecomes.tree, ?_, h.next⟩
      rw [hbecomes.pageMap]
      exact h.proper.update hlegal hcanonical hnonzero
  | unmap v =>
    obtain ⟨hnone, hsome⟩ := vmmUnmapPage_spec h.tree v
    cases hv : pageMap p.vmm v with
    | none =>
      rw [pagingStep, hnone hv]
      exact h
    | some mapping =>
      obtain ⟨-, hbecomes⟩ := hsome mapping hv
      refine ⟨hbecomes.tree, ?_, h.next⟩
      rw [pagingStep, hbecomes.pageMap]
      exact h.proper.remove v
  | translate v => exact h
  | mmio physical length frames =>
    rw [pagingStep]
    have houtcome := mmioMap_spec h.tree h.next hframes physical length
    generalize (mmioMap p physical length frames).1 = r at houtcome
    cases houtcome with
    | refused hsame hnext =>
      refine ⟨hsame.tree, by rw [hsame.pageMap]; exact h.proper, ?_⟩
      rw [MmioNextOk, hnext]
      exact h.next
    | mapped hne hbecomes hnext hrange hlegal =>
      exact ⟨hbecomes.tree, h.proper.range hrange hlegal hnonzero, hnext⟩

/-- **One call**, from a state with the invariant. -/
theorem PagingInv.refines {p : Paging} (h : PagingInv p) {call : PagingCall}
    (hframes : call.FramesOk p.vmm) :
    call.Refines p (pagingStep p call).1 (pageMap p.vmm) (pageMap (pagingStep p call).2.vmm) := by
  cases call with
  | map v physical flags frames =>
    obtain ⟨ok, s', frames', heq, -, hfailed, hmapped, hgranted⟩ :=
      vmmMapPage_spec h.tree hframes v physical flags
    rw [pagingStep, heq]
    cases ok with
    | false =>
      refine ⟨fun _ => (hfailed rfl).pageMap, fun hne => absurd rfl hne,
        fun h1 h2 h3 h4 h5 h6 => ?_⟩
      exact absurd (hgranted h1 h2 h3 h4 h5 h6) Bool.false_ne_true
    | true =>
      obtain ⟨hlegal, hcanonical, hnone, hbecomes⟩ := hmapped rfl
      have hone : (1 : UInt64) ≠ 0 := by decide
      exact ⟨fun h0 => absurd h0 hone, fun _ => ⟨hlegal, hcanonical, hnone, hbecomes.pageMap⟩,
        fun _ _ _ _ _ _ => hone⟩
  | unmap v =>
    obtain ⟨hnone, hsome⟩ := vmmUnmapPage_spec h.tree v
    cases hv : pageMap p.vmm v with
    | none =>
      rw [pagingStep, hnone hv]
      exact ⟨fun _ => ⟨hv, rfl⟩, fun hne => absurd rfl hne⟩
    | some mapping =>
      obtain ⟨hframe, hbecomes⟩ := hsome mapping hv
      rw [pagingStep]
      refine ⟨fun h0 => ?_, fun _ => ⟨mapping, hv, hframe, hbecomes.pageMap⟩⟩
      exact absurd (hframe.symm.trans h0) (h.proper v mapping hv).2.2.1
  | translate v =>
    have hspec := vmmVirtualToPhysical_spec p.vmm v
    rw [pagingStep]
    refine ⟨rfl, fun hnone => ?_, fun mapping hv => ?_⟩
    · rw [hnone] at hspec
      exact hspec
    · rw [hv] at hspec
      have haligned := (pageOffset_eq_zero_iff _).mp (h.proper _ mapping hv).2.2.2
      have hoffset := toNat_pageOffset v
      have hlt := mapping.frame.toNat_lt
      dsimp only
      rw [hspec, UInt64.toNat_add, Nat.mod_eq_of_lt (by omega)]
  | mmio physical length frames =>
    rw [pagingStep]
    have houtcome := mmioMap_spec h.tree h.next hframes physical length
    generalize (mmioMap p physical length frames).1 = r at houtcome ⊢
    cases houtcome with
    | refused hsame hnext => exact ⟨fun _ => hsame.pageMap, fun hne => absurd rfl hne⟩
    | mapped hne hbecomes hnext hrange hlegal =>
      exact ⟨fun h0 => absurd h0 hne, fun _ => ⟨rfl, hrange⟩⟩

theorem newMapping_not_writableExecutable {v physical flags : UInt64}
    (hlegal : MapLegal v physical flags) : ¬ (newMapping physical flags).WritableExecutable := by
  have hbit : ∀ mask, vmmPagePresent &&& mask = 0 → vmmLeafFlags &&& mask = mask →
      (newMapping physical flags).flags &&& mask = flags &&& mask := fun mask h1 h2 => by
    rw [newMapping, or_and_distrib, h1, UInt64.zero_or, UInt64.and_assoc, h2]
  rintro ⟨hwritable, hexecutable⟩
  rw [hbit _ (by decide) (by decide)] at hwritable
  rw [hbit _ (by decide) (by decide)] at hexecutable
  exact hlegal.2.2.2 hwritable hexecutable

/-- A page that a call made writable and executable was so before. -/
def NoWritableExecutable (A A' : AddressSpace) : Prop :=
  ∀ v mapping, A' v = some mapping → mapping.WritableExecutable → A v = some mapping

/-- No call makes a page writable and executable. -/
theorem PagingInv.noWritableExecutable {p : Paging} (h : PagingInv p) {call : PagingCall}
    (hframes : call.FramesOk p.vmm) :
    NoWritableExecutable (pageMap p.vmm) (pageMap (pagingStep p call).2.vmm) := by
  have hrefines := h.refines hframes
  generalize pageMap (pagingStep p call).2.vmm = A' at hrefines ⊢
  generalize (pagingStep p call).1 = r at hrefines
  intro v mapping hv hwx
  cases call with
  | map w physical flags frames =>
    obtain ⟨hfailed, hmapped, -⟩ := hrefines
    by_cases hr : r = 0
    · rwa [hfailed hr] at hv
    · obtain ⟨hlegal, -, -, rfl⟩ := hmapped hr
      by_cases hvw : v = w
      · rw [hvw, Function.update_self] at hv
        rw [← Option.some.inj hv] at hwx
        exact absurd hwx (newMapping_not_writableExecutable hlegal)
      · rwa [Function.update_of_ne hvw] at hv
  | unmap w =>
    obtain ⟨hfailed, hremoved⟩ := hrefines
    by_cases hr : r = 0
    · rwa [(hfailed hr).2] at hv
    · obtain ⟨-, -, -, rfl⟩ := hremoved hr
      by_cases hvw : v = w
      · rw [hvw, Function.update_self] at hv
        cases hv
      · rwa [Function.update_of_ne hvw] at hv
  | translate w => rwa [hrefines.1] at hv
  | mmio physical length frames =>
    obtain ⟨hfailed, hmapped⟩ := hrefines
    by_cases hr : r = 0
    · rwa [hfailed hr] at hv
    · obtain ⟨-, hrange⟩ := hmapped hr
      by_cases hin : ∃ i < mmioPageCount physical length,
          v = p.mmioNextVirtual + UInt64.ofNat i * mmioPageSize
      · obtain ⟨i, hi, rfl⟩ := hin
        rw [(hrange.1 i hi).2] at hv
        rw [← Option.some.inj hv] at hwx
        exact absurd hwx.2 (by
          rw [show (newMapping _ mmioFlags).flags = vmmPagePresent ||| (mmioFlags &&& vmmLeafFlags)
            from rfl]
          decide)
      · push Not at hin
        rwa [hrange.2 v hin] at hv

/-- The state that `vmm_init` leaves: the tables are a tree, and no page has frame zero. -/
structure PagingStart (p : Paging) : Prop where
  tree : VmmTree p.vmm
  proper : (pageMap p.vmm).Proper
  next : p.mmioNextVirtual = memoryLayoutMmioBase

theorem PagingRun.inv {start p : Paging} (hstart : PagingStart start)
    (hrun : PagingRun PagingCall.NonzeroFrame start p) : PagingInv p := by
  induction hrun with
  | start =>
    refine ⟨hstart.tree, hstart.proper, ?_⟩
    rw [MmioNextOk, hstart.next]
    exact ⟨Nat.le_refl _, Nat.le_add_right _ _⟩
  | step _ hframes hnonzero ih => exact ih.step hframes hnonzero

/-- **Paging refines a finite map**, in every run that maps no frame zero: whatever the addresses,
the flags and the frames of the allocator, the tables mean a map from canonical pages to frames
other than zero, every call acts on it as `PagingCall.Refines` says, and none makes a page
writable and executable. -/
theorem paging_refines {start p : Paging} (hstart : PagingStart start)
    (hrun : PagingRun PagingCall.NonzeroFrame start p) :
    (pageMap p.vmm).Proper ∧ ∀ call : PagingCall, call.FramesOk p.vmm →
      call.Refines p (pagingStep p call).1 (pageMap p.vmm) (pageMap (pagingStep p call).2.vmm) ∧
        NoWritableExecutable (pageMap p.vmm) (pageMap (pagingStep p call).2.vmm) := by
  have hinv := hrun.inv hstart
  exact ⟨hinv.proper, fun call hframes =>
    ⟨hinv.refines hframes, hinv.noWritableExecutable hframes⟩⟩

/-! ### Empty tables -/

/-- A root table with nothing in it. -/
def emptyPaging : Paging :=
  ⟨⟨true, 0xFFFF800000000000, 0xFFFF800000001000, fun _ _ => 0⟩, memoryLayoutMmioBase⟩

theorem emptyPaging_tableAt {path : List (Fin 512)} {t : UInt64}
    (h : emptyPaging.vmm.tableAt path = some t) : path = [] ∧ t = 0xFFFF800000001000 := by
  cases path with
  | nil => exact ⟨rfl, (Option.some.inj h).symm⟩
  | cons i path =>
    have hzero : tableFromEntry emptyPaging.vmm 0 = none := by decide
    rw [Vmm.tableAt, Radix.descend, show emptyPaging.vmm.memory _ i = 0 from rfl, hzero] at h
    cases h

theorem emptyPaging_start : PagingStart emptyPaging where
  tree p q t _ _ hp hq := by
    rw [(emptyPaging_tableAt hp).1, (emptyPaging_tableAt hq).1]
  proper v mapping h := by
    unfold pageMap at h
    split_ifs at h
    cases ht : emptyPaging.vmm.tableAt (tablePath v) with
    | none =>
      rw [ht] at h
      cases h
    | some t => cases (emptyPaging_tableAt ht).1
  next := rfl

def threeFrames : List UInt64 := [0x2000, 0x3000, 0x4000]

theorem threeFrames_ok : FramesOk emptyPaging.vmm threeFrames where
  nodup := by decide
  fits := by
    simp only [threeFrames, List.mem_cons, List.not_mem_nil, or_false, forall_eq_or_imp, forall_eq]
    decide
  fresh f hf _ := by
    rintro ⟨path, -, h⟩
    have hne : ∀ f ∈ threeFrames,
        vmmPhysicalToVirtual emptyPaging.vmm f ≠ 0xFFFF800000001000 := by
      simp only [threeFrames, List.mem_cons, List.not_mem_nil, or_false,
        forall_eq_or_imp, forall_eq]
      decide
    exact hne f hf (emptyPaging_tableAt h).2

/-- The page at `0x1000`, mapped to a frame. -/
def mapFirstPage (physical : UInt64) : PagingCall := .map 0x1000 physical 0 threeFrames

theorem paging_refines_firstPage :
    vmmVirtualToPhysical (pagingStep emptyPaging (mapFirstPage 0x5000)).2.vmm 0x1005 = 0x5005 ∧
      (pageMap (pagingStep emptyPaging (mapFirstPage 0x5000)).2.vmm).Proper := by
  have hrun : PagingRun PagingCall.NonzeroFrame emptyPaging
      (pagingStep emptyPaging (mapFirstPage 0x5000)).2 :=
    .step .start threeFrames_ok (show (0x5000 : UInt64) ≠ 0 by decide)
  exact ⟨by decide +kernel, (paging_refines emptyPaging_start hrun).1⟩

/-- **Frame zero**: it gets mapped, and taking the page away again reports that there was nothing
to take away. -/
theorem paging_frame_zero : PagingStart emptyPaging ∧ (mapFirstPage 0).FramesOk emptyPaging.vmm ∧
      (pagingStep emptyPaging (mapFirstPage 0)).1 = 1 ∧
      PagingRun (fun _ => True) emptyPaging (pagingStep emptyPaging (mapFirstPage 0)).2 ∧
      ¬ (pageMap (pagingStep emptyPaging (mapFirstPage 0)).2.vmm).Proper ∧
      ¬ (PagingCall.unmap 0x1000).Refines (pagingStep emptyPaging (mapFirstPage 0)).2
        (pagingStep (pagingStep emptyPaging (mapFirstPage 0)).2 (.unmap 0x1000)).1
        (pageMap (pagingStep emptyPaging (mapFirstPage 0)).2.vmm)
        (pageMap (pagingStep (pagingStep emptyPaging (mapFirstPage 0)).2 (.unmap 0x1000)).2.vmm) :=
    by
  have hfacts : (pagingStep emptyPaging (mapFirstPage 0)).1 = 1 ∧
      pageMap (pagingStep emptyPaging (mapFirstPage 0)).2.vmm 0x1000 = some (newMapping 0 0) ∧
      (pagingStep (pagingStep emptyPaging (mapFirstPage 0)).2 (.unmap 0x1000)).1 = 0 := by
    decide +kernel
  obtain ⟨hok, hmapped, hunmap⟩ := hfacts
  refine ⟨emptyPaging_start, threeFrames_ok, hok, .step .start threeFrames_ok trivial,
    fun hproper => (hproper _ _ hmapped).2.2.1 rfl, fun hrefines => ?_⟩
  have := (hrefines.1 hunmap).1
  rw [hmapped] at this
  cases this

end Jani
