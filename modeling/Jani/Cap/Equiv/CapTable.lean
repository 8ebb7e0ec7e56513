import Jani.Cap.CapTable

/-!
# Capability tables keep their shape

`TableOk` says what `capability_table_is_valid` checks (`capabilityTableIsValid_iff`): empty slots
hold nothing, a slot that has a parent link has a usable parent that covers it, and the links form a
forest.  Filling an empty slot and emptying a set of slots that is closed under children keep it.

No operation lowers the generation of a slot, and filling a slot raises it.  So a slot and a
generation that no longer name a capability never do again (`Dead`).
-/

namespace Jani

/-! ### Words and slots -/

@[simp]
theorem toNat_word (i : Slot) : (Slot.word i).toNat = i.val := by
  have hlt : i.val < 2 ^ 32 := lt_trans i.isLt (by norm_num)
  exact Nat.mod_eq_of_lt hlt

@[simp]
theorem slotIndex_word (i : Slot) : slotIndex (Slot.word i) = some i := by
  unfold slotIndex
  rw [dif_pos (by rw [toNat_word]; exact i.isLt)]
  exact congrArg some (Fin.ext (toNat_word i))

variable {i j : Slot} {slot : UInt32}

theorem slotIndex_eq_some (h : slotIndex slot = some i) : slot = Slot.word i := by
  unfold slotIndex at h
  split_ifs at h with hlt
  cases h
  exact UInt32.toNat_inj.mp (toNat_word ⟨slot.toNat, hlt⟩).symm

theorem word_injective (h : Slot.word i = Slot.word j) : i = j := by
  have := congrArg slotIndex h
  rw [slotIndex_word, slotIndex_word] at this
  exact Option.some.inj this

@[simp] theorem slotIndex_none : slotIndex capSlotNone = none := rfl

theorem word_ne_none (i : Slot) : Slot.word i ≠ capSlotNone := fun h => by
  have := congrArg slotIndex h
  rw [slotIndex_word, slotIndex_none] at this
  cases this

/-! ### Rights -/

theorem capabilityIsValid_iff (c : Capability) : capabilityIsValid c = true ↔
    c.object ≠ ⟨0, 0⟩ ∧ c.rights ≠ 0 ∧ c.rights &&& ~~~capRightAll = 0 := by
  unfold capabilityIsValid
  by_cases h : objectIdIsZero c.object = true
  · rw [if_pos h]
    simp [(objectIdIsZero_iff _).mp h]
  · rw [if_neg h]
    rw [objectIdIsZero_iff] at h
    split_ifs with h1 h2 <;> simp_all

/-- The rights `a` are among the rights `b`. -/
def RightsSubset (a b : UInt32) : Prop := a &&& b = a

theorem capabilityCovers_iff (parent child : Capability) : capabilityCovers parent child = true ↔
    capabilityIsValid parent = true ∧ child.object = parent.object ∧
      capabilityAllows parent capRightGrant = true ∧ RightsSubset child.rights parent.rights := by
  unfold capabilityCovers RightsSubset
  rw [Bool.and_eq_true, Bool.and_eq_true, Bool.and_eq_true, objectIdEqual_iff, decide_eq_true_eq,
    and_assoc, and_assoc]

theorem capabilityDerive_eq_some {parent child : Capability} {rights badge : UInt32}
    (h : capabilityDerive parent rights badge = some child) :
    child = ⟨parent.object, rights, badge⟩ ∧ capabilityIsValid child = true ∧
      capabilityCovers parent child = true := by
  unfold capabilityDerive at h
  split_ifs at h with h1 h2 h3 h4
  cases h
  rw [Bool.not_eq_true, Bool.not_eq_false'] at h1 h2
  rw [not_or, not_not] at h3
  rw [not_not] at h4
  exact ⟨rfl, (capabilityIsValid_iff _).mpr ⟨((capabilityIsValid_iff _).mp h1).1, h3.1, h3.2⟩,
    (capabilityCovers_iff _ _).mpr ⟨h1, rfl, h2, h4⟩⟩

variable {t : CapabilityTable} {c : Capability}

namespace CapabilityTable

/-! ### Slots of a table -/

theorem at?_eq_some : t.at? i = some c ↔ c = t.slots i ∧ capabilityIsValid (t.slots i) = true ∧
      t.generations i ≠ 0 := by
  unfold at?
  split_ifs with h
  · rw [Option.some.injEq]
    exact ⟨fun heq => ⟨heq.symm, h⟩, fun heq => heq.1.symm⟩
  · exact ⟨False.elim, fun heq => absurd heq.2 h⟩

theorem object_ne_zero_of_at? (h : t.at? i = some c) : (t.slots i).object ≠ ⟨0, 0⟩ :=
  ((capabilityIsValid_iff _).mp (at?_eq_some.mp h).2.1).1

theorem at?_of_empty (h : (t.slots i).object = ⟨0, 0⟩) : t.at? i = none := by
  cases hat : t.at? i with
  | none => rfl
  | some c => exact absurd h (object_ne_zero_of_at? hat)

theorem parent?_eq_some {p : Slot} : t.parent? i = some p ↔ t.parents i = Slot.word p :=
  ⟨slotIndex_eq_some, fun h => by rw [parent?, h, slotIndex_word]⟩

end CapabilityTable

open CapabilityTable

theorem capabilityTableGet_word (t : CapabilityTable) (i : Slot) :
    capabilityTableGet t (Slot.word i) = t.at? i := by
  rw [capabilityTableGet, slotIndex_word, Option.bind_some]

theorem capabilityTableGet_eq_some (h : capabilityTableGet t slot = some c) :
    ∃ i, slot = Slot.word i ∧ t.at? i = some c := by
  unfold capabilityTableGet at h
  cases hi : slotIndex slot with
  | none => rw [hi] at h; cases h
  | some i =>
    rw [hi] at h
    exact ⟨i, slotIndex_eq_some hi, h⟩

theorem capabilityTableGeneration_word (t : CapabilityTable) (i : Slot) :
    capabilityTableGeneration t (Slot.word i) =
      if (t.at? i).isSome then t.generations i else 0 := by
  rw [capabilityTableGeneration, slotIndex_word]

/-! ### Validity -/

/-- What `capability_table_is_valid` checks. -/
structure TableOk (t : CapabilityTable) : Prop where
  empty : ∀ i, (t.slots i).object = ⟨0, 0⟩ →
    t.slots i = Capability.zero ∧ t.parents i = capSlotNone
  live : ∀ i, (t.slots i).object ≠ ⟨0, 0⟩ → t.at? i = some (t.slots i)
  link : ∀ i, t.parents i ≠ capSlotNone → ∃ p, t.parents i = Slot.word p ∧
    t.at? p = some (t.slots p) ∧ capabilityCovers (t.slots p) (t.slots i) = true
  rooted : Rooted t.parent?

theorem TableOk.at?_of_linked (h : TableOk t) (hi : t.parents i ≠ capSlotNone) :
    t.at? i = some (t.slots i) :=
  h.live i fun hempty => hi (h.empty i hempty).2

theorem ancestorsValid_succ {n : Nat} (h : ancestorsValid t (n + 1) i = true)
    (hi : t.parents i ≠ capSlotNone) : ∃ p, t.parents i = Slot.word p ∧ t.at? p = some (t.slots p) ∧
      capabilityCovers (t.slots p) (t.slots i) = true ∧ ancestorsValid t n p = true := by
  rw [ancestorsValid, if_neg hi] at h
  cases hp : t.parent? i with
  | none => rw [hp] at h; cases h
  | some p =>
    rw [hp] at h
    dsimp only at h
    cases hc : t.at? i with
    | none => rw [hc] at h; cases h
    | some child =>
      cases hq : t.at? p with
      | none => rw [hc, hq] at h; cases h
      | some parent =>
        rw [hc, hq] at h
        dsimp only at h
        obtain ⟨rfl, -⟩ := at?_eq_some.mp hc
        obtain ⟨rfl, -⟩ := at?_eq_some.mp hq
        split_ifs at h with hcovers
        exact ⟨p, parent?_eq_some.mp hp, hq, hcovers, h⟩

theorem ancestorsValid_ends {t : CapabilityTable} : ∀ {n : Nat} {i : Slot},
    ancestorsValid t (n + 1) i = true → Ends t.parent? n i
  | n, i, h => by
    by_cases hi : t.parents i = capSlotNone
    · have hnone : Ends t.parent? 0 i := by
        rw [Ends, parent?, hi, slotIndex_none]
      exact hnone.mono (Nat.zero_le n)
    · obtain ⟨p, hp, -, -, hrest⟩ := ancestorsValid_succ h hi
      cases n with
      | zero => rw [ancestorsValid] at hrest; cases hrest
      | succ n =>
        intro q hq
        have : p = q := word_injective (hp.symm.trans (parent?_eq_some.mp hq))
        exact this ▸ ancestorsValid_ends hrest

theorem TableOk.ancestorsValid {t : CapabilityTable} (hok : TableOk t) : ∀ {n : Nat} {i : Slot},
    Ends t.parent? n i → ancestorsValid t (n + 1) i = true
  | n, i, h => by
    rw [Jani.ancestorsValid]
    by_cases hi : t.parents i = capSlotNone
    · rw [if_pos hi]
    · obtain ⟨p, hp, hat, hcovers⟩ := hok.link i hi
      have hparent : t.parent? i = some p := parent?_eq_some.mpr hp
      rw [if_neg hi, hparent]
      dsimp only
      rw [hok.at?_of_linked hi, hat]
      dsimp only
      rw [if_pos hcovers]
      cases n with
      | zero => rw [Ends, hparent] at h; cases h
      | succ n => exact hok.ancestorsValid (h p hparent)

/-- **`capability_table_is_valid` accepts exactly the tables that are a forest of covered
capabilities.** -/
theorem capabilityTableIsValid_iff (t : CapabilityTable) :
    capabilityTableIsValid t = true ↔ TableOk t := by
  unfold capabilityTableIsValid
  rw [List.all_eq_true]
  constructor
  · intro h
    have hslot : ∀ i, ((t.slots i).object = ⟨0, 0⟩ →
          t.slots i = Capability.zero ∧ t.parents i = capSlotNone) ∧
        ((t.slots i).object ≠ ⟨0, 0⟩ → t.at? i = some (t.slots i) ∧
          Jani.ancestorsValid t 16 i = true) := by
      intro i
      have hi := h i (List.mem_finRange i)
      split at hi
      · rename_i hzero
        rw [decide_eq_true_eq] at hi
        have hobject := (objectIdIsZero_iff _).mp hzero
        exact ⟨fun _ => ⟨Capability.ext hobject hi.1 hi.2.1, hi.2.2⟩, fun hne => absurd hobject hne⟩
      · rename_i hzero
        split_ifs at hi with hbad
        rw [not_or, Bool.not_eq_true, Bool.not_eq_false'] at hbad
        exact ⟨fun hobject => absurd ((objectIdIsZero_iff _).mpr hobject) hzero,
          fun _ => ⟨at?_eq_some.mpr ⟨rfl, hbad⟩, hi⟩⟩
    have hlinked : ∀ i, t.parents i ≠ capSlotNone → (t.slots i).object ≠ ⟨0, 0⟩ :=
      fun i hi hobject => hi ((hslot i).1 hobject).2
    refine ⟨fun i => (hslot i).1, fun i hi => ((hslot i).2 hi).1, fun i hi => ?_,
      Rooted.of_ends fun i => ?_⟩
    · obtain ⟨p, hp, hat, hcovers, -⟩ := ancestorsValid_succ ((hslot i).2 (hlinked i hi)).2 hi
      exact ⟨p, hp, hat, hcovers⟩
    · by_cases hi : t.parents i = capSlotNone
      · exact ⟨0, by rw [Ends, parent?, hi, slotIndex_none]⟩
      · exact ⟨15, ancestorsValid_ends ((hslot i).2 (hlinked i hi)).2⟩
  · intro hok i _
    by_cases hzero : objectIdIsZero (t.slots i).object = true
    · obtain ⟨hslot, hparent⟩ := hok.empty i ((objectIdIsZero_iff _).mp hzero)
      rw [if_pos hzero, decide_eq_true_eq, hslot]
      exact ⟨rfl, rfl, hparent⟩
    · have hat := hok.live i fun h => hzero ((objectIdIsZero_iff _).mpr h)
      obtain ⟨-, hvalid, hgen⟩ := at?_eq_some.mp hat
      rw [if_neg hzero, if_neg (by rw [hvalid]; simpa using hgen)]
      exact hok.ancestorsValid (hok.rooted.ends_card (by simp) i)

theorem tableOk_init : TableOk CapabilityTable.init :=
  ⟨fun _ _ => ⟨rfl, rfl⟩, fun _ h => absurd rfl h, fun _ h => absurd rfl h,
    ⟨fun _ => 0, fun i p hp => by
      rw [parent?_eq_some] at hp
      exact absurd hp.symm (word_ne_none p)⟩⟩

/-! ### Filling a slot -/

/-- The table `t'` is `t` with an empty slot filled. -/
structure Fills (t t' : CapabilityTable) (i : Slot) (capability : Capability) (parent : UInt32) :
    Prop where
  empty : (t.slots i).object = ⟨0, 0⟩
  room : t.generations i ≠ 0xFFFFFFFF
  slots : t'.slots = Function.update t.slots i capability
  parents : t'.parents = Function.update t.parents i parent
  generations : t'.generations = Function.update t.generations i (t.generations i + 1)

variable {t' : CapabilityTable}

theorem capabilityTableClaimSlot_eq_some (h : capabilityTableClaimSlot t = some (i, t')) :
    (t.slots i).object = ⟨0, 0⟩ ∧ t.generations i ≠ 0xFFFFFFFF ∧
      t' = { t with generations := Function.update t.generations i (t.generations i + 1) } := by
  unfold capabilityTableClaimSlot at h
  split at h
  · cases h
  · rename_i j hfind
    cases h
    have hp := List.find?_some hfind
    rw [Bool.and_eq_true, objectIdIsZero_iff, decide_eq_true_eq] at hp
    exact ⟨hp.1, hp.2, rfl⟩

theorem Fills.of_claim (h : capabilityTableClaimSlot t = some (i, t')) (capability : Capability)
    (parent : UInt32) : Fills t (t'.set i capability parent) i capability parent := by
  obtain ⟨hempty, hroom, rfl⟩ := capabilityTableClaimSlot_eq_some h
  exact ⟨hempty, hroom, rfl, rfl, rfl⟩

theorem capabilityTableInsertRoot_eq_some {capability : Capability}
    (h : capabilityTableInsertRoot t capability = some (i, t')) :
    capabilityIsValid capability = true ∧ Fills t t' i capability capSlotNone := by
  unfold capabilityTableInsertRoot at h
  split_ifs at h with hvalid
  rw [Bool.not_eq_true, Bool.not_eq_false'] at hvalid
  split at h
  · cases h
  · rename_i j t₁ hclaim
    cases h
    exact ⟨hvalid, Fills.of_claim hclaim _ _⟩

theorem capabilityTableDerive_eq_some {parentSlot rights badge : UInt32}
    (h : capabilityTableDerive t parentSlot rights badge = some (i, t')) :
    ∃ p parent child, parentSlot = Slot.word p ∧ t.at? p = some parent ∧
      capabilityDerive parent rights badge = some child ∧ Fills t t' i child parentSlot := by
  unfold capabilityTableDerive at h
  split at h
  · cases h
  · rename_i child hchild
    obtain ⟨parent, hget, hderive⟩ := Option.bind_eq_some_iff.mp hchild
    obtain ⟨p, hp, hat⟩ := capabilityTableGet_eq_some hget
    split at h
    · cases h
    · rename_i j t₁ hclaim
      cases h
      exact ⟨p, parent, child, hp, hat, hderive, Fills.of_claim hclaim _ _⟩

section Fills

variable {t t' : CapabilityTable} {i : Slot} {capability : Capability} {parent : UInt32}

section

variable (h : Fills t t' i capability parent)

include h

/-- The generation of the filled slot, which does not wrap. -/
theorem Fills.toNat_generation : (t'.generations i).toNat = (t.generations i).toNat + 1 := by
  have hne : (t.generations i).toNat ≠ 0xFFFFFFFF := fun heq =>
    h.room (UInt32.toNat_inj.mp heq)
  have hlt := (t.generations i).toNat_lt
  rw [h.generations, Function.update_self, UInt32.toNat_add, UInt32.toNat_one,
    Nat.mod_eq_of_lt (by omega)]

theorem Fills.generation_ne_zero : t'.generations i ≠ 0 :=
  fun hzero => by
    have := h.toNat_generation
    rw [hzero, UInt32.toNat_zero] at this
    omega

theorem Fills.at?_self (hvalid : capabilityIsValid capability = true) :
    t'.at? i = some capability := by
  have hslot : t'.slots i = capability := by rw [h.slots, Function.update_self]
  exact at?_eq_some.mpr ⟨hslot.symm, hslot ▸ hvalid, h.generation_ne_zero⟩

theorem Fills.other (hj : j ≠ i) :
    t'.slots j = t.slots j ∧ t'.parents j = t.parents j ∧ t'.generations j = t.generations j := by
  rw [h.slots, h.parents, h.generations, Function.update_of_ne hj, Function.update_of_ne hj,
    Function.update_of_ne hj]
  exact ⟨rfl, rfl, rfl⟩

theorem Fills.at?_other (hj : j ≠ i) : t'.at? j = t.at? j := by
  obtain ⟨hs, -, hg⟩ := h.other hj
  unfold at?
  rw [hs, hg]

theorem Fills.at?_none : t.at? i = none := at?_of_empty h.empty

theorem Fills.at?_of_some (hj : t.at? j = some c) : t'.at? j = some c := by
  rw [h.at?_other, hj]
  rintro rfl
  rw [h.at?_none] at hj
  cases hj

end

/-- **Filling a slot keeps a table valid**, if the capability has no parent in the table or one
that covers it. -/
theorem TableOk.fills (hok : TableOk t) (h : Fills t t' i capability parent)
    (hvalid : capabilityIsValid capability = true)
    (hparent : parent = capSlotNone ∨ ∃ p, parent = Slot.word p ∧ t.at? p = some (t.slots p) ∧
      capabilityCovers (t.slots p) capability = true) : TableOk t' := by
  have hslot : t'.slots i = capability := by rw [h.slots, Function.update_self]
  have hlink : t'.parents i = parent := by rw [h.parents, Function.update_self]
  have hobject := ((capabilityIsValid_iff _).mp hvalid).1
  -- a slot that is in use is not the one that was empty
  have hne : ∀ {p : Slot}, t.at? p = some (t.slots p) → p ≠ i := by
    rintro p hp rfl
    rw [h.at?_none] at hp
    cases hp
  have hkept : ∀ {p : Slot}, t.at? p = some (t.slots p) → t'.at? p = some (t'.slots p) := by
    intro p hp
    rw [h.at?_of_some hp, (h.other (hne hp)).1]
  refine ⟨fun j hj => ?_, fun j hj => ?_, fun j hj => ?_, ?_⟩
  · by_cases hji : j = i
    · subst hji
      rw [hslot] at hj
      exact absurd hj hobject
    · obtain ⟨hs, hp, -⟩ := h.other hji
      rw [hs, hp]
      exact hok.empty j (hs ▸ hj)
  · by_cases hji : j = i
    · subst hji
      rw [hslot]
      exact h.at?_self hvalid
    · obtain ⟨hs, -, -⟩ := h.other hji
      exact hkept (hok.live j (hs ▸ hj))
  · by_cases hji : j = i
    · subst hji
      rw [hlink] at hj
      obtain hnone | ⟨p, hp, hat, hcovers⟩ := hparent
      · exact absurd hnone hj
      · exact ⟨p, hlink.trans hp, hkept hat, by rw [(h.other (hne hat)).1, hslot]; exact hcovers⟩
    · obtain ⟨hs, hp, -⟩ := h.other hji
      rw [hp] at hj
      obtain ⟨p, hpar, hat, hcovers⟩ := hok.link j hj
      exact ⟨p, hp.trans hpar, hkept hat, by rw [(h.other (hne hat)).1, hs]; exact hcovers⟩
  · obtain hnone | ⟨p, hp, hat, -⟩ := hparent
    · refine hok.rooted.mono fun j q hq => ?_
      rw [parent?_eq_some] at hq ⊢
      by_cases hji : j = i
      · subst hji
        rw [hlink, hnone] at hq
        exact absurd hq.symm (word_ne_none q)
      · rwa [(h.other hji).2.1] at hq
    · refine hok.rooted.add (hne hat) (fun j hj => ?_) fun j q hq => ?_
      · -- an empty slot is nobody's parent
        rw [parent?_eq_some] at hj
        obtain ⟨p', hp', hat', -⟩ := hok.link j (by rw [hj]; exact word_ne_none i)
        exact hne hat' (word_injective (hp'.symm.trans hj))
      · rw [parent?_eq_some] at hq
        by_cases hji : j = i
        · subst hji
          rw [hlink, hp] at hq
          exact Or.inl ⟨rfl, (word_injective hq).symm⟩
        · rw [(h.other hji).2.1] at hq
          exact Or.inr ⟨hji, parent?_eq_some.mpr hq⟩

end Fills

/-! ### Emptying slots -/

theorem clear_at? (t : CapabilityTable) (revoked : Slot → Bool) (i : Slot) :
    (t.clear revoked).at? i = if revoked i then none else t.at? i := by
  cases h : revoked i with
  | true => exact at?_of_empty (by simp [clear, h, Capability.zero])
  | false => simp [at?, clear, h]

/-- Emptying slots together with all that was derived from them keeps a table valid. -/
theorem TableOk.clear (hok : TableOk t) {revoked : Slot → Bool}
    (hclosed : ∀ i p, t.parents i = Slot.word p → revoked p = true → revoked i = true) :
    TableOk (t.clear revoked) := by
  have hslots : ∀ i, (t.clear revoked).slots i =
      if revoked i then Capability.zero else t.slots i := fun _ => rfl
  have hparents : ∀ i, (t.clear revoked).parents i =
      if revoked i then capSlotNone else t.parents i := fun _ => rfl
  refine ⟨fun i hi => ?_, fun i hi => ?_, fun i hi => ?_, ?_⟩
  · rw [hslots] at hi ⊢
    rw [hparents]
    split_ifs with h
    · exact ⟨rfl, rfl⟩
    · rw [if_neg h] at hi
      exact hok.empty i hi
  · rw [hslots] at hi ⊢
    rw [clear_at?]
    split_ifs with h
    · rw [if_pos h] at hi
      exact absurd rfl hi
    · rw [if_neg h] at hi
      exact hok.live i hi
  · rw [hparents] at hi
    split_ifs at hi with h
    · exact absurd rfl hi
    · obtain ⟨p, hp, hat, hcovers⟩ := hok.link i hi
      have hp' : ¬ revoked p = true := fun hr => h (hclosed i p hp hr)
      refine ⟨p, by rw [hparents, if_neg h, hp], ?_, ?_⟩
      · rw [clear_at?, hslots, if_neg hp', if_neg hp', hat]
      · rw [hslots, hslots, if_neg hp', if_neg h, hcovers]
  · refine hok.rooted.mono fun i p hp => ?_
    rw [parent?_eq_some, hparents] at hp
    split_ifs at hp with h
    · exact absurd hp.symm (word_ne_none p)
    · exact parent?_eq_some.mpr hp

theorem mem_links {p c : Slot} : (p, c) ∈ t.links ↔ t.parents c = Slot.word p := by
  unfold links
  rw [List.mem_filterMap]
  constructor
  · rintro ⟨c', -, h⟩
    obtain ⟨p', hp', heq⟩ := Option.map_eq_some_iff.mp h
    cases heq
    exact parent?_eq_some.mp hp'
  · intro h
    exact ⟨c, List.mem_finRange c, by rw [parent?_eq_some.mpr h]; rfl⟩

theorem capabilityTableRevoke_eq_some (h : capabilityTableRevoke t slot = some t')
    (hok : TableOk t) : TableOk t' ∧ ∃ revoked, t' = t.clear revoked := by
  unfold capabilityTableRevoke at h
  split at h
  · cases h
  · rename_i i hi
    split_ifs at h
    cases h
    refine ⟨hok.clear fun c p hp hr => ?_, _, rfl⟩
    rw [List.contains_iff_mem, mem_spread_iff _ _ (List.nodup_singleton i)] at hr ⊢
    exact Reached.edge (Or.inr hr) (mem_links.mpr hp)

end Jani
