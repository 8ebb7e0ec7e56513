import Jani.Cap.Equiv.CapTable

/-!
# Runs of a capability table

A run is a list of calls of `insert_root`, `derive` and `revoke` on a table that starts from
`capability_table_init`.  `TableOk` holds in every table of a run (`capTableRun_ok`): a slot is
filled only when it is empty, and then nobody's parent link names it, and a revocation empties the
slot together with everything below it (`capabilityTableRevoke_exact`), so no link is left behind.

`capabilityTable_wellFormed` puts the results together.
-/

namespace Jani

open CapabilityTable

/-- A call on a capability table. -/
inductive CapTableCall where
  | insertRoot (capability : Capability)
  | derive (parentSlot childRights childBadge : UInt32)
  | revoke (slot : UInt32)

/-- The slot that a call hands out, and the table afterwards.  A call that fails leaves the table
as it was. -/
def capTableStep (t : CapabilityTable) : CapTableCall → Option Slot × CapabilityTable
  | .insertRoot capability => match capabilityTableInsertRoot t capability with
    | none => (none, t)
    | some (i, t') => (some i, t')
  | .derive parentSlot childRights childBadge =>
    match capabilityTableDerive t parentSlot childRights childBadge with
    | none => (none, t)
    | some (i, t') => (some i, t')
  | .revoke slot => match capabilityTableRevoke t slot with
    | none => (none, t)
    | some t' => (none, t')

def capTableRun (t : CapabilityTable) (calls : List CapTableCall) : CapabilityTable :=
  calls.foldl (fun t call => (capTableStep t call).2) t

/-- The slot `j` is the slot `i` or was derived from it, directly or not, by the links of the
table. -/
def Below (t : CapabilityTable) (i j : Slot) : Prop :=
  Relation.ReflTransGen (fun parent child => t.parents child = Slot.word parent) i j

variable {t : CapabilityTable}

/-- **A revocation empties the slot and everything below it**, and nothing else. -/
theorem capabilityTableRevoke_exact {i : Slot} (h : (t.at? i).isSome) :
    ∃ t', capabilityTableRevoke t (Slot.word i) = some t' ∧ t'.generations = t.generations ∧
      (∀ j, Below t i j → t'.slots j = Capability.zero ∧ t'.parents j = capSlotNone) ∧
      ∀ j, ¬ Below t i j → t'.slots j = t.slots j ∧ t'.parents j = t.parents j := by
  unfold capabilityTableRevoke
  rw [slotIndex_word]
  dsimp only
  rw [if_neg (by rw [Option.isNone_iff_eq_none]; exact Option.isSome_iff_ne_none.mp h)]
  have hbelow : ∀ j,
      (spread (fun _ => false) t.links (t.links.length + 1) [i]).contains j = true ↔
        Below t i j := by
    intro j
    rw [List.contains_iff_mem, mem_spread_iff _ _ (List.nodup_singleton i), Below,
      Relation.reflTransGen_iff_eq_or_transGen]
    simp only [Reached, List.mem_singleton, Bool.false_eq_true, false_or, exists_eq_left, mem_links]
  refine ⟨_, rfl, rfl, fun j hj => ?_, fun j hj => ?_⟩
  · rw [← hbelow] at hj
    exact ⟨if_pos hj, if_pos hj⟩
  · rw [← hbelow] at hj
    exact ⟨if_neg hj, if_neg hj⟩

/-! ### One call -/

/-- What a call does to a valid table: it fills a slot, which it hands out, or it empties slots. -/
theorem capTableStep_cases (hok : TableOk t) (call : CapTableCall) :
    TableOk (capTableStep t call).2 ∧
      ((∃ i capability parent, (capTableStep t call).1 = some i ∧
          capabilityIsValid capability = true ∧
          Fills t (capTableStep t call).2 i capability parent) ∨
        ((capTableStep t call).1 = none ∧
          (capTableStep t call).2.generations = t.generations)) := by
  cases call with
  | insertRoot capability =>
    rw [capTableStep]
    cases h : capabilityTableInsertRoot t capability with
    | none => exact ⟨hok, Or.inr ⟨rfl, rfl⟩⟩
    | some result =>
      obtain ⟨i, t'⟩ := result
      obtain ⟨hvalid, hfills⟩ := capabilityTableInsertRoot_eq_some h
      exact ⟨hok.fills hfills hvalid (Or.inl rfl), Or.inl ⟨i, _, _, rfl, hvalid, hfills⟩⟩
  | derive parentSlot childRights childBadge =>
    rw [capTableStep]
    cases h : capabilityTableDerive t parentSlot childRights childBadge with
    | none => exact ⟨hok, Or.inr ⟨rfl, rfl⟩⟩
    | some result =>
      obtain ⟨i, t'⟩ := result
      obtain ⟨p, parent, child, hp, hat, hderive, hfills⟩ := capabilityTableDerive_eq_some h
      obtain ⟨-, hvalid, hcovers⟩ := capabilityDerive_eq_some hderive
      have hslot : parent = t.slots p := (at?_eq_some.mp hat).1
      subst hslot
      exact ⟨hok.fills hfills hvalid (Or.inr ⟨p, hp, hat, hcovers⟩),
        Or.inl ⟨i, _, _, rfl, hvalid, hfills⟩⟩
  | revoke slot =>
    rw [capTableStep]
    cases h : capabilityTableRevoke t slot with
    | none => exact ⟨hok, Or.inr ⟨rfl, rfl⟩⟩
    | some t' =>
      obtain ⟨hok', revoked, rfl⟩ := capabilityTableRevoke_eq_some h hok
      exact ⟨hok', Or.inr ⟨rfl, rfl⟩⟩

theorem capTableStep_generations (hok : TableOk t) (call : CapTableCall) (j : Slot) :
    (t.generations j).toNat ≤ ((capTableStep t call).2.generations j).toNat := by
  obtain ⟨-, ⟨i, capability, parent, -, -, hfills⟩ | ⟨-, hsame⟩⟩ := capTableStep_cases hok call
  · by_cases hj : j = i
    · subst hj
      rw [hfills.toNat_generation]
      exact Nat.le_succ _
    · rw [(hfills.other hj).2.2]
  · rw [hsame]

/-! ### Runs -/

theorem capTableRun_ok (calls : List CapTableCall) (hok : TableOk t) :
    TableOk (capTableRun t calls) := by
  induction calls generalizing t with
  | nil => exact hok
  | cons call calls ih => exact ih (capTableStep_cases hok call).1

theorem capTableRun_generations (calls : List CapTableCall) (hok : TableOk t) (j : Slot) :
    (t.generations j).toNat ≤ ((capTableRun t calls).generations j).toNat := by
  induction calls generalizing t with
  | nil => exact le_rfl
  | cons call calls ih =>
    exact (capTableStep_generations hok call j).trans (ih (capTableStep_cases hok call).1)

/-- **Capability tables stay well formed.**  In every table of a run
`capability_table_is_valid` holds.  A revocation of a live slot empties exactly the slot and what
was derived from it by the links of the table, and one of another slot is refused.  Whatever calls
follow, no generation falls; and a call that hands out a slot finds it empty, fills it and raises
its generation. -/
theorem capabilityTable_wellFormed (calls : List CapTableCall) :
    let t := capTableRun CapabilityTable.init calls
    capabilityTableIsValid t = true ∧
      (∀ slot, capabilityTableGet t slot = none → capabilityTableRevoke t slot = none) ∧
      (∀ i : Slot, (t.at? i).isSome → ∃ t', capabilityTableRevoke t (Slot.word i) = some t' ∧
        t'.generations = t.generations ∧
        (∀ j, Below t i j → t'.slots j = Capability.zero ∧ t'.parents j = capSlotNone) ∧
        ∀ j, ¬ Below t i j → t'.slots j = t.slots j ∧ t'.parents j = t.parents j) ∧
      (∀ (later : List CapTableCall) (j : Slot),
        (t.generations j).toNat ≤ ((capTableRun t later).generations j).toNat) ∧
      ∀ (call : CapTableCall) (i : Slot), (capTableStep t call).1 = some i →
        t.at? i = none ∧ t.slots i = Capability.zero ∧
          ((capTableStep t call).2.at? i).isSome ∧
          (t.generations i).toNat < ((capTableStep t call).2.generations i).toNat := by
  intro t
  have hok : TableOk t := capTableRun_ok calls tableOk_init
  refine ⟨(capabilityTableIsValid_iff t).mpr hok, fun slot hslot => ?_,
    fun i hi => capabilityTableRevoke_exact hi, fun later j => capTableRun_generations later hok j,
    fun call i hi => ?_⟩
  · unfold capabilityTableRevoke
    unfold capabilityTableGet at hslot
    cases hi : slotIndex slot with
    | none => rfl
    | some i =>
      rw [hi, Option.bind_some] at hslot
      dsimp only
      rw [if_pos (by rw [hslot]; rfl)]
  · obtain ⟨-, ⟨i', capability, parent, hi', hvalid, hfills⟩ | ⟨hnone, -⟩⟩ :=
      capTableStep_cases hok call
    · obtain rfl : i' = i := Option.some.inj (hi'.symm.trans hi)
      refine ⟨hfills.at?_none, (hok.empty _ hfills.empty).1, ?_, ?_⟩
      · rw [hfills.at?_self hvalid]
        rfl
      · rw [hfills.toNat_generation]
        exact Nat.lt_succ_self _
    · rw [hnone] at hi
      cases hi

end Jani
