import Jani.Cap.DerivationArray
import Jani.Cap.Equiv.Derivation

/-!
# The derivation table in memory is a forest

The loops over the array of 64 records compute on the records in use what the functions of
`Jani.Cap.Derivation` compute on the list of them: `isValid_iff`, `add_cases` and
`removeSubtree_cases`.  The compaction in place is the filter (`compact_spec`): after the records
below an index have been read, the records below `write_index` are those kept so far and the records
not yet read are as they were.

`derivationArray_forest` puts the three functions together.
-/

namespace Jani

theorem derivationIsZero_iff (d : CapabilityDerivation) :
    derivationIsZero d = true ↔ d = .zero := by
  have href (r : CapabilityRef) : capabilityRefIsZero r = true ↔ r = .zero := by
    unfold capabilityRefIsZero CapabilityRef.zero
    rw [Bool.and_eq_true, Bool.and_eq_true, objectIdIsZero_iff, decide_eq_true_eq,
      decide_eq_true_eq, CapabilityRef.mk.injEq, and_assoc]
  unfold derivationIsZero CapabilityDerivation.zero
  rw [Bool.and_eq_true, href, href, CapabilityDerivation.mk.injEq]

/-- Writing at an index extends what stands before it. -/
theorem take_setRecord (records : Fin 64 → CapabilityDerivation) {index : Nat} (h : index < 64)
    (record : CapabilityDerivation) :
    ((List.finRange 64).take (index + 1)).map (setRecord records index record) =
      ((List.finRange 64).take index).map records ++ [record] := by
  have hlen : index < (List.finRange 64).length := by rw [List.length_finRange]; exact h
  rw [List.take_succ_eq_append_getElem hlen, List.map_append, List.map_singleton]
  congr 1
  · refine List.map_congr_left fun i hi => if_neg ?_
    obtain ⟨j, hj, rfl⟩ := List.mem_take_iff_getElem.mp hi
    rw [List.getElem_finRange]
    simp only [Fin.val_cast]
    omega
  · rw [List.getElem_finRange]
    simp [setRecord]

theorem setRecord_eq_self {records : Fin 64 → CapabilityDerivation} {index : Nat}
    {record : CapabilityDerivation} (h : ∀ i : Fin 64, i.val = index → records i = record) :
    setRecord records index record = records := by
  funext i
  unfold setRecord
  split_ifs with hi
  · exact (h i hi).symm
  · rfl

theorem setRecord_setRecord (records : Fin 64 → CapabilityDerivation) (index : Nat)
    (first second : CapabilityDerivation) :
    setRecord (setRecord records index first) index second = setRecord records index second := by
  funext i
  unfold setRecord
  split_ifs <;> rfl

namespace DerivationArray

variable {table : DerivationArray}

theorem mem_indices {index : Fin 64} : index ∈ table.indices ↔ index.val < table.count.toNat := by
  unfold indices
  rw [List.mem_take_iff_getElem]
  constructor
  · rintro ⟨j, hj, rfl⟩
    rw [List.getElem_finRange]
    simp only [Fin.val_cast]
    omega
  · intro h
    have hlen : index.val < (List.finRange 64).length := by rw [List.length_finRange]; exact index.2
    exact ⟨index.val, by omega, by rw [List.getElem_finRange]; rfl⟩

theorem nodup_indices (table : DerivationArray) : table.indices.Nodup :=
  (List.nodup_finRange 64).sublist (List.take_sublist _ _)

theorem length_used (h : table.count.toNat ≤ capDerivationMax) :
    table.used.length = table.count.toNat := by
  unfold capDerivationMax at h
  rw [used, List.length_map, indices, List.length_take, List.length_finRange]
  omega

/-! ### Searching and walking -/

theorem findChildRecord_used (table : DerivationArray) (child : CapabilityRef) :
    Jani.findChildRecord table.used child =
      (table.findChildRecord child).map table.records := by
  unfold Jani.findChildRecord findChildRecord used
  rw [List.find?_map]
  rfl

theorem walkAvoids_used (table : DerivationArray) (child : CapabilityRef) :
    ∀ (depth : Nat) (current : CapabilityRef),
      table.walkAvoids child depth current = Jani.walkAvoids table.used child depth current
  | 0, _ => rfl
  | depth + 1, current => by
    rw [walkAvoids, Jani.walkAvoids, findChildRecord_used]
    cases table.findChildRecord current with
    | none => rfl
    | some index =>
      dsimp only [Option.map_some]
      rw [walkAvoids_used table child depth]

/-! ### Validity -/

/-- **The loops over the array accept a table when its count is within the array, its unused
records are zero and its used records are a forest.** -/
theorem isValid_iff (table : DerivationArray) : table.isValid = true ↔
    table.count.toNat ≤ capDerivationMax ∧
      (∀ index : Fin 64, table.count.toNat ≤ index → table.records index = .zero) ∧
      LineageOk table.used := by
  rw [isValid, decide_eq_true_eq, ← capabilityDerivationTableIsValid_iff]
  refine and_congr_right fun hcount => and_congr ?_ ?_
  · exact forall_congr' fun index => imp_congr_right fun _ => derivationIsZero_iff _
  · rw [capabilityDerivationTableIsValid, decide_eq_true_eq, length_used hcount]
    unfold used
    rw [List.map_map, List.nodup_map_iff_inj_on table.nodup_indices]
    simp only [List.forall_mem_map, recordIsValid, decide_eq_true_eq, walkAvoids_used,
      Function.comp_apply]
    constructor
    · intro h
      refine ⟨hcount, fun i hi => ⟨(h i hi).1, (h i hi).2.1, (h i hi).2.2.1, (h i hi).2.2.2.2⟩,
        fun i hi j hj heq => ?_⟩
      rcases lt_trichotomy i j with hlt | heq' | hlt
      · exact absurd heq ((h j hj).2.2.2.1 i hlt)
      · exact heq'
      · exact absurd heq.symm ((h i hi).2.2.2.1 j hlt)
    · rintro ⟨-, hrecords, hinj⟩ i hi
      obtain ⟨hparent, hchild, hne, hwalk⟩ := hrecords i hi
      refine ⟨hparent, hchild, hne, fun j hlt heq => ?_, hwalk⟩
      have hj : j ∈ table.indices := mem_indices.mpr (lt_trans hlt (mem_indices.mp hi))
      exact absurd (hinj j hj i hi heq) (ne_of_lt hlt)

/-! ### Adding -/

theorem count_succ (h : table.count.toNat < 64) :
    (table.count + 1).toNat = table.count.toNat + 1 := by
  rw [UInt32.toNat_add, UInt32.toNat_one, Nat.mod_eq_of_lt (by omega)]

theorem used_append (h : table.count.toNat < 64) (parent child : CapabilityRef) :
    (⟨setRecord table.records table.count.toNat ⟨parent, child⟩, table.count + 1⟩ :
      DerivationArray).used = table.used ++ [⟨parent, child⟩] := by
  unfold used indices
  rw [count_succ h]
  exact take_setRecord table.records h _

/-- The array with one more record is valid when its records are a forest. -/
theorem isValid_append (h : table.count.toNat < 64)
    (hzero : ∀ index : Fin 64, table.count.toNat ≤ index → table.records index = .zero)
    (parent child : CapabilityRef) :
    (⟨setRecord table.records table.count.toNat ⟨parent, child⟩, table.count + 1⟩ :
      DerivationArray).isValid = true ↔ LineageOk (table.used ++ [⟨parent, child⟩]) := by
  rw [isValid_iff, used_append h]
  dsimp only
  rw [count_succ h]
  refine ⟨fun hok => hok.2.2, fun hok => ⟨h, fun i hi => ?_, hok⟩⟩
  exact (if_neg (by omega)).trans (hzero i (by omega))

/-- **Adding appends the record if the table is a forest with it, and otherwise leaves the array as
it was**; the roll-back restores the zero of the unused record. -/
theorem add_cases (table : DerivationArray) (parent child : CapabilityRef) :
    ((table.add parent child).1 = true ∧ (table.add parent child).2.isValid = true ∧
        (table.add parent child).2.used = table.used ++ [⟨parent, child⟩]) ∨
      (table.add parent child = (false, table) ∧
        (table.isValid = true → ¬ LineageOk (table.used ++ [⟨parent, child⟩]))) := by
  unfold add
  split
  · rename_i hrefused
    refine Or.inr ⟨rfl, fun hvalid hok => ?_⟩
    -- each reason for refusing contradicts the forest with the new record
    have hmem : (⟨parent, child⟩ : CapabilityDerivation) ∈ table.used ++ [⟨parent, child⟩] :=
      List.mem_append_right _ List.mem_cons_self
    have hcount := hok.count
    rw [List.length_append, List.length_singleton,
      length_used ((isValid_iff table).mp hvalid).1] at hcount
    rcases hrefused with h | h | h | h | h | h
    · rw [hvalid] at h
      cases h
    · rw [(hok.refs _ hmem).1] at h
      cases h
    · rw [(hok.refs _ hmem).2] at h
      cases h
    · exact hok.parent_ne_child hmem h
    · omega
    · have hnodup := hok.children
      rw [List.map_append, List.nodup_append] at hnodup
      obtain ⟨i, hi⟩ := Option.isSome_iff_exists.mp h
      obtain ⟨hr, heq⟩ := findChildRecord_mem
        (show Jani.findChildRecord table.used child = some (table.records i) by
          rw [findChildRecord_used, hi, Option.map_some])
      exact absurd heq (hnodup.2.2 _ (List.mem_map_of_mem hr) _ List.mem_cons_self)
  · rename_i hrefused
    simp only [not_or, Bool.not_eq_true, Bool.not_eq_false'] at hrefused
    obtain ⟨hcount, hzero, -⟩ := (isValid_iff table).mp hrefused.1
    have hlt : table.count.toNat < 64 := lt_of_le_of_ne hcount hrefused.2.2.2.2.1
    have happended := isValid_append hlt hzero parent child
    have hused := used_append hlt parent child
    dsimp only
    by_cases hok : LineageOk (table.used ++ [⟨parent, child⟩])
    · rw [if_neg (by rw [happended.mpr hok]; decide)]
      exact Or.inl ⟨rfl, happended.mpr hok, hused⟩
    · rw [if_pos (by rw [Bool.not_eq_true', ← Bool.not_eq_true, happended]; exact hok)]
      refine Or.inr ⟨?_, fun _ => hok⟩
      rw [add_sub_cancel_right, setRecord_setRecord,
        setRecord_eq_self (fun i hi => hzero i hi.ge)]

/-! ### Removing a subtree -/

/-- The compaction after the records below `n` have been read. -/
theorem compact_spec (descendants : List CapabilityRef)
    (records : Fin 64 → CapabilityDerivation) (n : Nat) (hn : n ≤ 64) :
    let state := ((List.finRange 64).take n).foldl (compactStep descendants) (records, 0)
    state.2 ≤ n ∧
      ((List.finRange 64).take state.2).map state.1 =
        (((List.finRange 64).take n).map records).filter (fun r => r.child ∉ descendants) ∧
      ∀ i : Fin 64, n ≤ i → state.1 i = records i := by
  induction n with
  | zero => exact ⟨le_rfl, rfl, fun _ _ => rfl⟩
  | succ n ih =>
    have hlen : n < (List.finRange 64).length := by rw [List.length_finRange]; exact hn
    obtain ⟨hwrite, hkept, hrest⟩ := ih (Nat.le_of_succ_le hn)
    rw [List.take_succ_eq_append_getElem hlen, List.foldl_append, List.foldl_cons, List.foldl_nil,
      List.map_append, List.filter_append, List.map_singleton, ← hkept]
    generalize ((List.finRange 64).take n).foldl (compactStep descendants) (records, 0) = state
      at hwrite hkept hrest ⊢
    obtain ⟨current, write⟩ := state
    dsimp only at hwrite hkept hrest ⊢
    have hread : ((List.finRange 64)[n]).val = n := by
      rw [List.getElem_finRange]
      rfl
    generalize (List.finRange 64)[n] = read at hread ⊢
    rw [← hrest read hread.ge]
    unfold compactStep
    by_cases hdrop : (current read).child ∈ descendants
    · rw [if_pos hdrop, List.filter_cons_of_neg (by simp [hdrop]), List.filter_nil, List.append_nil]
      exact ⟨Nat.le_succ_of_le hwrite, rfl, fun i hi => hrest i (Nat.le_of_succ_le hi)⟩
    · rw [if_neg hdrop, List.filter_cons_of_pos (by simp [hdrop]), List.filter_nil]
      -- a record that is already in its place may as well be written there
      have hset : (if write ≠ read.val then setRecord current write (current read) else current) =
          setRecord current write (current read) := by
        split_ifs with h
        · rfl
        · exact (setRecord_eq_self fun i hi => by rw [Fin.ext (hi.trans (not_not.mp h))]).symm
      dsimp only
      rw [hset]
      refine ⟨Nat.succ_le_succ hwrite, take_setRecord current (by omega) _, fun i hi => ?_⟩
      rw [setRecord, if_neg (by omega)]
      exact hrest i (Nat.le_of_succ_le hi)

/-- **Removing a subtree filters the records in use**, or leaves the array as it was. -/
theorem removeSubtree_cases (table : DerivationArray) (root : CapabilityRef) (capacity : Nat) :
    if table.isValid = true ∧ capabilityRefIsValid root = true ∧
        (derivationDescendants table.used root).length ≤ capacity then
      (table.removeSubtree root capacity).1 = some (derivationDescendants table.used root) ∧
        (table.removeSubtree root capacity).2.isValid = true ∧
        (table.removeSubtree root capacity).2.used =
          table.used.filter fun r => r.child ∉ derivationDescendants table.used root
    else table.removeSubtree root capacity = (none, table) := by
  unfold removeSubtree
  by_cases hrefused : (!table.isValid) = true ∨ (!capabilityRefIsValid root) = true
  · rw [if_pos hrefused, if_neg]
    rintro ⟨hvalid, hroot, -⟩
    rw [hvalid, hroot] at hrefused
    simp at hrefused
  rw [if_neg hrefused]
  simp only [not_or, Bool.not_eq_true, Bool.not_eq_false'] at hrefused
  obtain ⟨hvalid, hroot⟩ := hrefused
  dsimp only
  by_cases hfits : (derivationDescendants table.used root).length ≤ capacity
  · rw [if_pos ⟨hvalid, hroot, hfits⟩, if_neg (Nat.not_lt.mpr hfits)]
    obtain ⟨hcount, hzero, hok⟩ := (isValid_iff table).mp hvalid
    have hcompact := compact_spec (derivationDescendants table.used root) table.records _ hcount
    rw [← indices, ← used] at hcompact
    generalize table.indices.foldl (compactStep (derivationDescendants table.used root))
      (table.records, 0) = state at hcompact ⊢
    obtain ⟨hwrite, hkept, hrest⟩ := hcompact
    have htoNat : (UInt32.ofNat state.2).toNat = state.2 :=
      UInt32.toNat_ofNat_of_lt' (lt_of_le_of_lt (hwrite.trans hcount) (by decide))
    have hused : (⟨fun index => if state.2 ≤ index.val ∧ index.val < table.count.toNat then .zero
        else state.1 index, UInt32.ofNat state.2⟩ : DerivationArray).used =
          table.used.filter fun r => r.child ∉ derivationDescendants table.used root := by
      rw [← hkept, used]
      refine (List.map_congr_left fun i hi => if_neg fun h => ?_).trans ?_
      · have := mem_indices.mp hi
        dsimp only at this
        omega
      · rw [indices, htoNat]
    refine ⟨rfl, (isValid_iff _).mpr ⟨?_, fun i hi => ?_, ?_⟩, hused⟩
    · exact htoNat.le.trans (hwrite.trans hcount)
    · dsimp only at hi ⊢
      rw [htoNat] at hi
      split_ifs with hi'
      · rfl
      · have hunread : table.count.toNat ≤ i := by omega
        exact (hrest i hunread).trans (hzero i hunread)
    · rw [hused]
      exact hok.sublist List.filter_sublist
  · rw [if_neg fun h => hfits h.2.2, if_pos (Nat.lt_of_not_le hfits)]

end DerivationArray

/-! ### The three functions -/

theorem lineageOk_iff (table : CapabilityDerivationTable) : LineageOk table ↔
    table.length ≤ capDerivationMax ∧
      (∀ record ∈ table, capabilityRefIsValid record.parent = true ∧
        capabilityRefIsValid record.child = true) ∧
      (table.map (·.child)).Nodup ∧ ∀ c, ¬ Descends table c c := by
  refine ⟨fun hok => ⟨hok.count, hok.refs, hok.children, hok.not_descends_self⟩, ?_⟩
  rintro ⟨hcount, hrefs, hchildren, hacyclic⟩
  refine ⟨hcount, hrefs, hchildren, Rooted.of_acyclic (table.map (·.child)).toFinset ?_ ?_⟩
  · intro a p hp
    exact List.mem_toFinset.mpr
      (List.mem_map_of_mem ((derivedFrom_eq_some hchildren).mp hp) : a ∈ table.map (·.child))
  · intro c hcycle
    have hle : (fun p a => derivedFrom table a = some p) ≤
        fun p a => (⟨p, a⟩ : CapabilityDerivation) ∈ table :=
      fun _ _ h => (derivedFrom_eq_some hchildren).mp h
    exact hacyclic c (Relation.TransGen.mono hle c c hcycle)

/-- The loop that collects the descendants has ended after one pass for each record and one more. -/
theorem derivationDescendants_of_le (table : CapabilityDerivationTable) (root : CapabilityRef)
    {passes : Nat} (h : table.length + 1 ≤ passes) :
    spread (fun reference => reference = root) (derivationEdges table) passes [] =
      derivationDescendants table root := by
  have hlength : (derivationEdges table).length = table.length := List.length_map _
  refine spread_of_le _ _ _ _ (Nat.lt_succ_of_le (List.length_filter_le _ _)) passes ?_
  rwa [hlength]

/-- **The derivation table stays a forest.**  A table is accepted when its count is within the
array, its unused records are zero, its references are valid, no capability is the child of two
records and none descends from itself.  An addition appends one record and keeps the table valid, or
leaves the table unchanged; it appends whenever the result is a forest.  The removal of a subtree
reports every descendant of the root once and keeps the other records in order, or leaves the table
unchanged; its loop ends. -/
theorem derivationArray_forest (table : DerivationArray) : (table.isValid = true ↔
      table.count.toNat ≤ capDerivationMax ∧
        (∀ index : Fin 64, table.count.toNat ≤ index → table.records index = .zero) ∧
        (∀ record ∈ table.used, capabilityRefIsValid record.parent = true ∧
          capabilityRefIsValid record.child = true) ∧
        (table.used.map (·.child)).Nodup ∧ ∀ c, ¬ Descends table.used c c) ∧
    (∀ parent child,
      ((table.add parent child).1 = true ∧ (table.add parent child).2.isValid = true ∧
          (table.add parent child).2.used = table.used ++ [⟨parent, child⟩]) ∨
        (table.add parent child = (false, table) ∧
          (table.isValid = true → ¬ LineageOk (table.used ++ [⟨parent, child⟩])))) ∧
    ∀ root capacity, ∃ descendants : List CapabilityRef,
      descendants.Nodup ∧ (∀ c, c ∈ descendants ↔ Descends table.used root c) ∧
      (∀ passes, table.used.length + 1 ≤ passes → descendants =
        spread (fun reference => reference = root) (derivationEdges table.used) passes []) ∧
      if table.isValid = true ∧ capabilityRefIsValid root = true ∧
          descendants.length ≤ capacity then
        (table.removeSubtree root capacity).1 = some descendants ∧
          (table.removeSubtree root capacity).2.isValid = true ∧
          (table.removeSubtree root capacity).2.used =
            table.used.filter fun record => record.child ∉ descendants
      else table.removeSubtree root capacity = (none, table) := by
  refine ⟨?_, table.add_cases, fun root capacity => ⟨derivationDescendants table.used root,
    nodup_derivationDescendants _ _, mem_derivationDescendants _ _,
    fun passes h => (derivationDescendants_of_le _ _ h).symm,
    table.removeSubtree_cases root capacity⟩⟩
  rw [DerivationArray.isValid_iff, lineageOk_iff]
  refine and_congr_right fun hcount => and_congr_right fun _ => and_iff_right ?_
  exact (DerivationArray.length_used hcount).le.trans hcount

end Jani
