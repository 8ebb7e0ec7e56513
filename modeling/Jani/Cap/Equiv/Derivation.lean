import Jani.Cap.Derivation
import Jani.Cap.Equiv.CapTable

/-!
# Derivation tables are forests

`LineageOk` says what `capability_derivation_table_is_valid` checks
(`capabilityDerivationTableIsValid_iff`): every capability is derived at most once, and the links to
parents form a forest.  It passes to every part of a table, so removing records keeps it.

`Descends` is the relation between a capability and what was derived from it, directly or not.
`capability_derivation_remove_subtree` finds exactly the descendants (`mem_derivationDescendants`).
-/

namespace Jani

/-- The parent of a capability according to the table. -/
def derivedFrom (table : CapabilityDerivationTable) (child : CapabilityRef) :
    Option CapabilityRef :=
  (findChildRecord table child).map (·.parent)

/-- What `capability_derivation_table_is_valid` checks. -/
structure LineageOk (table : CapabilityDerivationTable) : Prop where
  count : table.length ≤ capDerivationMax
  refs : ∀ record ∈ table, capabilityRefIsValid record.parent = true ∧
    capabilityRefIsValid record.child = true
  children : (table.map (·.child)).Nodup
  rooted : Rooted (derivedFrom table)

theorem capabilityRefIsValid_iff (r : CapabilityRef) : capabilityRefIsValid r = true ↔
    r.componentId ≠ ⟨0, 0⟩ ∧ (∃ i, r.slot = Slot.word i) ∧ r.generation ≠ 0 := by
  unfold capabilityRefIsValid
  rw [Bool.and_eq_true, Bool.and_eq_true, decide_eq_true_eq, Bool.not_eq_true',
    Option.isSome_iff_exists, and_assoc]
  refine and_congr ?_ (and_congr ?_ Iff.rfl)
  · rw [← Bool.not_eq_true, objectIdIsZero_iff]
  · exact ⟨fun ⟨i, hi⟩ => ⟨i, slotIndex_eq_some hi⟩, fun ⟨i, hi⟩ => ⟨i, by rw [hi, slotIndex_word]⟩⟩

/-! ### Records and parents -/

variable {table : CapabilityDerivationTable} {child parent : CapabilityRef}
variable {record : CapabilityDerivation}

theorem findChildRecord_mem (h : findChildRecord table child = some record) :
    record ∈ table ∧ record.child = child := by
  unfold findChildRecord at h
  have hchild := List.find?_some h
  exact ⟨List.mem_of_find?_eq_some h, of_decide_eq_true hchild⟩

theorem findChildRecord_none (h : findChildRecord table child = none) :
    ∀ record ∈ table, record.child ≠ child :=
  fun record hr heq => List.find?_eq_none.mp h record hr (decide_eq_true heq)

theorem findChildRecord_of_mem (hnodup : (table.map (·.child)).Nodup) (h : record ∈ table) :
    findChildRecord table record.child = some record := by
  cases hfind : findChildRecord table record.child with
  | none => exact absurd rfl (findChildRecord_none hfind record h)
  | some r =>
    obtain ⟨hr, heq⟩ := findChildRecord_mem hfind
    rw [List.inj_on_of_nodup_map hnodup hr h heq]

theorem derivedFrom_eq_some (hnodup : (table.map (·.child)).Nodup) :
    derivedFrom table child = some parent ↔ (⟨parent, child⟩ : CapabilityDerivation) ∈ table := by
  unfold derivedFrom
  rw [Option.map_eq_some_iff]
  constructor
  · rintro ⟨record, hfind, rfl⟩
    obtain ⟨hmem, rfl⟩ := findChildRecord_mem hfind
    exact hmem
  · intro h
    exact ⟨_, findChildRecord_of_mem hnodup h, rfl⟩

/-! ### Validity -/

theorem walkAvoids_ends {table : CapabilityDerivationTable} {child : CapabilityRef} :
    ∀ {n : Nat} {current : CapabilityRef}, walkAvoids table child (n + 1) current = true →
      Ends (derivedFrom table) n current
  | n, current, h => by
    rw [walkAvoids] at h
    split_ifs at h
    cases hfind : findChildRecord table current with
    | none =>
      have hnone : Ends (derivedFrom table) 0 current := by
        rw [Ends, derivedFrom, hfind, Option.map_none]
      exact hnone.mono (Nat.zero_le n)
    | some record =>
      rw [hfind] at h
      dsimp only at h
      cases n with
      | zero => rw [walkAvoids] at h; cases h
      | succ n =>
        intro p hp
        rw [derivedFrom, hfind, Option.map_some, Option.some.injEq] at hp
        exact hp ▸ walkAvoids_ends h

theorem walkAvoids_of_ends {table : CapabilityDerivationTable} {child : CapabilityRef}
    {rank : CapabilityRef → Nat} (hrank : ∀ a p, derivedFrom table a = some p → rank p < rank a) :
    ∀ {n : Nat} {current : CapabilityRef}, Ends (derivedFrom table) n current →
      rank current < rank child → walkAvoids table child (n + 1) current = true
  | n, current, h, hlt => by
    have hne : current ≠ child := fun heq => absurd hlt (heq ▸ lt_irrefl _)
    rw [walkAvoids, if_neg hne]
    cases hfind : findChildRecord table current with
    | none => rfl
    | some record =>
      have hparent : derivedFrom table current = some record.parent := by
        rw [derivedFrom, hfind, Option.map_some]
      cases n with
      | zero => rw [Ends, hparent] at h; cases h
      | succ n =>
        exact walkAvoids_of_ends hrank (h _ hparent) (lt_trans (hrank _ _ hparent) hlt)

/-- **`capability_derivation_table_is_valid` accepts exactly the tables that are a forest.** -/
theorem capabilityDerivationTableIsValid_iff (table : CapabilityDerivationTable) :
    capabilityDerivationTableIsValid table = true ↔ LineageOk table := by
  unfold capabilityDerivationTableIsValid
  rw [decide_eq_true_eq]
  constructor
  · rintro ⟨hcount, hrecords, hnodup⟩
    refine ⟨hcount, fun r hr => ⟨(hrecords r hr).1, (hrecords r hr).2.1⟩, hnodup,
      Rooted.of_ends fun c => ?_⟩
    cases hfind : findChildRecord table c with
    | none => exact ⟨0, by rw [Ends, derivedFrom, hfind, Option.map_none]⟩
    | some record =>
      obtain ⟨hmem, rfl⟩ := findChildRecord_mem hfind
      have hwalk := (hrecords record hmem).2.2.2
      cases hn : table.length with
      | zero =>
        rw [List.length_eq_zero_iff.mp hn] at hmem
        cases hmem
      | succ n =>
        rw [hn] at hwalk
        refine ⟨n + 1, fun p hp => ?_⟩
        rw [derivedFrom, hfind, Option.map_some, Option.some.injEq] at hp
        exact hp ▸ walkAvoids_ends hwalk
  · intro hok
    refine ⟨hok.count, fun r hr => ?_, hok.children⟩
    have hparent : derivedFrom table r.child = some r.parent :=
      (derivedFrom_eq_some hok.children).mpr hr
    obtain ⟨rank, hrank⟩ := hok.rooted
    have hlt := hrank _ _ hparent
    refine ⟨(hok.refs r hr).1, (hok.refs r hr).2, fun heq => absurd hlt (heq ▸ lt_irrefl _), ?_⟩
    -- a chain has at most one link for each record
    have hends := hok.rooted.ends (table.map (·.child)).toFinset (fun a p hp =>
      List.mem_toFinset.mpr (List.mem_map.mpr
        ⟨_, (derivedFrom_eq_some hok.children).mp hp, rfl⟩)) r.child
    rw [List.toFinset_card_of_nodup hok.children, List.length_map] at hends
    cases hn : table.length with
    | zero =>
      rw [List.length_eq_zero_iff.mp hn] at hr
      cases hr
    | succ n =>
      rw [hn] at hends
      exact walkAvoids_of_ends hrank (hends _ hparent) hlt

theorem lineageOk_nil : LineageOk [] :=
  ⟨Nat.zero_le _, fun _ h => absurd h List.not_mem_nil, List.nodup_nil,
    ⟨fun _ => 0, fun _ _ h => by cases h⟩⟩

theorem LineageOk.sublist {table' : CapabilityDerivationTable} (hok : LineageOk table)
    (hsub : table'.Sublist table) : LineageOk table' := by
  have hnodup : (table'.map (·.child)).Nodup := hok.children.sublist (hsub.map _)
  exact ⟨hsub.length_le.trans hok.count, fun r hr => hok.refs r (hsub.subset hr), hnodup,
    hok.rooted.mono fun a p hp => (derivedFrom_eq_some hok.children).mpr
      (hsub.subset ((derivedFrom_eq_some hnodup).mp hp))⟩

theorem LineageOk.parent_ne_child (hok : LineageOk table) (h : record ∈ table) :
    record.parent ≠ record.child := by
  intro heq
  obtain ⟨rank, hrank⟩ := hok.rooted
  have := hrank _ _ ((derivedFrom_eq_some hok.children).mpr h)
  rw [heq] at this
  exact lt_irrefl _ this

/-! ### Adding and looking up -/

theorem capabilityDerivationAdd_eq_some {table' : CapabilityDerivationTable}
    (h : capabilityDerivationAdd table parent child = some table') :
    table' = table ++ [⟨parent, child⟩] ∧ LineageOk table' ∧
      ∀ record ∈ table, record.child ≠ child := by
  unfold capabilityDerivationAdd at h
  split_ifs at h with h1 h2
  cases h
  rw [Bool.not_eq_true, Bool.not_eq_false', capabilityDerivationTableIsValid_iff] at h2
  refine ⟨rfl, h2, fun record hr heq => h1 ?_⟩
  refine Or.inr (Or.inr (Or.inr (Or.inr (Or.inr ?_))))
  rw [Option.isSome_iff_ne_none]
  exact fun hnone => findChildRecord_none hnone record hr heq

theorem capabilityDerivationParent_eq_some (hok : LineageOk table) :
    capabilityDerivationParent table child = some parent ↔
      (⟨parent, child⟩ : CapabilityDerivation) ∈ table := by
  rw [← derivedFrom_eq_some hok.children]
  unfold capabilityDerivationParent
  rw [(capabilityDerivationTableIsValid_iff _).mpr hok]
  by_cases hchild : capabilityRefIsValid child = true
  · rw [if_neg (by simp [hchild])]
    rfl
  · rw [if_pos (by simp [hchild])]
    refine ⟨fun h => (by cases h), fun h => ?_⟩
    exact absurd (hok.refs _ ((derivedFrom_eq_some hok.children).mp h)).2 hchild

/-! ### Descendants -/

/-- The capability `c` was derived from `root`, directly or not. -/
def Descends (table : CapabilityDerivationTable) : CapabilityRef → CapabilityRef → Prop :=
  Relation.TransGen fun parent child => (⟨parent, child⟩ : CapabilityDerivation) ∈ table

theorem mem_derivationEdges : (parent, child) ∈ derivationEdges table ↔
      (⟨parent, child⟩ : CapabilityDerivation) ∈ table := by
  unfold derivationEdges
  rw [List.mem_map]
  exact ⟨fun ⟨r, hr, heq⟩ => (by cases heq; exact hr), fun h => ⟨_, h, rfl⟩⟩

/-- **The loop finds the descendants.** -/
theorem mem_derivationDescendants (table : CapabilityDerivationTable) (root c : CapabilityRef) :
    c ∈ derivationDescendants table root ↔ Descends table root c := by
  unfold derivationDescendants Descends
  rw [mem_spread_iff _ _ List.nodup_nil]
  unfold Reached
  simp only [List.not_mem_nil, or_false, false_or, decide_eq_true_eq, exists_eq_left,
    mem_derivationEdges]

theorem nodup_derivationDescendants (table : CapabilityDerivationTable) (root : CapabilityRef) :
    (derivationDescendants table root).Nodup :=
  (spread_sound _ [] List.nodup_nil fun _ h => Or.inl h).1

theorem Descends.exists_record {root c : CapabilityRef} (h : Descends table root c) :
    ∃ record ∈ table, record.child = c := by
  obtain ⟨b, -, hb⟩ := Relation.TransGen.tail'_iff.mp h
  exact ⟨_, hb, rfl⟩

theorem LineageOk.not_descends_self (hok : LineageOk table) (c : CapabilityRef) :
    ¬ Descends table c c := by
  obtain ⟨rank, hrank⟩ := hok.rooted
  have hlt : ∀ a b, Descends table a b → rank a < rank b := by
    intro a b h
    induction h with
    | single h => exact hrank _ _ ((derivedFrom_eq_some hok.children).mpr h)
    | tail _ h ih => exact ih.trans (hrank _ _ ((derivedFrom_eq_some hok.children).mpr h))
  exact fun h => lt_irrefl _ (hlt c c h)

theorem LineageOk.length_descendants (hok : LineageOk table) (root : CapabilityRef) :
    (derivationDescendants table root).length ≤ capDerivationMax := by
  have hsub : derivationDescendants table root ⊆ table.map (·.child) := by
    intro c hc
    obtain ⟨r, hr, heq⟩ := ((mem_derivationDescendants table root c).mp hc).exists_record
    exact List.mem_map.mpr ⟨r, hr, heq⟩
  calc (derivationDescendants table root).length
      ≤ (table.map (·.child)).length :=
        ((nodup_derivationDescendants table root).subperm hsub).length_le
    _ ≤ capDerivationMax := by rw [List.length_map]; exact hok.count

theorem capabilityDerivationRemoveSubtree_eq (hok : LineageOk table) {root : CapabilityRef}
    (hroot : capabilityRefIsValid root = true) :
    capabilityDerivationRemoveSubtree table root capDerivationMax =
      some (derivationDescendants table root,
        table.filter fun record => record.child ∉ derivationDescendants table root) := by
  unfold capabilityDerivationRemoveSubtree
  rw [(capabilityDerivationTableIsValid_iff _).mpr hok, hroot, if_neg (by simp),
    if_neg (Nat.not_lt.mpr (hok.length_descendants root))]

end Jani
