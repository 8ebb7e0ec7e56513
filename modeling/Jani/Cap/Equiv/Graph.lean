import Jani.Cap.Domain
import Jani.Cap.Equiv.Derivation
import Jani.Wasm.Equiv.Component

/-!
# The capability graph

What a domain says about authority is in the capability tables of its components and in the lineage.
This module looks at these alone: `Holders` are the tables with the roots of their components, and
`Names` says which capability a reference stands for.
-/

namespace Jani

open CapabilityTable

/-- A component as the holder of capabilities. -/
structure Holder where
  root : ObjectId
  table : CapabilityTable

abbrev Holders := Fin 4 → Option Holder

def Component.holder (c : Component) : Holder := ⟨c.rootId, c.capabilityTable⟩

def holders (set : ComponentSet) : Holders := fun i => (set i).map Component.holder

/-- The reference of a slot in its present generation. -/
def Holder.ref (x : Holder) (s : Slot) : CapabilityRef := ⟨x.root, s.word, x.table.generations s⟩

/-- What `component_set_add` makes sure of: the roots are not zero and different. -/
structure Distinct (h : Holders) : Prop where
  nonzero : ∀ i x, h i = some x → x.root ≠ ⟨0, 0⟩
  inj : ∀ i j x y, h i = some x → h j = some y → x.root = y.root → i = j

theorem Distinct.of_roots {h h' : Holders} (hd : Distinct h)
    (hroots : ∀ j, (h' j).map Holder.root = (h j).map Holder.root) : Distinct h' := by
  have hsame : ∀ j y, h' j = some y → ∃ x, h j = some x ∧ x.root = y.root := by
    intro j y hy
    have := hroots j
    rw [hy, Option.map_some, eq_comm, Option.map_eq_some_iff] at this
    exact this
  refine ⟨fun j y hy => ?_, fun j k y z hy hz heq => ?_⟩
  · obtain ⟨x, hx, hroot⟩ := hsame j y hy
    exact hroot ▸ hd.nonzero j x hx
  · obtain ⟨x, hx, hroot⟩ := hsame j y hy
    obtain ⟨w, hw, hroot'⟩ := hsame k z hz
    exact hd.inj j k x w hx hw (by rw [hroot, hroot', heq])

/-- The reference stands for the capability. -/
def Names (h : Holders) (ref : CapabilityRef) (c : Capability) : Prop :=
  ∃ i x s, h i = some x ∧ x.table.at? s = some c ∧ ref = x.ref s

variable {i : Fin 4} {s : Slot}

theorem Names.mk {h : Holders} {x : Holder} {c : Capability} (hi : h i = some x)
    (hat : x.table.at? s = some c) : Names h (x.ref s) c :=
  ⟨i, x, s, hi, hat, rfl⟩

section Names

variable {h : Holders}

theorem Names.valid (hd : Distinct h) {ref : CapabilityRef} {c : Capability}
    (hc : Names h ref c) : capabilityRefIsValid ref = true := by
  obtain ⟨i, x, s, hi, hat, rfl⟩ := hc
  exact (capabilityRefIsValid_iff _).mpr ⟨hd.nonzero i x hi, ⟨s, rfl⟩, (at?_eq_some.mp hat).2.2⟩

end Names

/-! ### The graph -/

section Resolve

variable {d : CapabilityDomain}

variable {set : ComponentSet} {c : Component}

theorem holders_eq_some {x : Holder} :
    holders set i = some x ↔ ∃ c, set i = some c ∧ c.holder = x := Option.map_eq_some_iff

theorem holders_of_some (h : set i = some c) :
    holders set i = some c.holder := by rw [holders, h, Option.map_some]

theorem componentSetFind_eq_some (hd : Distinct (holders set)) {rootId : ObjectId} :
    componentSetFind set rootId = some i ↔
      ∃ c, set i = some c ∧ c.rootId = rootId := by
  unfold componentSetFind
  constructor
  · intro h
    split_ifs at h
    have hfound := List.find?_some h
    cases hc : set i with
    | none => simp only [hc] at hfound; cases hfound
    | some c =>
      simp only [hc, objectIdEqual_iff] at hfound
      exact ⟨c, rfl, hfound⟩
  · rintro ⟨c, hc, rfl⟩
    have hne : c.rootId ≠ ⟨0, 0⟩ := hd.nonzero i _ (holders_of_some hc)
    rw [if_neg fun hzero => hne ((objectIdIsZero_iff _).mp hzero)]
    generalize hfind : List.find? _ _ = found
    cases found with
    | none =>
      have := List.find?_eq_none.mp hfind i (List.mem_finRange i)
      simp [hc] at this
    | some j =>
      have hfound := List.find?_some hfind
      cases hc' : set j with
      | none => simp only [hc'] at hfound; cases hfound
      | some c' =>
        simp only [hc', objectIdEqual_iff] at hfound
        rw [hd.inj j i _ _ (holders_of_some hc') (holders_of_some hc) hfound]

theorem find_bind_eq_some (hd : Distinct (holders set)) {rootId : ObjectId} :
    (componentSetFind set rootId).bind set = some c ↔
      ∃ i, set i = some c ∧ c.rootId = rootId := by
  rw [Option.bind_eq_some_iff]
  constructor
  · rintro ⟨i, hi, hc⟩
    obtain ⟨c', hc', hroot⟩ := (componentSetFind_eq_some hd).mp hi
    rw [hc, Option.some.injEq] at hc'
    exact ⟨i, hc, hc' ▸ hroot⟩
  · rintro ⟨i, hc, hroot⟩
    exact ⟨i, (componentSetFind_eq_some hd).mpr ⟨c, hc, hroot⟩, hc⟩

theorem reference_word {capability : Capability} (h : c.capabilityTable.at? s = some capability) :
    reference c s.word = c.holder.ref s := by
  rw [reference, capabilityTableGeneration_word, h, Option.isSome_some, if_pos rfl]
  rfl

theorem reference_invalid (h : c.capabilityTable.at? s = none) :
    capabilityRefIsValid (reference c s.word) = false := by
  rw [reference, capabilityTableGeneration_word, h, Option.isSome_none, if_neg (by decide)]
  simp [capabilityRefIsValid]

/-- **A reference resolves** if it stands for a capability of a component that is not fenced. -/
theorem capabilityDomainResolve_eq_some (hd : Distinct (holders d.components))
    {ref : CapabilityRef} {capability : Capability} :
    capabilityDomainResolve d ref = some capability ↔
      Names (holders d.components) ref capability ∧
        componentIsFenced d.store ref.componentId = false := by
  unfold capabilityDomainResolve
  constructor
  · intro h
    split_ifs at h with hvalid
    cases hfind : (componentSetFind d.components ref.componentId).bind d.components with
    | none => rw [hfind] at h; cases h
    | some c =>
      rw [hfind] at h
      dsimp only at h
      split_ifs at h with hbad
      obtain ⟨i, hc, hroot⟩ := (find_bind_eq_some hd).mp hfind
      rw [not_or, not_not, Bool.not_eq_true] at hbad
      obtain ⟨s, hs, hat⟩ := capabilityTableGet_eq_some h
      refine ⟨⟨i, c.holder, s, holders_of_some hc, hat, ?_⟩, hroot ▸ hbad.1⟩
      rw [← reference_word hat]
      cases ref
      simp only at hroot hs hbad
      rw [reference, hroot, ← hs, hbad.2]
  · rintro ⟨hnames, hfence⟩
    rw [if_neg (by simp [hnames.valid hd])]
    obtain ⟨i, x, s, hx, hat, rfl⟩ := hnames
    obtain ⟨c, hc, rfl⟩ := holders_eq_some.mp hx
    have hat' : c.capabilityTable.at? s = some capability := hat
    have hfind : (componentSetFind d.components (c.holder.ref s).componentId).bind d.components =
        some c := (find_bind_eq_some hd).mpr ⟨i, hc, rfl⟩
    rw [hfind]
    dsimp only
    have hgen : capabilityTableGeneration c.capabilityTable (c.holder.ref s).slot =
        (c.holder.ref s).generation := congrArg CapabilityRef.generation (reference_word hat')
    have hfence' : componentIsFenced d.store c.rootId = false := hfence
    rw [hgen, if_neg (by simp [hfence'])]
    exact (capabilityTableGet_word c.capabilityTable s).trans hat'

/-- What the second loop of `graph_matches` has seen of a slot in use. -/
theorem slotMatches_live (hlineage : LineageOk d.lineage) (htable : TableOk c.capabilityTable) :
    slotMatches d c s = true ↔
      (∀ p, c.capabilityTable.parents s = Slot.word p →
        (⟨c.holder.ref p, c.holder.ref s⟩ : CapabilityDerivation) ∈ d.lineage) ∧
      (∀ parent : CapabilityRef, parent.componentId = c.rootId →
        (c.capabilityTable.at? s).isSome = true →
        (⟨parent, c.holder.ref s⟩ : CapabilityDerivation) ∈ d.lineage →
          c.capabilityTable.parents s = parent.slot) := by
  unfold slotMatches
  dsimp only
  rw [Bool.and_eq_true, Bool.or_eq_true, decide_eq_true_eq, decide_eq_true_eq]
  refine and_congr ⟨fun h p hp => ?_, fun h => ?_⟩ ?_
  · have hlinked : c.capabilityTable.parents s ≠ capSlotNone := by rw [hp]; exact word_ne_none p
    obtain ⟨p', hp', hat', -⟩ := htable.link s hlinked
    have hat := htable.at?_of_linked hlinked
    cases word_injective (hp.symm.trans hp')
    rcases h with h | h
    · exact absurd h hlinked
    · rw [hp, reference_word hat, reference_word hat'] at h
      exact (capabilityDerivationParent_eq_some hlineage).mp h
  · by_cases hlinked : c.capabilityTable.parents s = capSlotNone
    · exact Or.inl hlinked
    · obtain ⟨p, hp, hat', -⟩ := htable.link s hlinked
      have hat := htable.at?_of_linked hlinked
      refine Or.inr ?_
      rw [hp, reference_word hat, reference_word hat']
      exact (capabilityDerivationParent_eq_some hlineage).mpr (h p hp)
  · constructor
    · intro h parent hroot hlive hmem
      obtain ⟨cap, hat⟩ := Option.isSome_iff_exists.mp hlive
      rw [reference_word hat, (capabilityDerivationParent_eq_some hlineage).mpr hmem] at h
      simp only [Bool.or_eq_true, Bool.not_eq_true', decide_eq_true_eq] at h
      rcases h with h | h
      · rw [← Bool.not_eq_true, objectIdEqual_iff] at h
        exact absurd hroot h
      · exact h
    · intro h
      cases hfound : capabilityDerivationParent d.lineage (reference c s.word) with
      | none => rfl
      | some parent =>
        have hmem := (capabilityDerivationParent_eq_some hlineage).mp hfound
        have hlive : (c.capabilityTable.at? s).isSome = true := by
          rw [Option.isSome_iff_ne_none]
          intro hnone
          have hvalid := (hlineage.refs _ hmem).2
          rw [reference_invalid hnone] at hvalid
          cases hvalid
        obtain ⟨cap, hat⟩ := Option.isSome_iff_exists.mp hlive
        rw [reference_word hat] at hmem
        simp only [Bool.or_eq_true, Bool.not_eq_true', decide_eq_true_eq]
        by_cases hroot : parent.componentId = c.rootId
        · exact Or.inr (h parent hroot hlive hmem)
        · refine Or.inl ?_
          rw [← Bool.not_eq_true, objectIdEqual_iff]
          exact hroot

theorem parent_eq_ref {h : Holders} (hd : Distinct h) {x : Holder} (hi : h i = some x)
    {parent : CapabilityRef} {p : Capability} (hnames : Names h parent p)
    (hroot : parent.componentId = x.root) : ∃ s, parent = x.ref s ∧ x.table.at? s = some p := by
  obtain ⟨j, y, s, hj, hat, rfl⟩ := hnames
  have hij := hd.inj j i y x hj hi hroot
  subst hij
  rw [hj, Option.some.injEq] at hi
  exact ⟨s, by rw [hi], hi ▸ hat⟩

end Resolve

/-! ### Filling a slot -/

section Fill

variable {h : Holders} {lineage lineage' : CapabilityDerivationTable} {i : Fin 4} {x : Holder}
  {t' : CapabilityTable} {s : Slot} {capability : Capability} {parent : UInt32}

theorem Fills.ref_other (hf : Fills x.table t' s capability parent) {j : Slot} (hj : j ≠ s) :
    (⟨x.root, t'⟩ : Holder).ref j = x.ref j := by
  unfold Holder.ref
  rw [(hf.other hj).2.2]

end Fill

/-! ### Emptying slots -/

/-- The holders without the capabilities whose references are gone. -/
def Holders.remove (h : Holders) (gone : CapabilityRef → Bool) : Holders :=
  fun i => (h i).map fun x => ⟨x.root, x.table.clear fun s => gone (x.ref s)⟩

section Remove

variable {h : Holders} {lineage lineage' : CapabilityDerivationTable} {gone : CapabilityRef → Bool}

theorem Distinct.remove (hd : Distinct h) (gone : CapabilityRef → Bool) :
    Distinct (h.remove gone) := by
  refine hd.of_roots fun j => ?_
  unfold Holders.remove
  cases h j <;> rfl

end Remove

end Jani
