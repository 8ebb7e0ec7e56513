import Jani.Cap.Equiv.DomainStep
import Jani.Cap.Equiv.Lineage

/-!
# Capability tables can always be stored and read back

A component outside a domain changes its table with `component_capability_insert`, `derive` and
`revoke`; one in a domain with the operations of the domain, and with `component_capability_insert`
and `revoke`.  Along both kinds of runs the table stays valid and its live slots stay below the slot
count (`CountOk`), which is what `component_captable_encode` asks for.

A revocation in a domain empties what the lineage says was derived, so the parent links of a table
have to be recorded there (`TablesOk.links`).  `capability_domain_open` checks it, and every
operation keeps it but `component_capability_derive`, which records nothing: on a component in a
domain it makes a link that a later revocation leaves dangling (`revoke_leaves_local_child`).
-/

namespace Jani

open CapabilityTable

/-! ### Components outside a domain -/

/-- A change of the capability table of one component. -/
inductive ComponentCall where
  | insert (object : ObjectId) (rights badge : UInt32)
  | derive (parentSlot childRights childBadge : UInt32)
  | revoke (slot : UInt32)
  | read (store : ObjectMap) (readable : ObjectId → Bool)

/-- The component after a call; one that fails leaves it as it was. -/
def componentStep (c : Component) : ComponentCall → Component
  | .insert object rights badge => match componentCapabilityInsert c object rights badge with
    | none => c
    | some (_, c') => c'
  | .derive parentSlot childRights childBadge =>
    match componentCapabilityDerive c parentSlot childRights childBadge with
    | none => c
    | some (_, c') => c'
  | .revoke slot => (componentCapabilityRevoke c slot).getD c
  | .read store readable => (componentCaptableRead store readable c).getD c

def componentRun (c : Component) (calls : List ComponentCall) : Component :=
  calls.foldl componentStep c

/-- The component with an empty table. -/
def Component.withoutCapabilities (c : Component) : Component :=
  { c with capabilityTable := CapabilityTable.init, capabilityCount := 0 }

theorem toNat_raiseCount {count : UInt32} (h : count.toNat ≤ 16) (s : Slot) :
    (raiseCount count s).toNat ≤ 16 ∧ s.val < (raiseCount count s).toNat ∧
      count.toNat ≤ (raiseCount count s).toNat := by
  have hs := s.isLt
  unfold raiseCount
  split_ifs with hge
  · rw [ge_iff_le, UInt32.le_iff_toNat_le, toNat_word] at hge
    have hword : (s.word + 1).toNat = s.val + 1 := by
      rw [UInt32.toNat_add, toNat_word, UInt32.toNat_one, Nat.mod_eq_of_lt (by omega)]
    omega
  · rw [ge_iff_le, UInt32.le_iff_toNat_le, toNat_word] at hge
    omega

variable {s : Slot} {object : ObjectId} {c c' : Component} {rights badge : UInt32}
variable {readable : ObjectId → Bool} {store : ObjectMap}

theorem CountOk.fills {t t' : CapabilityTable} {count link : UInt32} {capability : Capability}
    (h : CountOk t count) (hf : Fills t t' s capability link) (hok : TableOk t') :
    CountOk t' (raiseCount count s) := by
  obtain ⟨hle, hslot, hcount⟩ := toNat_raiseCount h.count s
  refine ⟨hok, hle, fun j hj => ?_⟩
  by_cases hjs : j = s
  · rw [hjs]
    exact hslot
  · rw [hf.at?_other hjs] at hj
    exact lt_of_lt_of_le (h.below j hj) hcount

theorem capabilityTableFind_eq_some {t : CapabilityTable}
    (h : capabilityTableFind t object = some s) : (t.at? s).isSome = true := by
  unfold capabilityTableFind at h
  split_ifs at h
  have hfound := List.find?_some h
  cases hat : t.at? s with
  | none => rw [hat] at hfound; cases hfound
  | some capability => rfl

/-- What a call does to the table of a component: it raises the rights of a live slot, fills an
empty one, or empties some. -/
theorem componentCapabilityInsert_cases
    (h : componentCapabilityInsert c object rights badge = some (s, c')) : c'.rootId = c.rootId ∧
      ((TableOk c'.capabilityTable ∧ (c.capabilityTable.at? s).isSome = true ∧
          c'.capabilityCount = c.capabilityCount ∧
          c'.capabilityTable.parents = c.capabilityTable.parents ∧
          c'.capabilityTable.generations = c.capabilityTable.generations ∧
          ∀ j ≠ s, c'.capabilityTable.slots j = c.capabilityTable.slots j) ∨
        ∃ capability, capabilityIsValid capability = true ∧
          Fills c.capabilityTable c'.capabilityTable s capability capSlotNone ∧
          c'.capabilityCount = raiseCount c.capabilityCount s) := by
  unfold componentCapabilityInsert at h
  split_ifs at h
  split at h
  · rename_i slot hfind
    dsimp only at h
    split_ifs at h with hbad
    cases h
    rw [not_or, Bool.not_eq_true, Bool.not_eq_false', Bool.not_eq_true, Bool.not_eq_false',
      capabilityTableIsValid_iff] at hbad
    exact ⟨rfl, Or.inl ⟨hbad.2, capabilityTableFind_eq_some hfind, rfl, rfl, rfl,
      fun j hj => Function.update_of_ne hj _ _⟩⟩
  · split at h
    · cases h
    rename_i slot table hinsert
    cases h
    obtain ⟨hvalid, hfills⟩ := capabilityTableInsertRoot_eq_some hinsert
    exact ⟨rfl, Or.inr ⟨_, hvalid, hfills, rfl⟩⟩

theorem componentCapabilityInsert_count
    (h : componentCapabilityInsert c object rights badge = some (s, c'))
    (hok : CountOk c.capabilityTable c.capabilityCount) :
    CountOk c'.capabilityTable c'.capabilityCount := by
  obtain ⟨-, ⟨htable, hlive, hcount, -, hgenerations, hslots⟩ | ⟨capability, hvalid, hfills,
    hcount⟩⟩ := componentCapabilityInsert_cases h
  · rw [hcount]
    refine ⟨htable, hok.count, fun j hj => hok.below j ?_⟩
    by_cases hjs : j = s
    · rw [hjs]
      exact hlive
    · unfold at? at hj ⊢
      rwa [hslots j hjs, hgenerations] at hj
  · rw [hcount]
    exact hok.fills hfills (hok.table.fills hfills hvalid (Or.inl rfl))

theorem componentCapabilityDerive_count {parentSlot : UInt32}
    (h : componentCapabilityDerive c parentSlot rights badge = some (s, c'))
    (hok : CountOk c.capabilityTable c.capabilityCount) :
    CountOk c'.capabilityTable c'.capabilityCount := by
  unfold componentCapabilityDerive at h
  split_ifs at h
  split at h
  · cases h
  rename_i slot table hderive
  cases h
  obtain ⟨p, parent, child, hp, hat, hchild, hfills⟩ := capabilityTableDerive_eq_some hderive
  obtain ⟨-, hvalid, hcovers⟩ := capabilityDerive_eq_some hchild
  obtain ⟨rfl, -⟩ := at?_eq_some.mp hat
  exact hok.fills hfills (hok.table.fills hfills hvalid (Or.inr ⟨p, hp, hat, hcovers⟩))

theorem componentCapabilityRevoke_cases {slot : UInt32}
    (h : componentCapabilityRevoke c slot = some c')
    (hok : CountOk c.capabilityTable c.capabilityCount) :
    c'.rootId = c.rootId ∧ CountOk c'.capabilityTable c'.capabilityCount ∧
      ∃ revoked, c'.capabilityTable = c.capabilityTable.clear revoked := by
  unfold componentCapabilityRevoke at h
  split_ifs at h
  split at h
  · cases h
  rename_i table hrevoke
  cases h
  obtain ⟨htable, revoked, rfl⟩ := capabilityTableRevoke_eq_some hrevoke hok.table
  exact ⟨rfl, countOk_iff_below.mpr ⟨htable, (countOk_iff_below.mp hok).2.clear revoked⟩,
    revoked, rfl⟩

theorem componentCaptableRead_count (h : componentCaptableRead store readable c = some c') :
    CountOk c'.capabilityTable c'.capabilityCount := by
  unfold componentCaptableRead at h
  split at h
  · cases h
  obtain ⟨⟨t, count, next⟩, hdecode, rfl⟩ := Option.map_eq_some_iff.mp h
  exact captableDecode_ok hdecode

theorem componentStep_count (hok : CountOk c.capabilityTable c.capabilityCount)
    (call : ComponentCall) :
    CountOk (componentStep c call).capabilityTable (componentStep c call).capabilityCount := by
  cases call with
  | insert object rights badge =>
    rw [componentStep]
    cases h : componentCapabilityInsert c object rights badge with
    | none => exact hok
    | some result => exact componentCapabilityInsert_count h hok
  | derive parentSlot childRights childBadge =>
    rw [componentStep]
    cases h : componentCapabilityDerive c parentSlot childRights childBadge with
    | none => exact hok
    | some result => exact componentCapabilityDerive_count h hok
  | revoke slot =>
    rw [componentStep]
    cases h : componentCapabilityRevoke c slot with
    | none => exact hok
    | some c' => exact (componentCapabilityRevoke_cases h hok).2.1
  | read store readable =>
    rw [componentStep]
    cases h : componentCaptableRead store readable c with
    | none => exact hok
    | some c' => exact componentCaptableRead_count h

theorem componentRun_count (c : Component) (calls : List ComponentCall) :
    CountOk (componentRun c.withoutCapabilities calls).capabilityTable
      (componentRun c.withoutCapabilities calls).capabilityCount := by
  induction calls using List.reverseRecOn with
  | nil =>
    refine ⟨tableOk_init, show (0 : UInt32).toNat ≤ 16 by decide, fun i hi => ?_⟩
    rw [at?_of_empty rfl] at hi
    cases hi
  | append_singleton calls call ih =>
    rw [componentRun, List.foldl_append]
    exact componentStep_count ih call

/-! ### Components in a domain -/

/-- The tables of a set of components are valid, their live slots lie below the slot counts, and
their parent links are recorded in the lineage. -/
structure TablesOk (set : ComponentSet) (lineage : CapabilityDerivationTable) : Prop where
  distinct : Distinct (holders set)
  forest : LineageOk lineage
  counts : ∀ i c, set i = some c → CountOk c.capabilityTable c.capabilityCount
  links : ∀ i c s p, set i = some c → c.capabilityTable.parents s = Slot.word p →
    (⟨c.holder.ref p, c.holder.ref s⟩ : CapabilityDerivation) ∈ lineage

variable {set : ComponentSet} {i : Fin 4}

theorem update_eq_some {j : Fin 4} {x : Component} (h : Function.update set i (some c) j = some x) :
    (j = i ∧ x = c) ∨ (j ≠ i ∧ set j = some x) := by
  by_cases hji : j = i
  · rw [hji, Function.update_self, Option.some.injEq] at h
    exact Or.inl ⟨hji, h.symm⟩
  · rw [Function.update_of_ne hji] at h
    exact Or.inr ⟨hji, h⟩

theorem rootIds_update (hi : set i = some c) (hroot : c'.rootId = c.rootId) (j : Fin 4) :
    (Function.update set i (some c') j).map Component.rootId =
      (set j).map Component.rootId := by
  by_cases hji : j = i
  · rw [hji, Function.update_self, hi, Option.map_some, Option.map_some, hroot]
  · rw [Function.update_of_ne hji]

theorem distinct_of_rootIds {set' : ComponentSet} (hd : Distinct (holders set))
    (hroots : ∀ j, (set' j).map Component.rootId = (set j).map Component.rootId) :
    Distinct (holders set') := by
  refine hd.of_roots fun j => ?_
  have h := hroots j
  unfold holders
  rw [Option.map_map, Option.map_map]
  exact h

section TablesOk

variable {set : ComponentSet} {lineage lineage' : CapabilityDerivationTable} {i : Fin 4}
  {c c' : Component} (h : TablesOk set lineage)

include h

variable (hi : set i = some c)

include hi

theorem TablesOk.update (hroot : c'.rootId = c.rootId) (hforest : LineageOk lineage')
    (hkept : ∀ e ∈ lineage, e ∈ lineage') (hcount : CountOk c'.capabilityTable c'.capabilityCount)
    (hlinks : ∀ s p, c'.capabilityTable.parents s = Slot.word p →
      (⟨c'.holder.ref p, c'.holder.ref s⟩ : CapabilityDerivation) ∈ lineage') :
    TablesOk (Function.update set i (some c')) lineage' := by
  refine ⟨distinct_of_rootIds h.distinct (rootIds_update hi hroot), hforest, fun j x hj => ?_,
    fun j x s p hj hp => ?_⟩
  · rcases update_eq_some hj with ⟨-, rfl⟩ | ⟨-, hj⟩
    · exact hcount
    · exact h.counts j x hj
  · rcases update_eq_some hj with ⟨-, rfl⟩ | ⟨-, hj⟩
    · exact hlinks s p hp
    · exact hkept _ (h.links j x s p hj hp)

/-- The links of a table in which a slot was filled: those there were, and that of the slot. -/
theorem TablesOk.links_fills {table : CapabilityTable} {slot : Slot} {capability : Capability}
    {link : UInt32} (hf : Fills c.capabilityTable table slot capability link)
    (hnew : ∀ p, link = Slot.word p → c.capabilityTable.at? p ≠ none ∧
      (⟨c.holder.ref p, (⟨c.rootId, table⟩ : Holder).ref slot⟩ : CapabilityDerivation) ∈ lineage')
    (hkept : ∀ e ∈ lineage, e ∈ lineage') (s p : Slot) (hp : table.parents s = Slot.word p) :
    (⟨(⟨c.rootId, table⟩ : Holder).ref p, (⟨c.rootId, table⟩ : Holder).ref s⟩ :
      CapabilityDerivation) ∈ lineage' := by
  -- a slot in use is not the one that was empty
  have hne : ∀ {q : Slot}, c.capabilityTable.at? q ≠ none → q ≠ slot := by
    rintro q hq rfl
    exact hq hf.at?_none
  have hother : ∀ {q : Slot}, q ≠ slot → (⟨c.rootId, table⟩ : Holder).ref q = c.holder.ref q :=
    fun hq => Fills.ref_other (x := c.holder) hf hq
  by_cases hs : s = slot
  · subst hs
    rw [hf.parents, Function.update_self] at hp
    obtain ⟨hlive, hmem⟩ := hnew p hp
    rw [hother (hne hlive)]
    exact hmem
  · rw [(hf.other hs).2.1] at hp
    obtain ⟨q, hq, hat, -⟩ := (h.counts i c hi).table.link s (by rw [hp]; exact word_ne_none p)
    cases word_injective (hp.symm.trans hq)
    rw [hother (hne (by rw [hat]; exact Option.some_ne_none _)), hother hs]
    exact hkept _ (h.links i c s p hi hp)

theorem TablesOk.insert (hinsert : componentCapabilityInsert c object rights badge = some (s, c')) :
    TablesOk (Function.update set i (some c')) lineage := by
  obtain ⟨hroot, hcases⟩ := componentCapabilityInsert_cases hinsert
  refine h.update hi hroot h.forest (fun _ he => he)
    (componentCapabilityInsert_count hinsert (h.counts i c hi)) fun s' p hp => ?_
  rcases hcases with ⟨-, -, -, hparents, hgenerations, -⟩ | ⟨capability, -, hfills, -⟩
  · rw [hparents] at hp
    have href : ∀ q, c'.holder.ref q = c.holder.ref q := fun q => by
      unfold Holder.ref Component.holder
      rw [hroot, hgenerations]
    rw [href, href]
    exact h.links i c s' p hi hp
  · have hlink := h.links_fills hi hfills
      (fun p hp => absurd hp.symm (word_ne_none p)) (fun _ he => he) s' p hp
    rw [← hroot] at hlink
    exact hlink

theorem TablesOk.revokeLocal {slot : UInt32}
    (hrevoke : componentCapabilityRevoke c slot = some c') :
    TablesOk (Function.update set i (some c')) lineage := by
  obtain ⟨hroot, hcount, revoked, htable⟩ :=
    componentCapabilityRevoke_cases hrevoke (h.counts i c hi)
  refine h.update hi hroot h.forest (fun _ he => he) hcount fun s p hp => ?_
  have href : ∀ q, c'.holder.ref q = c.holder.ref q := fun q => by
    unfold Holder.ref Component.holder
    rw [hroot, htable]
    rfl
  have hkept : c.capabilityTable.parents s = Slot.word p := by
    rw [htable] at hp
    change (if revoked s then capSlotNone else c.capabilityTable.parents s) = _ at hp
    split_ifs at hp
    · exact absurd hp.symm (word_ne_none p)
    · exact hp
  rw [href, href]
  exact h.links i c s p hi hkept

theorem TablesOk.derives {sender : Component} {p : Slot} {parent child : Capability} {link : UInt32}
    {table : CapabilityTable} (hd : Derives lineage lineage' sender c p s parent child link table)
    (hlink : link = capSlotNone ∨ link = Slot.word p ∧ sender = c) {mailbox : List UInt8} :
    TablesOk (Function.update set i (some { c.withTable table s with mailbox := mailbox }))
      lineage' := by
  have hkept : ∀ e ∈ lineage, e ∈ lineage' := by
    rw [hd.lineage_eq]
    exact fun e he => List.mem_append_left _ he
  have hok := h.counts i c hi
  have htable : TableOk table := by
    refine hok.table.fills hd.fills hd.valid (hlink.imp id ?_)
    rintro ⟨hp, rfl⟩
    obtain ⟨rfl, -⟩ := at?_eq_some.mp hd.live
    exact ⟨p, hp, hd.live, hd.covers⟩
  refine h.update hi rfl hd.forest hkept (hok.fills hd.fills htable) fun s' q hq => ?_
  refine h.links_fills hi hd.fills (fun q' hq' => ?_) hkept s' q hq
  rcases hlink with hnone | ⟨hp, rfl⟩
  · exact absurd (hq'.symm.trans hnone) (word_ne_none q')
  · cases word_injective (hp.symm.trans hq')
    refine ⟨by rw [hd.live]; exact Option.some_ne_none _, ?_⟩
    rw [hd.lineage_eq]
    exact List.mem_append_right _ List.mem_cons_self

end TablesOk

variable {d : CapabilityDomain}

/-- Revocation keeps the tables in step with the lineage. -/
theorem TablesOk.revoked {d' : CapabilityDomain} {root : CapabilityRef}
    (h : TablesOk d.components d.lineage) (hr : Revoked d d' root) :
    TablesOk d'.components d'.lineage := by
  have hd := h.distinct
  -- every component is one of before with some slots emptied
  have hcomponent : ∀ j c', d'.components j = some c' → ∃ c, d.components j = some c ∧
      ClearedBy (fun s => decide (c.holder.ref s ∈ revokedRefs d.lineage root)) c c' := by
    intro j c' hj
    cases hc : d.components j with
    | none =>
      obtain ⟨d₁, hloop, rfl⟩ := hr.loop
      rw [show d₁.components j = none from (hloop.empty j hc).1] at hj
      cases hj
    | some c =>
      obtain ⟨c'', hc'', hcleared⟩ := hr.component hd hc
      rw [hj, Option.some.injEq] at hc''
      exact ⟨c, rfl, hc'' ▸ hcleared⟩
  have href : ∀ {c c' : Component} {gone : Slot → Bool}, ClearedBy gone c c' →
      ∀ q, c'.holder.ref q = c.holder.ref q := fun hcleared q => by
    unfold Holder.ref Component.holder
    rw [hcleared.rootId, hcleared.table]
    rfl
  refine ⟨?_, ?_, fun j c' hj => ?_, fun j c' s p hj hp => ?_⟩
  · rw [hr.holders_eq hd]
    exact hd.remove _
  · rw [hr.lineage_eq]
    exact h.forest.sublist List.filter_sublist
  · obtain ⟨c, hc, hcleared⟩ := hcomponent j c' hj
    obtain ⟨htable, hbelow⟩ := countOk_iff_below.mp (h.counts j c hc)
    refine countOk_iff_below.mpr ⟨?_, hcleared.count hbelow⟩
    rw [hcleared.table]
    refine htable.clear fun s p hp hgone => ?_
    rw [decide_eq_true_eq, mem_revokedRefs] at hgone ⊢
    have hmem := h.links j c s p hc hp
    rcases hgone with heq | hdesc
    · exact Or.inr (Relation.TransGen.single (by rw [← heq]; exact hmem))
    · exact Or.inr (hdesc.tail hmem)
  · obtain ⟨c, hc, hcleared⟩ := hcomponent j c' hj
    rw [hcleared.table] at hp
    change (if decide (c.holder.ref s ∈ revokedRefs d.lineage root) then capSlotNone
      else c.capabilityTable.parents s) = _ at hp
    rw [href hcleared, href hcleared, hr.lineage_eq, lineageWithout, List.mem_filter,
      decide_eq_true_eq]
    by_cases hgone : c.holder.ref s ∈ revokedRefs d.lineage root
    · rw [if_pos (decide_eq_true hgone)] at hp
      exact absurd hp.symm (word_ne_none p)
    · rw [if_neg (by simpa using hgone)] at hp
      exact ⟨h.links j c s p hc hp, hgone⟩

/-! ### Runs of a domain -/

/-- A call that changes the tables of a domain. -/
inductive DomainCall where
  | onComponent (i : Fin 4) (call : ComponentCall)
  | begin
  | abort
  | commit (fate : CommitFate)
  | derive (i : Fin 4) (slot rights badge : UInt32)
  | send (readable : ObjectId → Bool) (i : Fin 4) (target : UInt32) (payload : List UInt8)
      (source : Int32) (rights badge : UInt32)
  | revoke (i : Fin 4) (slot : UInt32)

def domainStep (d : CapabilityDomain) : DomainCall → CapabilityDomain
  | .onComponent i call => match d.components i with
    | none => d
    | some c => d.setComponent i (componentStep c call)
  | .begin => (capabilityDomainBegin d).getD d
  | .abort => capabilityDomainAbort d
  | .commit fate => (capabilityDomainCommit d fate).2
  | .derive i slot rights badge => (capabilityDomainDerive d i slot rights badge).2
  | .send readable i target payload source rights badge =>
    (capabilityDomainSend d readable i target payload source rights badge).2
  | .revoke i slot => (capabilityDomainRevoke d i slot).2

def domainRun (d : CapabilityDomain) (calls : List DomainCall) : CapabilityDomain :=
  calls.foldl domainStep d

/-- The calls that record every new parent link in the lineage: all but
`component_capability_derive`, and `component_captable_read`, on a component of the domain. -/
def DomainCall.RecordsLinks : DomainCall → Prop
  | .onComponent _ (.derive _ _ _) => False
  | .onComponent _ (.read _ _) => False
  | _ => True

/-- The tables are good now, and while a transaction is open also those it started from. -/
structure DomainTables (d : CapabilityDomain) : Prop where
  now : TablesOk d.components d.lineage
  saved : d.active = true → TablesOk d.saved d.savedLineage ∧
    ∀ j, (d.saved j).map Component.rootId = (d.components j).map Component.rootId

section DomainTables

variable {d d' : CapabilityDomain}

section

variable (h : DomainTables d)

include h

theorem DomainTables.of_components (hnow : TablesOk d'.components d'.lineage)
    (hactive : d'.active = d.active) (hsaved : d'.saved = d.saved)
    (hlineage : d'.savedLineage = d.savedLineage)
    (hroots : ∀ j, (d'.components j).map Component.rootId =
      (d.components j).map Component.rootId) : DomainTables d' := by
  refine ⟨hnow, fun ha => ?_⟩
  rw [hactive] at ha
  obtain ⟨hok, hsame⟩ := h.saved ha
  rw [hsaved, hlineage]
  exact ⟨hok, fun j => (hsame j).trans (hroots j).symm⟩

theorem DomainTables.setComponent (hi : d.components i = some c) (hroot : c'.rootId = c.rootId)
    (hnow : TablesOk (Function.update d.components i (some c')) d.lineage) :
    DomainTables (d.setComponent i c') :=
  h.of_components hnow rfl rfl rfl (rootIds_update hi hroot)

theorem DomainTables.setComponent_self (hi : d.components i = some c) :
    DomainTables (d.setComponent i c) := by
  refine h.setComponent hi rfl ?_
  rw [← hi, Function.update_eq_self]
  exact h.now

/-- Abort restores tables in step with the saved lineage. -/
theorem DomainTables.abort : DomainTables (capabilityDomainAbort d) := by
  unfold capabilityDomainAbort
  split_ifs with hactive
  · exact h
  · rw [Bool.not_eq_true, Bool.not_eq_false'] at hactive
    obtain ⟨hok, hsame⟩ := h.saved hactive
    -- every component is its copy, in the memory of now
    have hrestore : ∀ j c', restoreComponent (d.components j) (d.saved j) = some c' →
        ∃ c, d.saved j = some c ∧ c'.rootId = c.rootId ∧
          c'.capabilityTable = c.capabilityTable ∧ c'.capabilityCount = c.capabilityCount := by
      intro j c' hj
      have hroot := hsame j
      cases hc : d.components j with
      | none => rw [hc] at hj; cases hj
      | some c =>
        cases hs : d.saved j with
        | none => rw [hc, hs] at hroot; cases hroot
        | some saved =>
          rw [hc, hs] at hj
          cases hj
          exact ⟨saved, rfl, rfl, rfl, rfl⟩
    refine ⟨⟨distinct_of_rootIds hok.distinct fun j => ?_, hok.forest, fun j c' hj => ?_,
      fun j c' s p hj hp => ?_⟩, fun ha => (by cases ha)⟩
    · have hroot := hsame j
      dsimp only
      cases hc : d.components j with
      | none => rw [hroot, hc]; rfl
      | some c =>
        cases hs : d.saved j with
        | none => rw [hc, hs] at hroot; cases hroot
        | some saved => rfl
    · obtain ⟨c, hc, -, htable, hcount⟩ := hrestore j c' hj
      rw [htable, hcount]
      exact hok.counts j c hc
    · obtain ⟨c, hc, hroot, htable, -⟩ := hrestore j c' hj
      have href : c'.holder = c.holder := by
        unfold Component.holder
        rw [hroot, htable]
      rw [htable] at hp
      rw [href]
      exact hok.links j c s p hc hp

theorem DomainTables.begin (hbegin : capabilityDomainBegin d = some d') : DomainTables d' := by
  unfold capabilityDomainBegin at hbegin
  split_ifs at hbegin
  cases hbegin
  exact ⟨h.now, fun _ => ⟨h.now, fun _ => rfl⟩⟩

theorem DomainTables.commit (fate : CommitFate) :
    DomainTables (capabilityDomainCommit d fate).2 := by
  by_cases hactive : d.active = true
  · rcases capabilityDomainCommit_cases hactive fate with ⟨-, heq⟩ | ⟨-, heq⟩
    · rw [heq]
      refine ⟨⟨distinct_of_rootIds h.now.distinct fun j => ?_, h.now.forest, fun j c' hj => ?_,
        fun j c' s p hj hp => ?_⟩, fun ha => (by cases ha)⟩
      · dsimp only
        rw [Option.map_map]
        rfl
      · obtain ⟨c, hc, rfl⟩ := Option.map_eq_some_iff.mp hj
        exact h.now.counts j c hc
      · obtain ⟨c, hc, rfl⟩ := Option.map_eq_some_iff.mp hj
        exact h.now.links j c s p hc hp
    · rw [heq]
      have habort := DomainTables.abort
        (d := { d with store := (commitOutcome d fate).2 }) ⟨h.now, h.saved⟩
      exact ⟨habort.now, habort.saved⟩
  · have heq : capabilityDomainCommit d fate = (.rejected, d) := by
      unfold capabilityDomainCommit
      rw [if_pos (by simpa using hactive)]
    rw [heq]
    exact h

theorem DomainTables.derive (i : Fin 4) (slot rights badge : UInt32) :
    DomainTables (capabilityDomainDerive d i slot rights badge).2 := by
  rcases capabilityDomainDerive_cases d i slot rights badge with ⟨code, -, heq⟩ |
    ⟨owner, p, s, parent, child, table, lineage, hi, -, -, -, hderives, heq⟩
  · rw [heq]
    exact h
  · rw [heq]
    refine h.of_components ?_ rfl rfl rfl (rootIds_update hi rfl)
    exact h.now.derives hi hderives (Or.inr ⟨rfl, rfl⟩)

end

theorem stateChanged_eq (d : CapabilityDomain) (i : Fin 4) : capabilityDomainStateChanged d i =
    { d with statesDirty := (capabilityDomainStateChanged d i).statesDirty } := by
  unfold capabilityDomainStateChanged
  split_ifs <;> rfl

variable (h : DomainTables d)

include h

theorem DomainTables.stateChanged (i : Fin 4) :
    DomainTables (capabilityDomainStateChanged d i) := by
  rw [stateChanged_eq]
  exact ⟨h.now, h.saved⟩

theorem DomainTables.send (readable : ObjectId → Bool) (i : Fin 4) (target : UInt32)
    (payload : List UInt8) (source : Int32) (rights badge : UInt32) :
    DomainTables (capabilityDomainSend d readable i target payload source rights badge).2 := by
  rcases capabilityDomainSend_cases d readable i target payload source rights badge with
    ⟨code, -, heq⟩ | ⟨r, receiver, mailbox, hr, -, -, heq⟩ | ⟨r, sender, receiver, p, s, parent,
      child, table, lineage, mailbox, hi, hr, -, -, hderives, -, heq⟩
  · rw [heq]
    exact h
  · rw [heq]
    refine DomainTables.stateChanged ?_ r
    refine h.setComponent hr rfl ?_
    exact h.now.update hr rfl h.now.forest (fun _ he => he) (h.now.counts r receiver hr)
      fun s p hp => h.now.links r receiver s p hr hp
  · rw [heq]
    refine DomainTables.stateChanged ?_ r
    refine h.of_components ?_ rfl rfl rfl (rootIds_update hr rfl)
    refine h.now.derives hr hderives ?_
    split_ifs with hir
    · subst hir
      rw [hi, Option.some.injEq] at hr
      exact Or.inr ⟨rfl, hr⟩
    · exact Or.inl rfl

theorem DomainTables.revoke (i : Fin 4) (slot : UInt32) :
    DomainTables (capabilityDomainRevoke d i slot).2 := by
  rcases capabilityDomainRevoke_cases h.now.distinct h.now.forest i slot with ⟨code, -, heq⟩ |
    ⟨owner, s, capability, d', -, -, -, -, heq, hrevoked⟩
  · rw [heq]
    exact h
  · rw [heq]
    obtain ⟨d₁, hloop, hd'⟩ := hrevoked.loop
    refine h.of_components (h.now.revoked hrevoked) ?_ ?_ ?_ fun j => ?_
    · rw [hd', hloop.rest]
    · rw [hd', hloop.rest]
    · rw [hd', hloop.rest]
    · have hroots := hloop.roots j
      unfold holders at hroots
      rw [Option.map_map, Option.map_map] at hroots
      rw [hd']
      exact hroots

/-- **One call keeps the tables.** -/
theorem DomainTables.step {call : DomainCall} (hcall : call.RecordsLinks) :
    DomainTables (domainStep d call) := by
  cases call with
  | onComponent i call =>
    rw [domainStep]
    split
    · exact h
    rename_i c hi
    cases call with
    | insert object rights badge =>
      rw [componentStep]
      cases hinsert : componentCapabilityInsert c object rights badge with
      | none => exact h.setComponent_self hi
      | some result =>
        exact h.setComponent hi (componentCapabilityInsert_cases hinsert).1
          (h.now.insert hi hinsert)
    | revoke slot =>
      rw [componentStep]
      cases hrevoke : componentCapabilityRevoke c slot with
      | none => exact h.setComponent_self hi
      | some c' =>
        exact h.setComponent hi
          (componentCapabilityRevoke_cases hrevoke (h.now.counts i c hi)).1
          (h.now.revokeLocal hi hrevoke)
    | derive parentSlot childRights childBadge => exact absurd hcall id
    | read store readable => exact absurd hcall id
  | begin =>
    rw [domainStep]
    cases hbegin : capabilityDomainBegin d with
    | none => exact h
    | some d' => exact h.begin hbegin
  | abort => exact h.abort
  | commit fate => exact h.commit fate
  | derive i slot rights badge => exact h.derive i slot rights badge
  | send readable i target payload source rights badge =>
    exact h.send readable i target payload source rights badge
  | revoke i slot => exact h.revoke i slot

/-- **Every run keeps the tables.** -/
theorem DomainTables.run : ∀ {calls : List DomainCall},
    (∀ call ∈ calls, call.RecordsLinks) → DomainTables (domainRun d calls) := by
  intro calls
  induction calls using List.reverseRecOn with
  | nil => exact fun _ => h
  | append_singleton calls call ih =>
    intro hcalls
    rw [domainRun, List.foldl_append]
    exact (ih fun call hc => hcalls call (List.mem_append_left _ hc)).step
      (hcalls call (List.mem_append_right _ List.mem_cons_self))

end DomainTables

/-! ### Opening a domain -/

/-- The set of the given components, as far as `component_set_add` takes them. -/
def componentSetOf (components : List Component) : ComponentSet :=
  components.foldl (fun set c => (componentSetAdd set c).getD set) fun _ => none

theorem componentSetAdd_eq_some {set' : ComponentSet} (h : componentSetAdd set c = some set')
    (hd : Distinct (holders set)) :
    ∃ i, set i = none ∧ set' = Function.update set i (some c) ∧ Distinct (holders set') := by
  unfold componentSetAdd at h
  split_ifs at h with hzero hfound
  split at h
  · cases h
  rename_i i hfree
  cases h
  have hisNone := List.find?_some hfree
  have hempty : set i = none := Option.isNone_iff_eq_none.mp hisNone
  have hother : ∀ j x, set j = some x → x.rootId ≠ c.rootId := by
    intro j x hj heq
    refine hfound (Option.isSome_iff_exists.mpr ⟨j, ?_⟩)
    exact (componentSetFind_eq_some hd).mpr ⟨x, hj, heq⟩
  refine ⟨i, hempty, rfl, fun j x hj => ?_, fun j k x y hj hk heq => ?_⟩
  · obtain ⟨x, hx, rfl⟩ := holders_eq_some.mp hj
    rcases update_eq_some hx with ⟨-, rfl⟩ | ⟨-, hx⟩
    · exact fun hroot => hzero ((objectIdIsZero_iff _).mpr hroot)
    · exact hd.nonzero j _ (holders_of_some hx)
  · obtain ⟨x, hx, rfl⟩ := holders_eq_some.mp hj
    obtain ⟨y, hy, rfl⟩ := holders_eq_some.mp hk
    rcases update_eq_some hx with ⟨hji, hxc⟩ | ⟨-, hx⟩
    · rcases update_eq_some hy with ⟨hki, -⟩ | ⟨-, hy⟩
      · rw [hji, hki]
      · exact absurd (hxc ▸ heq.symm) (hother k y hy)
    · rcases update_eq_some hy with ⟨-, hyc⟩ | ⟨-, hy⟩
      · exact absurd (hyc ▸ heq) (hother j x hx)
      · exact hd.inj j k _ _ (holders_of_some hx) (holders_of_some hy) heq

theorem componentSetOf_ok {components : List Component}
    (h : ∀ c ∈ components, CountOk c.capabilityTable c.capabilityCount) :
    Distinct (holders (componentSetOf components)) ∧
      ∀ i c, componentSetOf components i = some c →
        CountOk c.capabilityTable c.capabilityCount := by
  induction components using List.reverseRecOn with
  | nil => exact ⟨⟨fun _ _ hx => (by cases hx), fun _ _ _ _ hx => (by cases hx)⟩,
      fun _ _ hx => (by cases hx)⟩
  | append_singleton components c ih =>
    obtain ⟨hd, hcounts⟩ := ih fun x hx => h x (List.mem_append_left _ hx)
    rw [componentSetOf, List.foldl_append, List.foldl_cons, List.foldl_nil, ← componentSetOf]
    cases hadd : componentSetAdd (componentSetOf components) c with
    | none => exact ⟨hd, hcounts⟩
    | some set' =>
      obtain ⟨i, -, rfl, hd'⟩ := componentSetAdd_eq_some hadd hd
      refine ⟨hd', fun j x hj => ?_⟩
      rcases update_eq_some hj with ⟨-, rfl⟩ | ⟨-, hj⟩
      · exact h x (List.mem_append_right _ List.mem_cons_self)
      · exact hcounts j x hj

theorem addDerivations_ok : ∀ {records : List CapabilityDerivation}
    {table table' : CapabilityDerivationTable}, LineageOk table →
    addDerivations table records = some table' → LineageOk table'
  | [], _, _, hok, h => by cases h; exact hok
  | record :: records, table, table', _, h => by
    rw [addDerivations] at h
    obtain ⟨table₁, hadd, hrest⟩ := Option.bind_eq_some_iff.mp h
    exact addDerivations_ok (capabilityDerivationAdd_eq_some hadd).2.1 hrest

theorem importLineage_ok {components : ComponentSet} : ∀ {places : List (Fin 4)}
    {table table' : CapabilityDerivationTable}, LineageOk table →
    importLineage components table places = some table' → LineageOk table'
  | [], _, _, hok, h => by cases h; exact hok
  | i :: places, table, table', hok, h => by
    rw [importLineage] at h
    cases hi : components i with
    | none => rw [hi] at h; exact importLineage_ok hok h
    | some c =>
      rw [hi] at h
      dsimp only at h
      split_ifs at h
      obtain ⟨table₁, hadd, hrest⟩ := Option.bind_eq_some_iff.mp h
      exact importLineage_ok (addDerivations_ok hok hadd) hrest

variable {components : ComponentSet} {fate : CommitFate}

theorem openLineage_ok {store' : ObjectMap} {lineage : CapabilityDerivationTable}
    (h : openLineage store components readable fate = (some lineage, store')) :
    LineageOk lineage := by
  unfold openLineage at h
  split_ifs at h
  · rw [Prod.mk.injEq] at h
    have hload := h.1
    unfold capabilityLineageLoad at hload
    split at hload
    · cases hload
    split_ifs at hload
    exact capabilityLineageDecode_ok hload
  · split at h
    · cases h
    rename_i table himport
    split at h
    · cases h
    split at h
    · cases h
      exact importLineage_ok lineageOk_nil himport
    · cases h

/-- **Inversion** of `capability_domain_open`. -/
theorem capabilityDomainOpen_eq_some {store' : ObjectMap}
    (h : capabilityDomainOpen store components readable fate = (some d, store')) :
    ∃ lineage provenance, LineageOk lineage ∧
      graphMatches (CapabilityDomain.fresh store' components lineage ProvenanceLedger.zero) =
        true ∧
      d = CapabilityDomain.fresh store' components lineage provenance := by
  unfold capabilityDomainOpen at h
  by_cases hrecovery : store.requiresRecovery = true
  · rw [if_pos hrecovery] at h
    cases h
  rw [if_neg hrecovery] at h
  rcases hopen : openLineage store components readable fate with ⟨_ | lineage, store₁⟩
  · rw [hopen] at h
    cases h
  rw [hopen] at h
  dsimp only at h
  split at h
  · cases h
  rename_i hmatches
  rw [Bool.not_eq_true, Bool.not_eq_false'] at hmatches
  split at h
  · split at h
    · cases h
    cases h
    exact ⟨lineage, _, openLineage_ok hopen, hmatches, rfl⟩
  · cases h
    exact ⟨lineage, _, openLineage_ok hopen, hmatches, rfl⟩

/-- **An opened domain has good tables**: what `graph_matches` checked includes the links. -/
theorem capabilityDomainOpen_tables {store' : ObjectMap}
    (h : capabilityDomainOpen store components readable fate = (some d, store'))
    (hd : Distinct (holders components))
    (hcounts : ∀ i c, components i = some c → CountOk c.capabilityTable c.capabilityCount) :
    DomainTables d := by
  obtain ⟨lineage, provenance, hforest, hmatches, rfl⟩ := capabilityDomainOpen_eq_some h
  refine ⟨⟨hd, hforest, hcounts, fun i c s p hi hp => ?_⟩, fun ha => (by cases ha)⟩
  unfold graphMatches at hmatches
  rw [Bool.and_eq_true, List.all_eq_true, List.all_eq_true] at hmatches
  have hcomponent := hmatches.2 i (List.mem_finRange i)
  rw [show (CapabilityDomain.fresh store' components lineage ProvenanceLedger.zero).components i =
    some c from hi, componentMatches, Bool.and_eq_true, List.all_eq_true] at hcomponent
  have hslot := hcomponent.2 s (List.mem_finRange s)
  exact ((slotMatches_live hforest (hcounts i c hi).table).mp hslot).1 p hp

/-! ### Storing and reading back -/

/-- The table of the component can be stored, and whoever reads it gets the same slots, parents,
generations, slot count and next object sequence. -/
def Storable (c : Component) : Prop :=
  ∃ bytes, componentCaptableEncode c = some bytes ∧
    ∀ (store : ObjectMap) (readable : ObjectId → Bool) (target : Component) (object : StoredObject),
      store.get readable target.captableId = some object → object.payload = bytes →
      componentCaptableRead store readable target = some { target with
        capabilityTable := c.capabilityTable
        capabilityCount := c.capabilityCount
        nextObjectSequence := c.nextObjectSequence
        capabilitiesDirty := false }

theorem CountOk.storable (h : CountOk c.capabilityTable c.capabilityCount) : Storable c := by
  refine ⟨_, componentCaptableEncode_of_ok h, fun store readable target object hget hpayload => ?_⟩
  rw [componentCaptableRead, hget]
  dsimp only
  rw [hpayload, captableDecode_bytes _ h, Option.map_some]

/-- **Capability tables can be stored and read back.**  This holds for a component outside a domain
after any `component_capability_insert`, `derive` and `revoke`; for the components of a domain
opened on such components after any transactions of `component_capability_insert` and `revoke` and
`capability_domain_derive`, `send` and `revoke`; and whatever bytes are stored, a reader refuses
them or gets a valid table without a live slot at or beyond its slot count. -/
theorem captable_roundTrip : (∀ (c : Component) (calls : List ComponentCall),
      Storable (componentRun c.withoutCapabilities calls)) ∧
    (∀ (starts : List (Component × List ComponentCall)) (store store' : ObjectMap)
        (readable : ObjectId → Bool) (fate : CommitFate) (d : CapabilityDomain)
        (calls : List DomainCall),
      capabilityDomainOpen store (componentSetOf (starts.map fun start =>
        componentRun start.1.withoutCapabilities start.2)) readable fate = (some d, store') →
      (∀ call ∈ calls, call.RecordsLinks) →
      ∀ i c, (domainRun d calls).components i = some c → Storable c) ∧
    ∀ (store : ObjectMap) (readable : ObjectId → Bool) (c : Component),
      componentCaptableRead store readable c = none ∨
        ∃ c', componentCaptableRead store readable c = some c' ∧
          capabilityTableIsValid c'.capabilityTable = true ∧
          ∀ i : Slot, (c'.capabilityTable.at? i).isSome = true →
            i.val < c'.capabilityCount.toNat := by
  refine ⟨fun c calls => (componentRun_count c calls).storable,
    fun starts store store' readable fate d calls hopen hcalls i c hi => ?_,
    fun store readable c => ?_⟩
  · obtain ⟨hd, hcounts⟩ := @componentSetOf_ok (starts.map fun start =>
      componentRun start.1.withoutCapabilities start.2)
      (List.forall_mem_map.mpr fun start _ => componentRun_count start.1 start.2)
    have htables := (capabilityDomainOpen_tables hopen hd hcounts).run hcalls
    exact (htables.now.counts i c hi).storable
  · cases hread : componentCaptableRead store readable c with
    | none => exact Or.inl rfl
    | some c' =>
      have hok := componentCaptableRead_count hread
      exact Or.inr ⟨c', rfl, (capabilityTableIsValid_iff _).mpr hok.table, hok.below⟩

/-- A component that may use an object and send to a second one, which holds a capability of its
own. -/
def sharers : List (Component × List ComponentCall) :=
  [(Component.blank ⟨2, 1⟩ ⟨⟨2, 2⟩, ⟨2, 3⟩, ⟨2, 4⟩⟩,
      [.insert ⟨9, 1⟩ capRightAll 0, .insert ⟨3, 1⟩ capRightSend 0]),
    (Component.blank ⟨3, 1⟩ ⟨⟨3, 2⟩, ⟨3, 3⟩, ⟨3, 4⟩⟩, [.insert ⟨9, 2⟩ capRightRead 0])]

/-- Their domain, opened on a store with the object. -/
def openedDomain : Option CapabilityDomain × ObjectMap :=
  capabilityDomainOpen ⟨[(⟨9, 1⟩, ⟨⟨0, 2⟩, ⟨0, 3⟩, ⟨0, 3⟩, 0, [1]⟩)], false⟩
    (componentSetOf (sharers.map fun start => componentRun start.1.withoutCapabilities start.2))
    (fun _ => true) .commit

theorem openedDomain_isSome : openedDomain.1.isSome = true := by
  decide +kernel

theorem openedDomain_eq :
    openedDomain = (some (openedDomain.1.get openedDomain_isSome), openedDomain.2) :=
  Prod.ext (Option.some_get openedDomain_isSome).symm rfl

/-- The first component derives a capability for the object and sends one derived from it. -/
def sharingCalls : List DomainCall :=
  [.begin, .derive 0 0 (capRightRead ||| capRightGrant) 5,
    .send (fun _ => true) 0 1 [7] 2 capRightRead 0]

theorem sharingCalls_recordLinks : ∀ call ∈ sharingCalls, call.RecordsLinks := by
  simp [sharingCalls, DomainCall.RecordsLinks]

def sharedDomain : CapabilityDomain :=
  domainRun (openedDomain.1.get openedDomain_isSome) sharingCalls

/-- The receiver's table, which holds a capability of its own and the one it was sent. -/
theorem captable_roundTrip_shared : ∃ c, sharedDomain.components 1 = some c ∧
    c.capabilityCount = 2 ∧ Storable c := by
  have hreceiver : (sharedDomain.components 1).map (·.capabilityCount) = some 2 := by
    decide +kernel
  obtain ⟨c, hc, hcount⟩ := Option.map_eq_some_iff.mp hreceiver
  exact ⟨c, hc, hcount, captable_roundTrip.2.1 sharers _ _ _ _ _ _ openedDomain_eq
    sharingCalls_recordLinks 1 c hc⟩

/-- A component that holds one capability with all rights. -/
def ownerComponent : Component :=
  componentRun (Component.blank ⟨2, 1⟩ ⟨⟨2, 2⟩, ⟨2, 3⟩, ⟨2, 4⟩⟩) [.insert ⟨3, 1⟩ capRightAll 0]

/-- The domain of this component alone. -/
def ownerDomain : CapabilityDomain :=
  CapabilityDomain.fresh ObjectMap.empty (componentSetOf [ownerComponent]) [] ProvenanceLedger.zero

/-- **A link made by `component_capability_derive` in a domain is left dangling** by a revocation of
its parent: the derivation is not in the lineage, so the child stays, and the table is neither valid
nor can it be stored.  The domain is one that `graph_matches` accepts. -/
theorem revoke_leaves_local_child : graphMatches ownerDomain = true ∧
      (capabilityDomainRevoke
        (domainRun ownerDomain [.onComponent 0 (.derive 0 capRightRead 0), .begin]) 0 0).1 = 0 ∧
      ∃ c, (domainRun ownerDomain
          [.onComponent 0 (.derive 0 capRightRead 0), .begin, .revoke 0 0]).components 0 = some c ∧
        capabilityTableIsValid c.capabilityTable = false ∧ componentCaptableEncode c = none := by
  refine ⟨by decide +kernel, by decide +kernel, _, rfl, by decide +kernel, by decide +kernel⟩

end Jani
