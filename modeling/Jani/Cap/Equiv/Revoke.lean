import Jani.Cap.Equiv.Graph

/-!
# What a revocation changes

`capability_domain_revoke` collects a capability and its descendants and then empties their slots
one after the other.  `ClearedBy` says what that loop does to one component: its slots named by the
list are emptied, the frames of its mailbox that carried one of them carry nothing, and the rest is
as before.  `capabilityDomainRevoke_cases` is the whole operation: the capabilities that go are the
revoked one and those that descend from it, in whichever component, and the derivations that go are
the ones that lead to them.
-/

namespace Jani

open CapabilityTable

/-! ### Frames without some slots -/

/-- The frame without its attachment if it is one of the given slots. -/
def MailFrame.detachAll (gone : Slot → Bool) (f : MailFrame) : MailFrame :=
  match slotIndex f.slot with
  | none => f
  | some s => if gone s then { f with slot := capSlotNone } else f

theorem MailFrame.detachAll_none (f : MailFrame) : f.detachAll (fun _ => false) = f := by
  unfold detachAll
  split <;> simp

theorem MailFrame.detachAll_detachAll (f : MailFrame) (a b : Slot → Bool) :
    (f.detachAll a).detachAll b = f.detachAll fun s => a s || b s := by
  unfold detachAll
  cases hs : slotIndex f.slot with
  | none =>
    dsimp only
    rw [hs]
  | some s =>
    cases ha : a s with
    | true => simp [ha]
    | false => simp [ha, hs]

theorem MailFrame.detach_eq_detachAll {f : MailFrame} (hf : f.Ok) (s : Slot) :
    f.detach s.word = f.detachAll fun s' => s' = s := by
  unfold detach detachAll
  rcases hf.2 with hnone | ⟨s', hs'⟩
  · rw [if_neg (by rw [hnone]; exact (word_ne_none s).symm), hnone, slotIndex_none]
  · rw [hs', slotIndex_word]
    by_cases heq : s' = s
    · simp [heq]
    · rw [if_neg fun h => heq (word_injective h)]
      simp [heq]

/-! ### Clearing the slots of a component -/

/-- The slots of the component with the given root that the references name. -/
def namedSlots (refs : List CapabilityRef) (root : ObjectId) (s : Slot) : Bool :=
  refs.any fun r => r.componentId = root ∧ r.slot = s.word

theorem namedSlots_cons (r : CapabilityRef) (refs : List CapabilityRef) (root : ObjectId)
    (s : Slot) : namedSlots (r :: refs) root s =
      (decide (r.componentId = root ∧ r.slot = s.word) || namedSlots refs root s) := by
  unfold namedSlots
  rw [List.any_cons]

theorem clear_clear (t : CapabilityTable) (a b : Slot → Bool) :
    (t.clear a).clear b = t.clear fun s => a s || b s := by
  refine CapabilityTable.ext (funext fun s => ?_) (funext fun s => ?_) rfl
  · change (if b s then Capability.zero else if a s then Capability.zero else t.slots s) =
      if a s || b s then Capability.zero else t.slots s
    cases a s <;> cases b s <;> rfl
  · change (if b s then capSlotNone else if a s then capSlotNone else t.parents s) =
      if a s || b s then capSlotNone else t.parents s
    cases a s <;> cases b s <;> rfl

theorem toNat_trimCount (t : CapabilityTable) : ∀ {n : Nat}, n ≤ 16 →
    (trimCount t n).toNat ≤ n ∧ ∀ i : Slot, i.val < n → (t.at? i).isSome = true →
      i.val < (trimCount t n).toNat
  | 0, _ => ⟨le_rfl, fun _ h => absurd h (Nat.not_lt_zero _)⟩
  | n + 1, hn => by
    have hword : ∀ m ≤ 16, (UInt32.ofNat m).toNat = m := fun m hm =>
      UInt32.toNat_ofNat_of_lt' (lt_of_le_of_lt hm (by norm_num))
    rw [trimCount]
    split_ifs with hlive
    · rw [hword (n + 1) hn]
      exact ⟨le_rfl, fun i hi _ => hi⟩
    · obtain ⟨hle, hbelow⟩ := toNat_trimCount t (show n ≤ 16 by omega)
      refine ⟨by omega, fun i hi hat => hbelow i ?_ hat⟩
      by_contra hge
      have hin : i.val = n := by omega
      have hslot : UInt32.ofNat n = i.word := by rw [Slot.word, hin]
      rw [hslot, capabilityTableGet_word] at hlive
      exact hlive hat

/-- The usable slots of a table lie below the slot count. -/
def CountBelow (t : CapabilityTable) (count : UInt32) : Prop :=
  count.toNat ≤ 16 ∧ ∀ i, (t.at? i).isSome = true → i.val < count.toNat

theorem countOk_iff_below {t : CapabilityTable} {count : UInt32} :
    CountOk t count ↔ TableOk t ∧ CountBelow t count :=
  ⟨fun h => ⟨h.table, h.count, h.below⟩, fun h => ⟨h.1, h.2.1, h.2.2⟩⟩

theorem CountBelow.clear {t : CapabilityTable} {count : UInt32} (h : CountBelow t count)
    (gone : Slot → Bool) : CountBelow (t.clear gone) (trimCount (t.clear gone) count.toNat) := by
  obtain ⟨hle, hbelow⟩ := toNat_trimCount (t.clear gone) h.1
  refine ⟨hle.trans h.1, fun i hi => hbelow i (h.2 i ?_) hi⟩
  rw [clear_at?] at hi
  split_ifs at hi
  · cases hi
  · exact hi

/-- What the last loop of `capability_domain_revoke` does to a component. -/
structure ClearedBy (gone : Slot → Bool) (c c' : Component) : Prop where
  rest : c' = { c with
    mailbox := c'.mailbox
    capabilityTable := c'.capabilityTable
    capabilityCount := c'.capabilityCount }
  table : c'.capabilityTable = c.capabilityTable.clear gone
  mailbox : mailFrames c'.mailbox = (mailFrames c.mailbox).map (MailFrame.detachAll gone)
  valid : componentMailboxValidate c'.mailbox = componentMailboxValidate c.mailbox
  length : c'.mailbox.length = c.mailbox.length
  count : CountBelow c.capabilityTable c.capabilityCount →
    CountBelow c'.capabilityTable c'.capabilityCount

variable {c : Component}

theorem ClearedBy.rootId {gone : Slot → Bool} {c' : Component} (h : ClearedBy gone c c') :
    c'.rootId = c.rootId := by rw [h.rest]

theorem ClearedBy.refl (c : Component) : ClearedBy (fun _ => false) c c := by
  refine ⟨rfl, rfl, ?_, rfl, rfl, id⟩
  rw [List.map_congr_left fun f _ => f.detachAll_none, List.map_id']

theorem ClearedBy.trans {a b : Slot → Bool} {c' c'' : Component} (h : ClearedBy a c c')
    (h' : ClearedBy b c' c'') : ClearedBy (fun s => a s || b s) c c'' := by
  refine ⟨by rw [h'.rest, h.rest], by rw [h'.table, h.table, clear_clear], ?_,
    h'.valid.trans h.valid, h'.length.trans h.length, fun hc => h'.count (h.count hc)⟩
  rw [h'.mailbox, h.mailbox, List.map_map]
  exact List.map_congr_left fun f _ => f.detachAll_detachAll a b

/-- The component after one step of the loop. -/
def Component.clearSlot (c : Component) (s : Slot) : Component :=
  { c with
    mailbox := (stripAttachment c.mailbox s.word).2
    capabilityTable := c.capabilityTable.clear fun current => current = s
    capabilityCount := trimCount (c.capabilityTable.clear fun current => current = s)
      c.capabilityCount.toNat }

theorem clearedBy_clearSlot (hmail : componentMailboxValidate c.mailbox = true) (s : Slot) :
    ClearedBy (fun s' => s' = s) c (c.clearSlot s) := by
  obtain ⟨hvalid, hframes, -, hlength⟩ := mailFrames_strip hmail s.word
  obtain ⟨-, -, hok⟩ := (componentMailboxValidate_iff _).mp hmail
  refine ⟨rfl, rfl, ?_, hvalid.trans hmail.symm, hlength, fun h => h.clear _⟩
  exact hframes.trans (List.map_congr_left fun f hf => MailFrame.detach_eq_detachAll (hok f hf) s)

/-! ### The loop over the references -/

/-- Whether some frame of the mailbox carries one of the slots. -/
def carries (gone : Slot → Bool) (mailbox : List UInt8) : Bool :=
  (mailFrames mailbox).any fun f => match slotIndex f.slot with
    | none => false
    | some s => gone s

/-- What the loop does to the domain. -/
structure LoopEffect (refs : List CapabilityRef) (d d' : CapabilityDomain) : Prop where
  rest : d' = { d with
    components := d'.components
    tablesDirty := d'.tablesDirty
    statesDirty := d'.statesDirty }
  empty : ∀ j, d.components j = none → d'.components j = none ∧
    d'.tablesDirty j = d.tablesDirty j ∧ d'.statesDirty j = d.statesDirty j
  component : ∀ j c, d.components j = some c →
    ∃ c', d'.components j = some c' ∧ ClearedBy (namedSlots refs c.rootId) c c' ∧
      d'.tablesDirty j = (d.tablesDirty j || refs.any fun r => r.componentId = c.rootId) ∧
      d'.statesDirty j = (d.statesDirty j || carries (namedSlots refs c.rootId) c.mailbox)

theorem LoopEffect.nil (d : CapabilityDomain) : LoopEffect [] d d := by
  refine ⟨rfl, fun j h => ⟨h, rfl, rfl⟩, fun j c hc => ⟨c, hc, ClearedBy.refl c, by simp, ?_⟩⟩
  have hnone : carries (namedSlots [] c.rootId) c.mailbox = false := by
    unfold carries
    rw [List.any_eq_false]
    intro f _
    cases slotIndex f.slot <;> simp [namedSlots]
  rw [hnone, Bool.or_false]

variable {d : CapabilityDomain} {r : CapabilityRef}

theorem LoopEffect.roots {refs : List CapabilityRef} {d' : CapabilityDomain}
    (h : LoopEffect refs d d') (j : Fin 4) : (holders d'.components j).map Holder.root =
      (holders d.components j).map Holder.root := by
  unfold holders
  cases hc : d.components j with
  | none => rw [(h.empty j hc).1]
  | some c =>
    obtain ⟨c', hc', hcleared, -, -⟩ := h.component j c hc
    rw [hc']
    exact congrArg some hcleared.rootId

theorem carries_or {a b : Slot → Bool} {mailbox mailbox' : List UInt8}
    (h : mailFrames mailbox' = (mailFrames mailbox).map (MailFrame.detachAll a)) :
    (carries a mailbox || carries b mailbox') = carries (fun s => a s || b s) mailbox := by
  unfold carries
  rw [h, List.any_map, Bool.eq_iff_iff, Bool.or_eq_true, List.any_eq_true, List.any_eq_true,
    List.any_eq_true, ← exists_or]
  refine exists_congr fun f => ?_
  rw [← and_or_left]
  refine and_congr_right fun _ => ?_
  unfold Function.comp MailFrame.detachAll
  cases hs : slotIndex f.slot with
  | none => simp [hs]
  | some s =>
    cases ha : a s with
    | true => simp [ha]
    | false => simp [ha, hs]

theorem LoopEffect.cons {refs : List CapabilityRef} {d₁ d' : CapabilityDomain}
    (h₁ : LoopEffect [r] d d₁) (h : LoopEffect refs d₁ d') : LoopEffect (r :: refs) d d' := by
  refine ⟨by rw [h.rest, h₁.rest], fun j hj => ?_, fun j c hc => ?_⟩
  · obtain ⟨hc₁, ht₁, hs₁⟩ := h₁.empty j hj
    obtain ⟨hc', ht', hs'⟩ := h.empty j hc₁
    exact ⟨hc', ht'.trans ht₁, hs'.trans hs₁⟩
  · obtain ⟨c₁, hc₁, hcl₁, ht₁, hs₁⟩ := h₁.component j c hc
    obtain ⟨c', hc', hcl', ht', hs'⟩ := h.component j c₁ hc₁
    rw [hcl₁.rootId] at hcl' ht' hs'
    have hnamed : (fun s => namedSlots [r] c.rootId s || namedSlots refs c.rootId s) =
        namedSlots (r :: refs) c.rootId := by
      funext s
      rw [namedSlots_cons, namedSlots_cons]
      simp [namedSlots]
    refine ⟨c', hc', hnamed ▸ hcl₁.trans hcl', ?_, ?_⟩
    · rw [ht', ht₁, Bool.or_assoc]
      simp
    · rw [hs', hs₁, Bool.or_assoc, carries_or hcl₁.mailbox, hnamed]

/-- The step of the loop for a reference to a slot of a component with a valid mailbox. -/
theorem LoopEffect.single (hd : Distinct (holders d.components)) (hactive : d.active = true)
    {i : Fin 4} {s : Slot} (hi : d.components i = some c) (hroot : c.rootId = r.componentId)
    (hslot : r.slot = s.word) (hmail : componentMailboxValidate c.mailbox = true) :
    LoopEffect [r] d (clearReference d r) := by
  have hfind : componentSetFind d.components r.componentId = some i :=
    (componentSetFind_eq_some hd).mpr ⟨c, hi, hroot⟩
  have hindex : slotIndex r.slot = some s := by rw [hslot, slotIndex_word]
  obtain ⟨-, -, hflag, -⟩ := mailFrames_strip hmail s.word
  obtain ⟨-, -, hok⟩ := (componentMailboxValidate_iff _).mp hmail
  have hnamed : namedSlots [r] c.rootId = fun s' => decide (s' = s) := by
    funext s'
    unfold namedSlots
    rw [List.any_cons, List.any_nil, Bool.or_false, hslot, hroot]
    simp only [true_and]
    exact decide_eq_decide.mpr ⟨fun h => (word_injective h).symm, fun h => by rw [h]⟩
  have hcarries : (stripAttachment c.mailbox s.word).1 =
      carries (namedSlots [r] c.rootId) c.mailbox := by
    rw [hflag, hnamed]
    unfold carries
    rw [Bool.eq_iff_iff, List.any_eq_true, List.any_eq_true]
    refine exists_congr fun f => and_congr_right fun hf => ?_
    rcases (hok f hf).2 with hnone | ⟨s', hs'⟩
    · rw [hnone, slotIndex_none]
      simp [(word_ne_none s).symm]
    · rw [hs', slotIndex_word]
      simp only [decide_eq_true_eq]
      exact ⟨fun h => word_injective h, fun h => by rw [h]⟩
  have hd' : clearReference d r = { d with
      components := Function.update d.components i (some (c.clearSlot s))
      tablesDirty := Function.update d.tablesDirty i true
      statesDirty := if (stripAttachment c.mailbox s.word).1 then
        Function.update d.statesDirty i true else d.statesDirty } := by
    unfold clearReference
    rw [hfind, hindex]
    dsimp only
    rw [hi]
    dsimp only
    rw [hslot]
    unfold capabilityDomainStateChanged CapabilityDomain.setComponent Component.clearSlot
    split_ifs <;> rfl
  rw [hd']
  refine ⟨rfl, fun j hj => ?_, fun j c' hc' => ?_⟩
  · have hji : j ≠ i := by
      rintro rfl
      rw [hi] at hj
      cases hj
    dsimp only
    rw [Function.update_of_ne hji, Function.update_of_ne hji]
    refine ⟨hj, rfl, ?_⟩
    split_ifs
    · rw [Function.update_of_ne hji]
    · rfl
  · by_cases hji : j = i
    · subst hji
      rw [hi, Option.some.injEq] at hc'
      subst hc'
      dsimp only
      rw [Function.update_self, Function.update_self, hcarries]
      refine ⟨_, rfl, hnamed ▸ clearedBy_clearSlot hmail s, by simp [hroot], ?_⟩
      cases carries (namedSlots [r] c.rootId) c.mailbox with
      | true => simp
      | false => simp
    · have hother : c'.rootId ≠ r.componentId := fun heq =>
        hji (hd.inj j i _ _ (holders_of_some hc') (holders_of_some hi) (heq.trans hroot.symm))
      have hnone : namedSlots [r] c'.rootId = fun _ => false := by
        funext s'
        simp [namedSlots, hother.symm]
      dsimp only
      rw [Function.update_of_ne hji, Function.update_of_ne hji, hnone]
      refine ⟨c', hc', ClearedBy.refl c', by simp [hother.symm], ?_⟩
      have hcarries' : carries (fun _ => false) c'.mailbox = false := by
        unfold carries
        rw [List.any_eq_false]
        intro f _
        cases slotIndex f.slot <;> simp
      rw [hcarries', Bool.or_false]
      split_ifs
      · rw [Function.update_of_ne hji]
      · rfl

/-- **The loop empties the slots of all references.** -/
theorem loop_effect : ∀ (refs : List CapabilityRef) {d : CapabilityDomain},
    Distinct (holders d.components) → d.active = true →
    (∀ r ∈ refs, ∃ i c s, d.components i = some c ∧ c.rootId = r.componentId ∧
      r.slot = Slot.word s ∧ componentMailboxValidate c.mailbox = true) →
    LoopEffect refs d (refs.foldl clearReference d)
  | [], d, _, _, _ => LoopEffect.nil d
  | r :: refs, d, hd, hactive, hrefs => by
    obtain ⟨⟨i, c, s, hi, hroot, hslot, hmail⟩, hrest⟩ := List.forall_mem_cons.mp hrefs
    have hstep := LoopEffect.single hd hactive hi hroot hslot hmail
    refine hstep.cons (loop_effect refs (hd.of_roots hstep.roots) ?_ ?_)
    · rw [hstep.rest]
      exact hactive
    · intro r' hr'
      obtain ⟨j, c', s', hj, hroot', hslot', hmail'⟩ := hrest r' hr'
      obtain ⟨c'', hc'', hcleared, -, -⟩ := hstep.component j c' hj
      exact ⟨j, c'', s', hc'', hcleared.rootId.trans hroot', hslot', hcleared.valid.trans hmail'⟩

/-! ### The whole revocation -/

/-- The capability to revoke and all that was derived from it. -/
def revokedRefs (lineage : CapabilityDerivationTable) (root : CapabilityRef) : List CapabilityRef :=
  root :: derivationDescendants lineage root

theorem mem_revokedRefs {lineage : CapabilityDerivationTable} {root : CapabilityRef} :
    r ∈ revokedRefs lineage root ↔ r = root ∨ Descends lineage root r := by
  rw [revokedRefs, List.mem_cons, mem_derivationDescendants]

/-- The derivations that do not lead to one of the references. -/
def lineageWithout (lineage : CapabilityDerivationTable) (refs : List CapabilityRef) :
    CapabilityDerivationTable :=
  lineage.filter fun record => record.child ∉ refs

/-- What a successful revocation of `root` does. -/
structure Revoked (d d' : CapabilityDomain) (root : CapabilityRef) : Prop where
  resolves : ∀ r ∈ revokedRefs d.lineage root, (capabilityDomainResolve d r).isSome = true
  loop : ∃ d₁, LoopEffect (revokedRefs d.lineage root) d d₁ ∧ d' = { d₁ with
    lineage := lineageWithout d.lineage (revokedRefs d.lineage root)
    lineageDirty := true }

/-- Removing the record of a child by its first occurrence removes all there is of it. -/
theorem eraseP_child : ∀ {lineage : CapabilityDerivationTable} (root : CapabilityRef),
    (lineage.map (·.child)).Nodup →
    (lineage.eraseP fun record => record.child = root) =
      lineage.filter fun record => record.child ≠ root
  | [], _, _ => rfl
  | record :: lineage, root, h => by
    obtain ⟨hnot, hrest⟩ := List.nodup_cons.mp h
    by_cases heq : record.child = root
    · rw [List.eraseP_cons_of_pos (by simpa using heq),
      List.filter_cons_of_neg (by simpa using heq)]
      refine (List.filter_eq_self.mpr fun e he => ?_).symm
      simp only [ne_eq, decide_not, Bool.not_eq_eq_eq_not, Bool.not_true, decide_eq_false_iff_not]
      exact fun hchild => hnot (List.mem_map.mpr ⟨e, he, hchild.trans heq.symm⟩)
    · rw [List.eraseP_cons_of_neg (by simpa using heq),
      List.filter_cons_of_pos (by simpa using heq),
        eraseP_child root hrest]

theorem revocable_eq_true (hd : Distinct (holders d.components)) (h : revocable d r = true) :
    (capabilityDomainResolve d r).isSome = true ∧ ∃ i c s, d.components i = some c ∧
      c.rootId = r.componentId ∧ r.slot = Slot.word s ∧
      componentMailboxValidate c.mailbox = true := by
  unfold revocable at h
  rw [Bool.and_eq_true] at h
  obtain ⟨hresolve, hmail⟩ := h
  obtain ⟨capability, hcap⟩ := Option.isSome_iff_exists.mp hresolve
  obtain ⟨⟨i, x, s, hx, -, rfl⟩, -⟩ := (capabilityDomainResolve_eq_some hd).mp hcap
  obtain ⟨c, hc, rfl⟩ := holders_eq_some.mp hx
  have hfind : (componentSetFind d.components (c.holder.ref s).componentId).bind d.components =
      some c := (find_bind_eq_some hd).mpr ⟨i, hc, rfl⟩
  rw [hfind] at hmail
  exact ⟨hresolve, i, c, s, hc, rfl, rfl, hmail⟩

/-- **Inversion** of `capability_domain_revoke`: it fails and changes nothing, or it revokes a
capability in use. -/
theorem capabilityDomainRevoke_cases (hd : Distinct (holders d.components))
    (hforest : LineageOk d.lineage) (i : Fin 4) (slot : UInt32) :
    (∃ code, code ≠ 0 ∧ capabilityDomainRevoke d i slot = (code, d)) ∨
      ∃ owner s capability d', d.components i = some owner ∧ slot = Slot.word s ∧
        owner.capabilityTable.at? s = some capability ∧ d.active = true ∧
        capabilityDomainRevoke d i slot = (0, d') ∧ Revoked d d' (owner.holder.ref s) := by
  unfold capabilityDomainRevoke
  cases hi : d.components i with
  | none => exact Or.inl ⟨_, by decide, rfl⟩
  | some owner =>
    dsimp only
    split
    · exact Or.inl ⟨_, by decide, rfl⟩
    · rename_i hbad
      rw [not_or, Bool.not_eq_true, Bool.not_eq_false', Option.isNone_iff_eq_none] at hbad
      obtain ⟨hactive, hlive⟩ := hbad
      obtain ⟨capability, hget⟩ := Option.ne_none_iff_exists'.mp hlive
      obtain ⟨s, rfl, hat⟩ := capabilityTableGet_eq_some hget
      have hroot : capabilityRefIsValid (owner.holder.ref s) = true :=
        (Names.mk (holders_of_some hi) hat).valid hd
      rw [reference_word hat, capabilityDerivationRemoveSubtree_eq hforest hroot]
      dsimp only
      by_cases hall : (revokedRefs d.lineage (owner.holder.ref s)).all (revocable d) = true
      · right
        have hrefs : ∀ r ∈ revokedRefs d.lineage (owner.holder.ref s), revocable d r = true :=
          List.all_eq_true.mp hall
        refine ⟨owner, s, capability,
          { (revokedRefs d.lineage (owner.holder.ref s)).foldl clearReference d with
            lineage := lineageWithout d.lineage (revokedRefs d.lineage (owner.holder.ref s))
            lineageDirty := true }, rfl, rfl, hat, hactive, ?_, ?_⟩
        · have hlineage : ((d.lineage.filter fun record => record.child ∉
                derivationDescendants d.lineage (owner.holder.ref s)).eraseP
                fun record => record.child = owner.holder.ref s) =
              lineageWithout d.lineage (revokedRefs d.lineage (owner.holder.ref s)) := by
            have hsub : (d.lineage.filter fun record => record.child ∉
                derivationDescendants d.lineage (owner.holder.ref s)).Sublist d.lineage :=
              List.filter_sublist
            rw [eraseP_child _ (hforest.sublist hsub).children, List.filter_filter]
            refine List.filter_congr fun e _ => ?_
            simp [revokedRefs, not_or]
          rw [hlineage, if_neg (by rw [Bool.not_eq_true', Bool.not_eq_false]; exact hall)]
          rfl
        · exact ⟨fun r hr => (revocable_eq_true hd (hrefs r hr)).1, _,
            loop_effect _ hd hactive fun r hr => (revocable_eq_true hd (hrefs r hr)).2, rfl⟩
      · rw [if_pos (by rw [Bool.not_eq_true'] ; exact Bool.eq_false_iff.mpr hall)]
        exact Or.inl ⟨_, by decide, rfl⟩

section Revoked

variable {d d' : CapabilityDomain} {root : CapabilityRef}

section

variable (hd : Distinct (holders d.components)) (h : Revoked d d' root)

include hd h

/-- The slots the loop empties are those whose present reference is revoked. -/
theorem Revoked.namedSlots_eq {i : Fin 4} (hc : d.components i = some c) :
    namedSlots (revokedRefs d.lineage root) c.rootId =
      fun s => decide (c.holder.ref s ∈ revokedRefs d.lineage root) := by
  funext s
  unfold namedSlots
  rw [Bool.eq_iff_iff, List.any_eq_true, decide_eq_true_eq]
  constructor
  · rintro ⟨r, hr, hnamed⟩
    obtain ⟨hcomponent, hslot⟩ := of_decide_eq_true hnamed
    obtain ⟨capability, hcap⟩ := Option.isSome_iff_exists.mp (h.resolves r hr)
    obtain ⟨s', rfl, -⟩ := parent_eq_ref hd (holders_of_some hc)
      ((capabilityDomainResolve_eq_some hd).mp hcap).1 hcomponent
    cases word_injective hslot
    exact hr
  · intro hr
    exact ⟨_, hr, decide_eq_true ⟨rfl, rfl⟩⟩

theorem Revoked.component {i : Fin 4} (hc : d.components i = some c) :
    ∃ c', d'.components i = some c' ∧
      ClearedBy (fun s => decide (c.holder.ref s ∈ revokedRefs d.lineage root)) c c' := by
  obtain ⟨d₁, hloop, rfl⟩ := h.loop
  obtain ⟨c', hc', hcleared, -, -⟩ := hloop.component i c hc
  exact ⟨c', hc', h.namedSlots_eq hd hc ▸ hcleared⟩

/-- **The capabilities that go** are the revoked one and its descendants. -/
theorem Revoked.holders_eq : holders d'.components = (holders d.components).remove
      fun r => decide (r ∈ revokedRefs d.lineage root) := by
  funext i
  unfold holders Holders.remove
  cases hc : d.components i with
  | none =>
    obtain ⟨d₁, hloop, rfl⟩ := h.loop
    dsimp only
    rw [(hloop.empty i hc).1, hc]
    rfl
  | some c =>
    obtain ⟨c', hc', hcleared⟩ := h.component hd hc
    dsimp only
    rw [hc', hc, Option.map_some, Option.map_some, Option.map_some]
    exact congrArg some (congrArg₂ Holder.mk hcleared.rootId hcleared.table)

end

theorem Revoked.lineage_eq (h : Revoked d d' root) :
    d'.lineage = lineageWithout d.lineage (revokedRefs d.lineage root) := by
  obtain ⟨d₁, -, rfl⟩ := h.loop
  rfl

end Revoked

end Jani
