import Jani.Cap.Equiv.Revoke

/-!
# What the operations of a domain do

`capability_domain_derive` and `capability_domain_send` fail and leave the domain as it was, or they
fill one slot of one component and record one derivation (`capabilityDomainDerive_cases`,
`capabilityDomainSend_cases`).  The new capability is covered by the one it is derived from
(`Derives`), and its parent link is set exactly when both are in the same component.
-/

namespace Jani

open CapabilityTable

/-- The slot `s` of `receiver` was filled in `table` with a capability derived from the slot `p` of
`sender`, and the derivation was added to the lineage. -/
structure Derives (lineage lineage' : CapabilityDerivationTable) (sender receiver : Component)
    (p s : Slot) (parent child : Capability) (link : UInt32) (table : CapabilityTable) : Prop where
  live : sender.capabilityTable.at? p = some parent
  valid : capabilityIsValid child = true
  covers : capabilityCovers parent child = true
  fills : Fills receiver.capabilityTable table s child link
  lineage_eq : lineage' =
    lineage ++ [⟨sender.holder.ref p, (⟨receiver.rootId, table⟩ : Holder).ref s⟩]
  forest : LineageOk lineage'
  fresh : ∀ record ∈ lineage, record.child ≠ (⟨receiver.rootId, table⟩ : Holder).ref s

/-- The component with a filled slot. -/
def Component.withTable (c : Component) (table : CapabilityTable) (s : Slot) : Component :=
  { c with
    capabilityTable := table
    capabilityCount := raiseCount c.capabilityCount s }

/-! ### Deriving -/

/-- **Inversion** of `capability_domain_derive`. -/
theorem capabilityDomainDerive_cases (d : CapabilityDomain) (i : Fin 4)
    (slot rights badge : UInt32) :
    (∃ code, code < 0 ∧ capabilityDomainDerive d i slot rights badge = (code, d)) ∨
      ∃ owner p s parent child table lineage,
        d.components i = some owner ∧ d.active = true ∧ slot = Slot.word p ∧
        capabilityDerive parent rights badge = some child ∧
        Derives d.lineage lineage owner owner p s parent child (Slot.word p) table ∧
        capabilityDomainDerive d i slot rights badge = (s.word.toInt32,
          { d.setComponent i (owner.withTable table s) with
            lineage := lineage
            lineageDirty := true
            tablesDirty := Function.update d.tablesDirty i true }) := by
  generalize hcall : capabilityDomainDerive d i slot rights badge = result
  unfold capabilityDomainDerive at hcall
  split at hcall
  · exact Or.inl ⟨_, by decide, hcall.symm⟩
  rename_i owner hi
  by_cases hactive : d.active = true
  swap
  · rw [if_pos (by simp [hactive])] at hcall
    exact Or.inl ⟨_, by decide, hcall.symm⟩
  rw [if_neg (by simp [hactive])] at hcall
  split at hcall
  · exact Or.inl ⟨_, by decide, hcall.symm⟩
  rename_i s table hderive
  obtain ⟨p, parent, child, rfl, hat, hchild, hfills⟩ := capabilityTableDerive_eq_some hderive
  obtain ⟨-, hvalid, hcovers⟩ := capabilityDerive_eq_some hchild
  dsimp only at hcall
  split at hcall
  · exact Or.inl ⟨_, by decide, hcall.symm⟩
  rename_i lineage hadd
  obtain ⟨hlineage, hforest, hfresh⟩ := capabilityDerivationAdd_eq_some hadd
  rw [reference_word hat] at hlineage
  exact Or.inr ⟨owner, p, s, parent, child, table, lineage, hi, hactive, rfl, hchild,
    ⟨hat, hvalid, hcovers, hfills, hlineage, hforest, hfresh⟩, hcall.symm⟩

/-! ### Sending -/

variable {d : CapabilityDomain}

/-- An attached capability is derived from the sender's slot. -/
theorem attachCapability_eq_ok {readable : ObjectId → Bool} {sender receiver : Component}
    {same : Bool} {source rights badge : UInt32} {attachment : Attachment}
    (h : attachCapability d readable sender receiver same source rights badge = .ok attachment) :
    ∃ p parent child, source = Slot.word p ∧ capabilityDerive parent rights badge = some child ∧
      Derives d.lineage attachment.graph sender receiver p attachment.slot parent child
        (if same then source else capSlotNone) attachment.table := by
  unfold attachCapability at h
  split at h
  · cases h
  rename_i parent hget
  split at h
  · cases h
  rename_i child hderive
  split at h
  · cases h
  split at h
  · cases h
  rename_i s staged hinsert
  obtain ⟨p, rfl, hat⟩ := capabilityTableGet_eq_some hget
  obtain ⟨-, hvalid, hcovers⟩ := capabilityDerive_eq_some hderive
  obtain ⟨-, hfills⟩ := capabilityTableInsertRoot_eq_some hinsert
  dsimp only at h
  set table := if same = true then
    { staged with parents := Function.update staged.parents s p.word } else staged with htable
  split at h
  · cases h
  rename_i graph hadd
  cases h
  obtain ⟨hlineage, hforest, hfresh⟩ := capabilityDerivationAdd_eq_some hadd
  rw [reference_word hat] at hlineage
  refine ⟨p, parent, child, rfl, hderive, hat, hvalid, hcovers, ?_, hlineage, hforest, hfresh⟩
  dsimp only
  rw [htable]
  cases same with
  | false => exact hfills
  | true =>
    refine ⟨hfills.empty, hfills.room, hfills.slots, ?_, hfills.generations⟩
    rw [if_pos rfl, if_pos rfl]
    dsimp only
    rw [hfills.parents, Function.update_idem]

theorem attachCapability_error {readable : ObjectId → Bool} {sender receiver : Component}
    {same : Bool} {source rights badge : UInt32} {code : Int32}
    (h : attachCapability d readable sender receiver same source rights badge = .error code) :
    code < 0 := by
  unfold attachCapability at h
  split at h
  · cases h
    decide
  split at h
  · cases h
    decide
  split at h
  · cases h
    decide
  split at h
  · cases h
    decide
  dsimp only at h
  split at h
  · cases h
    decide
  · cases h

/-- **Inversion** of `capability_domain_send`: it fails and changes nothing, it puts a message into
the mailbox of the receiver, or it also fills a slot of the receiver. -/
theorem capabilityDomainSend_cases (d : CapabilityDomain) (readable : ObjectId → Bool) (i : Fin 4)
    (target : UInt32) (payload : List UInt8) (source : Int32) (rights badge : UInt32) :
    (∃ code, code < 0 ∧
        capabilityDomainSend d readable i target payload source rights badge = (code, d)) ∨
      (∃ r receiver mailbox, d.components r = some receiver ∧ d.active = true ∧
        componentMailboxPush receiver.mailbox payload capSlotNone = some mailbox ∧
        capabilityDomainSend d readable i target payload source rights badge =
          (0, capabilityDomainStateChanged
            (d.setComponent r { receiver with mailbox := mailbox }) r)) ∨
      ∃ r sender receiver p s parent child table lineage mailbox,
        d.components i = some sender ∧ d.components r = some receiver ∧ d.active = true ∧
        capabilityDerive parent rights badge = some child ∧
        Derives d.lineage lineage sender receiver p s parent child
          (if i = r then Slot.word p else capSlotNone) table ∧
        componentMailboxPush receiver.mailbox payload s.word = some mailbox ∧
        capabilityDomainSend d readable i target payload source rights badge =
          (0, capabilityDomainStateChanged
            { d.setComponent r { receiver.withTable table s with mailbox := mailbox } with
              tablesDirty := Function.update d.tablesDirty r true
              lineage := lineage
              lineageDirty := true } r) := by
  generalize hcall : capabilityDomainSend d readable i target payload source rights badge = result
  unfold capabilityDomainSend at hcall
  split at hcall
  · exact Or.inl ⟨_, by decide, hcall.symm⟩
  rename_i sender hi
  split at hcall
  · exact Or.inl ⟨_, by decide, hcall.symm⟩
  rename_i hbad
  have hactive : d.active = true := by
    rw [not_or, Bool.not_eq_true, Bool.not_eq_false'] at hbad
    exact hbad.1
  split at hcall
  · exact Or.inl ⟨_, by decide, hcall.symm⟩
  split at hcall
  · exact Or.inl ⟨_, by decide, hcall.symm⟩
  split at hcall
  · exact Or.inl ⟨_, by decide, hcall.symm⟩
  rename_i r hfind
  split at hcall
  · exact Or.inl ⟨_, by decide, hcall.symm⟩
  rename_i receiver hr
  by_cases hexited : receiver.exited = true
  · rw [if_pos hexited] at hcall
    exact Or.inl ⟨_, by decide, hcall.symm⟩
  rw [if_neg hexited] at hcall
  by_cases hplain : source = -1
  · rw [if_pos hplain] at hcall
    split_ifs at hcall
    · exact Or.inl ⟨_, by decide, hcall.symm⟩
    split at hcall
    · exact Or.inl ⟨_, by decide, hcall.symm⟩
    rename_i mailbox hpush
    exact Or.inr (Or.inl ⟨r, receiver, mailbox, hr, hactive, hpush, hcall.symm⟩)
  rw [if_neg hplain] at hcall
  split at hcall
  · rename_i code hattach
    exact Or.inl ⟨code, attachCapability_error hattach, hcall.symm⟩
  rename_i attachment hattach
  split at hcall
  · exact Or.inl ⟨_, by decide, hcall.symm⟩
  rename_i mailbox hpush
  obtain ⟨p, parent, child, hsource, hderive, hderives⟩ := attachCapability_eq_ok hattach
  rw [hsource] at hderives
  simp only [decide_eq_true_eq] at hderives
  exact Or.inr (Or.inr ⟨r, sender, receiver, p, attachment.slot, parent, child,
    attachment.table, attachment.graph, mailbox, hi, hr, hactive, hderive, hderives, hpush,
    hcall.symm⟩)

/-! ### Committing -/

/-- What the store answers to a commit. -/
def commitOutcome (d : CapabilityDomain) (fate : CommitFate) : ObjectStoreBatchResult × ObjectMap :=
  if !graphMatches d then (.rejected, d.store)
  else match stagedRequests d with
    | none => (.rejected, d.store)
    | some requests =>
      if requests.length > objectStorePutBatchMax then (.rejected, d.store)
      else if requests.length = 0 then (.committed, d.store)
      else d.store.putMany requests fate

/-- **Inversion** of `capability_domain_commit` in an open transaction: the transaction is closed
with what it changed, or as if it had been aborted. -/
theorem capabilityDomainCommit_cases (hactive : d.active = true) (fate : CommitFate) :
    ((commitOutcome d fate).1 = .committed ∧ capabilityDomainCommit d fate = (.committed,
        { d with
          store := (commitOutcome d fate).2
          components := fun i => (d.components i).map fun c => { c with capabilitiesDirty := false }
          writes := []
          active := false })) ∨
      ((commitOutcome d fate).1 ≠ .committed ∧
        capabilityDomainCommit d fate = ((commitOutcome d fate).1,
          { capabilityDomainAbort { d with store := (commitOutcome d fate).2 } with
            halted := d.halted || (commitOutcome d fate).1 = .recoveryRequired })) := by
  have heq : capabilityDomainCommit d fate =
      if (commitOutcome d fate).1 = .committed then
        ((commitOutcome d fate).1, { d with
          store := (commitOutcome d fate).2
          components := fun i => (d.components i).map fun c => { c with capabilitiesDirty := false }
          writes := []
          active := false })
      else ((commitOutcome d fate).1,
        { capabilityDomainAbort { d with store := (commitOutcome d fate).2 } with
          halted := (capabilityDomainAbort { d with store := (commitOutcome d fate).2 }).halted ||
            (commitOutcome d fate).1 = .recoveryRequired }) := by
    unfold capabilityDomainCommit
    rw [if_neg (by rw [hactive]; decide)]
    rfl
  have hhalted : (capabilityDomainAbort { d with store := (commitOutcome d fate).2 }).halted =
      d.halted := by
    unfold capabilityDomainAbort
    split_ifs <;> rfl
  rw [hhalted] at heq
  split at heq
  · rename_i hcommitted
    rw [hcommitted] at heq
    exact Or.inl ⟨hcommitted, heq⟩
  · rename_i hcommitted
    exact Or.inr ⟨hcommitted, heq⟩

end Jani
