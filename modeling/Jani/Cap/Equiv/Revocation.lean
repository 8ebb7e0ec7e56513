import Jani.Cap.Equiv.Captable

/-!
# Revocation over whole runs

`RevokesExactly` is what a component relies on when it revokes a capability: the capability and
everything derived from it, in whichever component, resolve no more, every other capability resolves
as before, and no message in a mailbox still carries a revoked one.  `revocation_exact` shows this
for every domain that is opened and run.
-/

namespace Jani

open CapabilityTable

theorem names_remove {h : Holders} {gone : CapabilityRef → Bool} {ref : CapabilityRef}
    {c : Capability} : Names (h.remove gone) ref c ↔ Names h ref c ∧ gone ref = false := by
  constructor
  · rintro ⟨i, x, s, hi, hat, rfl⟩
    obtain ⟨y, hy, rfl⟩ := Option.map_eq_some_iff.mp hi
    rw [clear_at?] at hat
    split_ifs at hat with hgone
    exact ⟨⟨i, y, s, hy, hat, rfl⟩, Bool.eq_false_iff.mpr hgone⟩
  · rintro ⟨⟨i, x, s, hi, hat, rfl⟩, hgone⟩
    refine ⟨i, _, s, congrArg (Option.map _) hi, ?_, rfl⟩
    rw [clear_at?, if_neg (Bool.eq_false_iff.mp hgone)]
    exact hat

theorem MailFrame.slotIndex_detachAll {gone : Slot → Bool} {f : MailFrame} {s : Slot}
    (h : slotIndex (f.detachAll gone).slot = some s) : gone s = false := by
  unfold detachAll at h
  cases hf : slotIndex f.slot with
  | none =>
    rw [hf] at h
    cases hf.symm.trans h
  | some t =>
    rw [hf] at h
    dsimp only at h
    split_ifs at h with hgone
    · cases slotIndex_none.symm.trans h
    · rw [← Option.some.inj (hf.symm.trans h)]
      exact Bool.eq_false_iff.mpr hgone

/-- From `d` to `d'` the capability `root` was revoked, with all that descends from it and nothing
else. -/
structure RevokesExactly (d d' : CapabilityDomain) (root : CapabilityRef) : Prop where
  gone : ∀ r, r = root ∨ Descends d.lineage root r → capabilityDomainResolve d' r = none
  kept : ∀ r, ¬ (r = root ∨ Descends d.lineage root r) →
    capabilityDomainResolve d' r = capabilityDomainResolve d r
  frames : ∀ j c, d'.components j = some c → ∀ f ∈ mailFrames c.mailbox, ∀ s,
    slotIndex f.slot = some s → ¬ (c.holder.ref s = root ∨ Descends d.lineage root (c.holder.ref s))

/-- Revocation removes the descendants of the root and nothing else. -/
theorem Revoked.exactly {d d' : CapabilityDomain} {root : CapabilityRef}
    (hd : Distinct (holders d.components)) (h : Revoked d d' root) : RevokesExactly d d' root := by
  obtain ⟨d₁, hloop, hd₁⟩ := h.loop
  have hstore : d'.store = d.store := by
    rw [hd₁, hloop.rest]
  have hd' : Distinct (holders d'.components) := h.holders_eq hd ▸ hd.remove _
  have hresolve : ∀ r capability, capabilityDomainResolve d' r = some capability ↔
      capabilityDomainResolve d r = some capability ∧ r ∉ revokedRefs d.lineage root := by
    intro r capability
    rw [capabilityDomainResolve_eq_some hd', capabilityDomainResolve_eq_some hd, h.holders_eq hd,
      names_remove, hstore, decide_eq_false_iff_not, and_right_comm]
  refine ⟨fun r hr => ?_, fun r hr => Option.ext fun capability => ?_, fun j c' hj f hf s hs => ?_⟩
  · refine Option.eq_none_iff_forall_ne_some.mpr fun capability hc => ?_
    exact ((hresolve r capability).mp hc).2 (mem_revokedRefs.mpr hr)
  · rw [← mem_revokedRefs] at hr
    exact (hresolve r capability).trans (and_iff_left hr)
  · cases hc : d.components j with
    | none =>
      rw [hd₁] at hj
      cases (hloop.empty j hc).1.symm.trans hj
    | some c =>
      obtain ⟨c₁, hc₁, hcleared⟩ := h.component hd hc
      obtain rfl := Option.some.inj (hc₁.symm.trans hj)
      rw [hcleared.mailbox] at hf
      obtain ⟨f₀, -, rfl⟩ := List.mem_map.mp hf
      -- what a frame still carries after the loop was not to go
      have hgone := of_decide_eq_false (MailFrame.slotIndex_detachAll hs)
      have href : c₁.holder.ref s = c.holder.ref s := by
        unfold Component.holder Holder.ref
        rw [hcleared.rootId, hcleared.table]
        rfl
      rw [href]
      exact fun hroot => hgone (mem_revokedRefs.mpr hroot)

/-- **Revocation is complete and exact**: in every domain that was opened on components with tables
of their own and then ran, as long as parent links are made by the domain. -/
theorem revocation_exact {starts : List (Component × List ComponentCall)}
    {store store' : ObjectMap} {readable : ObjectId → Bool} {fate : CommitFate}
    {d : CapabilityDomain} {calls : List DomainCall}
    (hopen : capabilityDomainOpen store (componentSetOf (starts.map fun start =>
      componentRun start.1.withoutCapabilities start.2)) readable fate = (some d, store'))
    (hcalls : ∀ call ∈ calls, call.RecordsLinks) {i : Fin 4} {slot : UInt32}
    (hrevoke : (capabilityDomainRevoke (domainRun d calls) i slot).1 = 0) :
    ∃ owner s, (domainRun d calls).components i = some owner ∧ slot = Slot.word s ∧
      RevokesExactly (domainRun d calls) (capabilityDomainRevoke (domainRun d calls) i slot).2
        (owner.holder.ref s) := by
  obtain ⟨hd, hcounts⟩ := @componentSetOf_ok (starts.map fun start =>
    componentRun start.1.withoutCapabilities start.2)
    (List.forall_mem_map.mpr fun start _ => componentRun_count start.1 start.2)
  have htables := ((capabilityDomainOpen_tables hopen hd hcounts).run hcalls).now
  rcases capabilityDomainRevoke_cases htables.distinct htables.forest i slot with
    ⟨code, hcode, heq⟩ | ⟨owner, s, capability, d', hi, hslot, -, -, heq, hrevoked⟩
  · rw [heq] at hrevoke
    exact absurd hrevoke hcode
  · rw [heq]
    exact ⟨owner, s, hi, hslot, hrevoked.exactly htables.distinct⟩

theorem sharedDomain_spec : (capabilityDomainRevoke sharedDomain 0 0).1 = 0 ∧
    (sharedDomain.components 0).map (fun c => c.holder.ref 0) = some ⟨⟨2, 1⟩, 0, 1⟩ ∧
    sharedDomain.lineage = [⟨⟨⟨2, 1⟩, 0, 1⟩, ⟨⟨2, 1⟩, 2, 1⟩⟩, ⟨⟨⟨2, 1⟩, 2, 1⟩, ⟨⟨3, 1⟩, 1, 1⟩⟩] ∧
    (capabilityDomainResolve sharedDomain ⟨⟨3, 1⟩, 1, 1⟩).isSome = true ∧
    (capabilityDomainResolve (capabilityDomainRevoke sharedDomain 0 0).2
      ⟨⟨3, 1⟩, 0, 1⟩).isSome = true ∧
    (sharedDomain.components 1).map (fun c => (mailFrames c.mailbox).map (·.slot)) = some [1] := by
  decide +kernel

/-- The revocation of the first capability reaches the one in the table of the receiver, which its
message carries, and leaves the receiver's own one alone. -/
theorem revocation_exact_shared : ∃ d', capabilityDomainRevoke sharedDomain 0 0 = (0, d') ∧
    RevokesExactly sharedDomain d' ⟨⟨2, 1⟩, 0, 1⟩ ∧
    Descends sharedDomain.lineage ⟨⟨2, 1⟩, 0, 1⟩ ⟨⟨3, 1⟩, 1, 1⟩ ∧
    (capabilityDomainResolve sharedDomain ⟨⟨3, 1⟩, 1, 1⟩).isSome = true ∧
    capabilityDomainResolve d' ⟨⟨3, 1⟩, 1, 1⟩ = none ∧
    (capabilityDomainResolve d' ⟨⟨3, 1⟩, 0, 1⟩).isSome = true ∧
    (sharedDomain.components 1).map (fun c => (mailFrames c.mailbox).map (·.slot)) = some [1] := by
  obtain ⟨hcode, href, hlineage, hbefore, hkept, hmail⟩ := sharedDomain_spec
  obtain ⟨owner, s, howner, hslot, hexact⟩ :=
    revocation_exact openedDomain_eq sharingCalls_recordLinks hcode
  obtain rfl : s = 0 := word_injective hslot.symm
  change sharedDomain.components 0 = some owner at howner
  rw [howner] at href
  have hroot : owner.holder.ref 0 = ⟨⟨2, 1⟩, 0, 1⟩ := Option.some.inj href
  rw [hroot] at hexact
  have hdescends : Descends sharedDomain.lineage ⟨⟨2, 1⟩, 0, 1⟩ ⟨⟨3, 1⟩, 1, 1⟩ := by
    rw [hlineage]
    exact .tail (.single List.mem_cons_self) (List.mem_cons_of_mem _ List.mem_cons_self)
  exact ⟨_, Prod.ext hcode rfl, hexact, hdescends, hbefore, hexact.gone _ (Or.inr hdescends), hkept,
    hmail⟩

end Jani
