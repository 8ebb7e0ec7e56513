import Jani.Net.Equiv.ReplicaRun

/-!
# Agreement on authority

In every run of two replicas, the catalogs of both sides agree on each scope they share: its kind,
and which side owns it; the owner is never behind, and at the same epoch both have the same rights
(`authority_agrees`).  A state changes through an update only under the epoch and the rights that
the receiver has on disk.

The invariant `AuthorityInv` says that whatever a side has sent or recorded about a scope of its
peer precedes what the owner holds, in memory as well as in the store.  `CatalogStep` says what one
step of a node can do to its catalogs; the invariant follows from it alone.
-/

namespace Jani

variable {delivered packet : Option Packet} {n' : ReplicaNode} {r : Replica} {s : ReplicaScope}

section Node

variable (crypto : Crypto) (localKey peerKey : Block 32)

/-- What holds of every node by itself. -/
structure NodeInv (n : ReplicaNode) : Prop where
  identified : ∀ r, n.replica = some r → r.Identified crypto localKey peerKey
  catalog_ok : ∀ c, n.Has localKey peerKey c → CatalogOk c
  owner : ∀ c, n.Has localKey peerKey c → ∀ s ∈ c,
    namespaceFor crypto localKey ≠ namespaceFor crypto peerKey ∧
      s.id.high = if s.owned ≠ 0 then namespaceFor crypto localKey else namespaceFor crypto peerKey
  coherent : ∀ r, n.replica = some r → r.halted = false → n.store.requiresRecovery = false →
    catalogOf localKey peerKey n.store = r.catalog

/-- What a step of a node does to its catalogs: those it has afterwards it had before, or they are
a `CatalogChange` of the one in memory; and it announces only what it has everywhere. -/
structure CatalogStep (n n' : ReplicaNode) (delivered packet : Option Packet) : Prop where
  has : ∀ c, n'.Has localKey peerKey c → n.Has localKey peerKey c ∨
    ∃ r, n.replica = some r ∧ CatalogOk c ∧ CatalogChange r delivered c
  identified : ∀ r, n'.replica = some r → r.Identified crypto localKey peerKey
  coherent : ∀ r, n'.replica = some r → r.halted = false → n'.store.requiresRecovery = false →
    catalogOf localKey peerKey n'.store = r.catalog
  announces : ∀ p ∈ packet, p.1 = netMessageGrant → ∃ s, scopeValid s = true ∧ s.owned ≠ 0 ∧
    p.2 = messageHeader s netMessageGrant ∧ ∀ c, n'.Has localKey peerKey c → s ∈ c

variable {crypto localKey peerKey} {n : ReplicaNode}

theorem NodeInv.step (h : NodeInv crypto localKey peerKey n)
    (hstep : CatalogStep crypto localKey peerKey n n' delivered packet) :
    NodeInv crypto localKey peerKey n' := by
  refine ⟨hstep.identified, fun c hc => ?_, fun c hc s hs => ?_, hstep.coherent⟩
  · rcases hstep.has c hc with hc | ⟨r, hr, hok, hchange⟩
    · exact h.catalog_ok c hc
    · exact hok
  · rcases hstep.has c hc with hc | ⟨r, hr, hok, hchange⟩
    · exact h.owner c hc s hs
    · have hid := h.identified r hr
      have hne : namespaceFor crypto localKey ≠ namespaceFor crypto peerKey := by
        rw [← hid.localNamespace_eq, ← hid.peerNamespace_eq]
        exact hid.namespace_ne
      rcases hchange.origin s hs with hs | ⟨howned, hhigh⟩ | ⟨howned, hhigh, -⟩
      · exact h.owner r.catalog (ReplicaNode.has_replica hr) s hs
      · rw [if_pos howned, hhigh, hid.localNamespace_eq]
        exact ⟨hne, rfl⟩
      · rw [if_neg (not_not.mpr howned), hhigh, hid.peerNamespace_eq]
        exact ⟨hne, rfl⟩

variable {history : ObjectId → List ReplicaEvent} {m' : ObjectMap}

section

variable (h : NodeInv crypto localKey peerKey n)

include h

theorem CatalogStep.of_idle {r' : Replica} (hr : n.replica = some r) (hidle : Idle r n.store r' m')
    (hpacket : ∀ p ∈ packet, p.1 = netMessageGrant → ∃ s ∈ r.catalog, s.owned ≠ 0 ∧
      p.2 = messageHeader s netMessageGrant ∧ r.halted = false ∧
        n.store.requiresRecovery = false) :
    CatalogStep crypto localKey peerKey n ⟨m', some r', history⟩ delivered packet := by
  refine ⟨fun c hc => Or.inl (hidle.has hr hc), fun r1 hr1 => ?_,
    fun r1 hr1 hhalted hrecovery => ?_, fun p hp hgrant => ?_⟩
  · obtain rfl := Option.some.inj hr1
    exact (h.identified r hr).of_same hidle.identity
  · obtain rfl := Option.some.inj hr1
    obtain ⟨hhalted', hrecovery'⟩ := hidle.healthy hhalted hrecovery
    exact (catalogOf_congr (ObjectMap.find_congr hidle.entries _)).trans
      ((h.coherent r hr hhalted' hrecovery').trans hidle.catalog.symm)
  · obtain ⟨s, hs, howned, hbody, hhalted, hrecovery⟩ := hpacket p hp hgrant
    refine ⟨s, (h.catalog_ok _ (ReplicaNode.has_replica hr)).valid s hs, howned, hbody,
      fun c hc => ?_⟩
    rcases hidle.has hr hc with rfl | ⟨r1, hr1, rfl⟩
    · rw [h.coherent r hr hhalted hrecovery]
      exact hs
    · rw [hr] at hr1
      obtain rfl := Option.some.inj hr1
      exact hs

theorem CatalogStep.of_writes {r' : Replica} (hr : n.replica = some r)
    {catalog : Option ReplicaCatalog} {state : Option (ReplicaScope × NetCrdt)}
    (hwrites : Writes r n.store r' m' catalog state) (hmeta : ∀ x ∈ state, x.1.id ≠ replicaMetaId)
    (hchange : ∀ c ∈ catalog, CatalogChange r delivered c) :
    CatalogStep crypto localKey peerKey n ⟨m', some r', history⟩ delivered none := by
  have hid := h.identified r hr
  have hcoherent := h.coherent r hr hwrites.healthy.1 hwrites.healthy.2
  refine ⟨fun c hc => ?_, fun r1 hr1 => ?_, fun r1 hr1 hhalted hrecovery => ?_,
    fun p hp => by cases hp⟩
  · rcases hwrites.has hid hr hmeta hc with hc | hc
    · exact Or.inl hc
    · exact Or.inr ⟨r, hr, (hwrites.holds.catalog_ok c hc).1, hchange c hc⟩
  · obtain rfl := Option.some.inj hr1
    exact hid.of_same hwrites.identity
  · obtain rfl := Option.some.inj hr1
    rcases hwrites.outcome with ⟨hcatalog, -⟩ | ⟨-, -, hrecovery'⟩
    · rw [hcatalog, ← hcoherent]
      exact hwrites.catalogOf_eq hid hmeta
    · exact absurd (hrecovery'.symm.trans hrecovery) (by decide)

theorem CatalogStep.of_state {r' : Replica} (hr : n.replica = some r) {scope : ReplicaScope}
    {state : NetCrdt} (hscope : scope ∈ r.catalog)
    (hwrites : Writes r n.store r' m' none (some (scope, state))) :
    CatalogStep crypto localKey peerKey n ⟨m', some r', history⟩ delivered none := by
  refine CatalogStep.of_writes h hr hwrites (fun x hx => ?_) (fun c hc => by cases hc)
  obtain rfl := Option.some.inj hx
  exact (scopeValid.id_ne ((h.catalog_ok _ (ReplicaNode.has_replica hr)).valid scope hscope)).1

theorem CatalogStep.refl (delivered : Option Packet) :
    CatalogStep crypto localKey peerKey n n delivered none :=
  ⟨fun _ hc => Or.inl hc, h.identified, h.coherent, fun p hp => by cases hp⟩

/-- Opening a replica as a step of the catalogs. -/
theorem CatalogStep.of_open {opened : Option Replica}
    (hopens : Opens crypto localKey peerKey n.store opened m') :
    CatalogStep crypto localKey peerKey n
      { n with store := m', replica := opened.orElse fun _ => n.replica } delivered none := by
  refine ⟨fun c hc => Or.inl (hopens.has hc), fun r1 hr1 => ?_,
    fun r1 hr1 hhalted hrecovery => ?_, fun p hp => by cases hp⟩
  · cases hopens with
    | refused hentries hrec => exact h.identified r1 hr1
    | found r hid hhalted hm hstored howner =>
      obtain rfl := Option.some.inj hr1
      exact hid
    | created r hid hnone hholds hopened hrec =>
      cases opened with
      | none => exact h.identified r1 hr1
      | some r' =>
        obtain rfl := Option.some.inj hr1
        exact hid.of_same (hopened _ rfl).2.2.1
  · cases hopens with
    | refused hentries hrec =>
      exact (catalogOf_congr (ObjectMap.find_congr hentries _)).trans
        (h.coherent r1 hr1 hhalted (hrec hrecovery))
    | found r hid hhalted hm hstored howner =>
      obtain rfl := Option.some.inj hr1
      exact catalogOf_of_stored hstored
    | created r hid hnone hholds hopened hrec =>
      cases opened with
      | none => exact absurd ((hrec rfl).symm.trans hrecovery) (by decide)
      | some r' =>
        obtain rfl := Option.some.inj hr1
        obtain ⟨-, hstored, -⟩ := hholds.catalog_ok [] rfl
        rw [hid.localKey_eq, hid.peerKey_eq] at hstored
        exact (catalogOf_of_stored hstored).trans (hopened _ rfl).1.symm

end

theorem CatalogStep.of_crash : CatalogStep crypto localKey peerKey n
      { n with store := n.store.remount, replica := none } delivered none :=
  ⟨fun _ hc => Or.inl (ReplicaNode.has_crash hc), fun r hr => (by cases hr),
    fun r hr => (by cases hr), fun p hp => by cases hp⟩

variable (h : NodeInv crypto localKey peerKey n)

include h

theorem NodeInv.own_namespace (hr : n.replica = some r) (hs : s ∈ r.catalog)
    (howned : s.owned ≠ 0) : s.id.high = r.localNamespace := by
  have hhigh := (h.owner _ (ReplicaNode.has_replica hr) s hs).2
  rw [if_pos howned] at hhigh
  rw [hhigh, (h.identified r hr).localNamespace_eq]

theorem NodeInv.effect (action : NodeAction) :
    NodeEffect crypto localKey peerKey n action (nodeStep crypto localKey peerKey n action).1
      (nodeStep crypto localKey peerKey n action).2 :=
  nodeStep_effect (fun _ hr => h.catalog_ok _ (ReplicaNode.has_replica hr))
    (fun _ hr _ hs howned => h.own_namespace hr hs howned) action

/-- **Every step** of a node is a `CatalogStep`. -/
theorem NodeEffect.catalogStep {action : NodeAction}
    (heffect : NodeEffect crypto localKey peerKey n action n' packet) :
    CatalogStep crypto localKey peerKey n n' action.delivered packet := by
  have hsilent : ∀ {r : Replica}, ∀ p ∈ (none : Option Packet), p.1 = netMessageGrant →
      ∃ s ∈ r.catalog, s.owned ≠ 0 ∧ p.2 = messageHeader s netMessageGrant ∧ r.halted = false ∧
        n.store.requiresRecovery = false := fun p hp => by cases hp
  cases heffect with
  | closed => exact CatalogStep.refl h _
  | crashed => exact CatalogStep.of_crash
  | opened hopens => exact CatalogStep.of_open h hopens
  | idle hr hidle => exact CatalogStep.of_idle h hr hidle hsilent
  | rescoped scope epoch rights hr _ hwrites hchange =>
    refine CatalogStep.of_writes h hr hwrites (fun x hx => by cases hx) fun c hc => ?_
    obtain rfl := Option.some.inj hc
    exact hchange
  | added scope state hr hadds =>
    refine CatalogStep.of_writes h hr hadds.writes (fun x hx => ?_) fun c hc => ?_
    · obtain rfl := Option.some.inj hx
      exact (scopeValid.id_ne hadds.scope_valid).1
    · obtain rfl := Option.some.inj hc
      exact hadds.change
  | operated scope state state' operation readable fate hr _ hscope _ _ hwrites =>
    exact CatalogStep.of_state h hr hscope hwrites
  | merged scope message state remote merged delivered readable fate hr _ _ _ hscope _ _ _ _ _ _ _
      hcases =>
    rcases hcases with ⟨hidle, -⟩ | hwrites
    · exact CatalogStep.of_idle h hr hidle hsilent
    · exact CatalogStep.of_state h hr hscope hwrites
  | announced packet readable hr hhealthy hidle hannounces =>
    refine CatalogStep.of_idle h hr hidle fun p hp hgrant => ?_
    obtain rfl := Option.some.inj hp
    cases hannounces with
    | grant scope hmem howned => exact ⟨scope, hmem, howned, rfl, hhealthy⟩
    | summary scope state hmem hload hvalid =>
      exact absurd hgrant (by decide : ¬ netMessageSummary = netMessageGrant)
  | answered scope state readable hr hscope hload hvalid =>
    refine ⟨fun _ hc => Or.inl hc, h.identified, h.coherent, fun p hp hgrant => ?_⟩
    obtain rfl := Option.some.inj hp
    exact absurd hgrant (by decide : ¬ netMessageUpdate = netMessageGrant)

end Node

/-! ### Both sides -/

section World

variable (crypto : Crypto) (key : Side → Block 32)

/-- The catalogs that a side of the world has. -/
def ReplicaWorld.Has (w : ReplicaWorld) (side : Side) (c : ReplicaCatalog) : Prop :=
  (w.node side).Has (key side) (key side.other) c

/-- The owner has the scope in the catalog, at the same or a later epoch. -/
def Owns (c : ReplicaCatalog) (s : ReplicaScope) : Prop :=
  ∃ s' ∈ c, s'.id = s.id ∧ s'.owned ≠ 0 ∧ Precedes s s'

/-- Whatever a side has granted, and whatever it has recorded about a scope of its peer, precedes
what the owner has. -/
structure AuthorityInv (w : ReplicaWorld) : Prop where
  node : ∀ side, NodeInv crypto (key side) (key side.other) (w.node side)
  granted : ∀ side, ∀ p ∈ w.sent side, p.packet.1 = netMessageGrant → ∃ s, scopeValid s = true ∧
    p.packet.2 = messageHeader s netMessageGrant ∧ ∀ c, w.Has key side c → Owns c s
  recorded : ∀ side c, w.Has key side c → ∀ t ∈ c, t.owned = 0 →
    ∀ c', w.Has key side.other c' → Owns c' t

variable {crypto key} {w : ReplicaWorld}

variable {c : ReplicaCatalog} {n : ReplicaNode}

theorem Owns.advance (hchange : CatalogChange r delivered c) (h : Owns r.catalog s) : Owns c s := by
  obtain ⟨s', hs', hid, howned, hprecedes⟩ := h
  obtain ⟨s'', hs'', hid', howned', hprecedes'⟩ := hchange.advances s' hs'
  exact ⟨s'', hs'', hid'.trans hid, howned' ▸ howned, hprecedes.trans hprecedes'⟩

variable {localKey peerKey : Block 32}

theorem CatalogStep.owns (hstep : CatalogStep crypto localKey peerKey n n' delivered packet)
    (h : ∀ c, n.Has localKey peerKey c → Owns c s) (hc : n'.Has localKey peerKey c) : Owns c s := by
  rcases hstep.has c hc with hc | ⟨r, hr, -, hchange⟩
  · exact h c hc
  · exact (h _ (ReplicaNode.has_replica hr)).advance hchange

theorem GrantedBy.precedes {packet : Packet} {t : ReplicaScope} (h : GrantedBy packet t)
    (hs : scopeValid s = true) (hbody : packet.2 = messageHeader s netMessageGrant) :
    t.id = s.id ∧ Precedes t s := by
  obtain ⟨message, hdecode, hid, hepoch, hkind, hrights⟩ := h.message
  obtain ⟨message', hdecode', hid', hepoch', hkind', hrights', -⟩ :=
    @replicaMessageDecode_header s netMessageGrant [] hs rfl
  rw [List.append_nil, ← hbody, ← h.kind_eq, hdecode] at hdecode'
  obtain rfl := Option.some.inj hdecode'
  refine ⟨hid.trans hid', hkind.trans hkind', ?_, fun _ => ?_⟩
  · rw [hepoch, hepoch']
    exact UInt64.le_refl _
  · rw [hrights, hrights' rfl]

theorem Owns.of_precedes {t : ReplicaScope} (h : Owns c s) (hid : t.id = s.id)
    (hprecedes : Precedes t s) : Owns c t := by
  obtain ⟨s', hs', hid', howned, hprecedes'⟩ := h
  exact ⟨s', hs', hid'.trans hid.symm, howned, hprecedes.trans hprecedes'⟩

/-- **Step**: the invariant is kept by every step of either node. -/
theorem AuthorityInv.step (h : AuthorityInv crypto key w) {side : Side} {action : NodeAction}
    (hdelivers : w.Delivers side action) :
    AuthorityInv crypto key (w.step crypto key side action) := by
  have hstep := ((h.node side).effect action).catalogStep (h.node side)
  have hdelivered : ∀ p ∈ action.delivered, ∃ sp ∈ w.sent side.other, sp.packet = p := by
    intro p hp
    cases action with
    | receive delivered readable fate =>
      obtain rfl := Option.some.inj hp
      exact ⟨delivered, hdelivers, rfl⟩
    | _ => cases hp
  generalize hn : nodeStep crypto (key side) (key side.other) (w.node side) action = result at hstep
  obtain ⟨n', packet⟩ := result
  have hself : (w.step crypto key side action).node side = n' := by
    rw [ReplicaWorld.step_node_self, hn]
  have hother : ∀ other, other ≠ side → (w.step crypto key side action).node other = w.node other :=
    fun other hne => w.step_node_of_ne hne action
  have hsent : ∀ other, ∀ p ∈ (w.step crypto key side action).sent other, p ∈ w.sent other ∨
      (other = side ∧ p.packet ∈ packet) := by
    intro other p hp
    rcases ReplicaWorld.mem_step_sent hp with hold | ⟨hside, hpacket, -⟩
    · exact Or.inl hold
    · rw [hn] at hpacket
      exact Or.inr ⟨hside, hpacket⟩
  have hnode : ∀ other, NodeInv crypto (key other) (key other.other)
      ((w.step crypto key side action).node other) := by
    intro other
    by_cases hne : other = side
    · subst hne
      rw [hself]
      exact (h.node other).step hstep
    · rw [hother other hne]
      exact h.node other
  -- whatever all catalogs of a side own before the step, they own afterwards
  have howns : ∀ other s, (∀ c, w.Has key other c → Owns c s) →
      ∀ c, (w.step crypto key side action).Has key other c → Owns c s := by
    intro other s hbefore c hc
    unfold ReplicaWorld.Has at hc
    by_cases hne : other = side
    · subst hne
      rw [hself] at hc
      exact hstep.owns hbefore hc
    · rw [hother other hne] at hc
      exact hbefore c hc
  refine ⟨hnode, fun other p hp hgrant => ?_, fun other c hc t ht howned => ?_⟩
  · rcases hsent other p hp with hold | ⟨rfl, hnew⟩
    · obtain ⟨s, hvalid, hbody, hbefore⟩ := h.granted other p hold hgrant
      exact ⟨s, hvalid, hbody, howns other s hbefore⟩
    · obtain ⟨s, hvalid, howned, hbody, hall⟩ := hstep.announces p.packet hnew hgrant
      refine ⟨s, hvalid, hbody, fun c hc => ?_⟩
      unfold ReplicaWorld.Has at hc
      rw [hself] at hc
      exact ⟨s, hall c hc, rfl, howned, Precedes.refl s⟩
  · refine howns other.other t fun c' hc' => ?_
    by_cases hne : other = side
    · subst hne
      unfold ReplicaWorld.Has at hc
      rw [hself] at hc
      rcases hstep.has c hc with hc | ⟨r, hr, -, hchange⟩
      · exact h.recorded other c hc t ht howned c' hc'
      · rcases hchange.origin t ht with ht | ⟨howned', -⟩ | ⟨-, -, q, hq, hgranted⟩
        · exact h.recorded other r.catalog (ReplicaNode.has_replica hr) t ht howned c' hc'
        · exact absurd howned howned'
        · -- a scope that was granted: the grant is one that the peer has sent
          obtain ⟨sp, hsp, rfl⟩ := hdelivered q hq
          obtain ⟨s, hvalid, hbody, hbefore⟩ := h.granted other.other sp hsp hgranted.kind_eq
          obtain ⟨hid, hprecedes⟩ := hgranted.precedes hvalid hbody
          exact (hbefore c' hc').of_precedes hid hprecedes
    · unfold ReplicaWorld.Has at hc
      rw [hother other hne] at hc
      exact h.recorded other c hc t ht howned c' hc'

theorem AuthorityInv.start (h : w.Starts crypto key) : AuthorityInv crypto key w := by
  have hempty : ∀ side c, w.Has key side c → c = [] := by
    rintro side c (rfl | ⟨r, hr, -⟩)
    · unfold catalogOf storedCatalog
      rw [h.no_catalog side]
      rfl
    · rw [h.closed side] at hr
      cases hr
  refine ⟨fun side => ⟨fun r hr => ?_, fun c hc => ?_, fun c hc s hs => ?_, fun r hr => ?_⟩,
    fun side p hp => ?_, fun side c hc t ht => ?_⟩
  · rw [h.closed side] at hr
    cases hr
  · rw [hempty side c hc]
    exact ⟨Nat.zero_le _, fun s hs => absurd hs List.not_mem_nil, List.nodup_nil⟩
  · rw [hempty side c hc] at hs
    exact absurd hs List.not_mem_nil
  · rw [h.closed side] at hr
    cases hr
  · rw [h.silent side] at hp
    exact absurd hp List.not_mem_nil
  · rw [hempty side c hc] at ht
    exact absurd ht List.not_mem_nil

/-- **Run**: the invariant holds in every world that a run reaches. -/
theorem ReplicaRun.authorityInv {w' : ReplicaWorld} (h : w.Starts crypto key)
    (hrun : ReplicaRun crypto key w w') : AuthorityInv crypto key w' := by
  induction hrun with
  | refl => exact AuthorityInv.start h
  | step side action _ hdelivers ih => exact ih.step hdelivers

/-- Two sides agree on a scope. -/
structure ScopesAgree (s t : ReplicaScope) : Prop where
  kind_eq : s.kind = t.kind
  one_owner : s.owned ≠ 0 ↔ t.owned = 0
  owner_ahead : s.owned ≠ 0 → t.epoch ≤ s.epoch
  peer_behind : s.owned = 0 → s.epoch ≤ t.epoch
  rights_eq : s.epoch = t.epoch → s.rights = t.rights

theorem AuthorityInv.agree (h : AuthorityInv crypto key w) {side : Side} {c' : ReplicaCatalog}
    (hc : w.Has key side c) (hc' : w.Has key side.other c') {t : ReplicaScope} (hs : s ∈ c)
    (ht : t ∈ c') (hid : s.id = t.id) : ScopesAgree s t := by
  obtain ⟨hne, hshigh⟩ := (h.node side).owner c hc s hs
  obtain ⟨-, hthigh⟩ := (h.node side.other).owner c' hc' t ht
  rw [Side.other_other] at hthigh
  rw [hid, hthigh] at hshigh
  by_cases hsowned : s.owned = 0
  · -- the peer owns the scope
    have htowned : t.owned ≠ 0 := by
      intro heq
      rw [if_neg (not_not.mpr heq), if_neg (not_not.mpr hsowned)] at hshigh
      exact hne hshigh
    obtain ⟨t', ht', htid, -, hprecedes⟩ := h.recorded side c hc s hs hsowned c' hc'
    obtain rfl := ((h.node side.other).catalog_ok c' hc').unique ht' ht (htid.trans hid)
    exact ⟨hprecedes.kind_eq, iff_of_false (not_not.mpr hsowned) htowned,
      fun hne => absurd hsowned hne, fun _ => hprecedes.epoch_le, hprecedes.rights_eq⟩
  · have htowned : t.owned = 0 := by
      by_contra heq
      rw [if_pos heq, if_pos hsowned] at hshigh
      exact hne hshigh.symm
    have hc2 : w.Has key side.other.other c := by rwa [Side.other_other]
    obtain ⟨s', hs', hsid, -, hprecedes⟩ := h.recorded side.other c' hc' t ht htowned c hc2
    obtain rfl := ((h.node side).catalog_ok c hc).unique hs' hs (hsid.trans hid.symm)
    exact ⟨hprecedes.kind_eq.symm, iff_of_true hsowned htowned, fun _ => hprecedes.epoch_le,
      fun heq => absurd heq hsowned, fun heq => (hprecedes.rights_eq heq.symm).symm⟩

/-- The receiver has recorded the epoch of the message, and rights to receive. -/
def Authorized (c : ReplicaCatalog) (message : ReplicaMessage) : Prop :=
  ∃ scope ∈ c, scope.id = message.id ∧ scope.epoch = message.epoch ∧
    scope.rights &&& (if scope.owned ≠ 0 then replicaWrite else replicaRead) ≠ 0

/-- An update changes a stored object only with the authority that the receiver has on disk. -/
theorem NodeInv.update_authorized (h : NodeInv crypto localKey peerKey n) {delivered : SentPacket}
    {readable : ObjectId → Bool} {fate : CommitFate}
    (hupdate : delivered.packet.1 = netMessageUpdate) {id : ObjectId}
    (hchanged : (nodeStep crypto localKey peerKey n (.receive delivered readable fate)).1.store.find
      id ≠ n.store.find id) :
    ∃ message, replicaMessageDecode delivered.packet.2 delivered.packet.1 = some message ∧
      message.id = id ∧ Authorized (catalogOf localKey peerKey n.store) message := by
  have hnotGrant : delivered.packet.1 ≠ netMessageGrant := by
    rw [hupdate]
    decide
  unfold nodeStep at hchanged
  cases hr : n.replica with
  | none =>
    rw [hr] at hchanged
    exact absurd rfl hchanged
  | some r =>
    rw [hr] at hchanged
    dsimp only at hchanged
    rcases hcall : replicaReceive crypto r n.store (some delivered.packet) readable fate with
        ⟨result, r', m', reply⟩
    rw [hcall] at hchanged
    have hidle : Unmoved r n.store r' m' → False := fun hidle =>
      hchanged (ObjectMap.find_congr hidle.entries id)
    cases replicaReceive_effect (h.catalog_ok _ (ReplicaNode.has_replica hr)) hcall with
    | idle hidle' _ _ => exact (hidle hidle').elim
    | regrant scope message hgrant => exact absurd hgrant hnotGrant
    | add scope state hgrant => exact absurd hgrant hnotGrant
    | merge scope message state remote merged _ hdecode hscope hid hkind hepoch hreceive _ _ _ _ _
        _ _ hcases _ =>
      rcases hcases with ⟨hidle', -⟩ | hwrites
      · exact (hidle hidle').elim
      · have hstored : scope ∈ catalogOf localKey peerKey n.store := by
          rw [h.coherent r hr hwrites.healthy.1 hwrites.healthy.2]
          exact hscope
        have hvalid := (h.catalog_ok _ (ReplicaNode.has_replica hr)).valid scope hscope
        have heq : scope.id = id := by
          by_contra hne
          refine hchanged ?_
          by_cases hmeta : id = replicaMetaId
          · subst hmeta
            refine hwrites.holds.catalog_kept rfl fun x hx => ?_
            obtain rfl := Option.some.inj hx
            exact (scopeValid.id_ne hvalid).1
          · refine hwrites.holds.kept id hmeta fun x hx => ?_
            obtain rfl := Option.some.inj hx
            exact hne
        exact ⟨message, hdecode, hid.symm.trans heq, scope, hstored, hid, hepoch,
          of_decide_eq_true hreceive⟩
    | answer scope message state hsummary =>
      rw [hupdate] at hsummary
      exact absurd hsummary (by decide)

/-- An update of an epoch that the receiver has recorded as past changes nothing. -/
theorem NodeInv.revoked_update (h : NodeInv crypto localKey peerKey n) {delivered : SentPacket}
    {message : ReplicaMessage} (readable : ObjectId → Bool) (fate : CommitFate)
    (hupdate : delivered.packet.1 = netMessageUpdate)
    (hdecode : replicaMessageDecode delivered.packet.2 delivered.packet.1 = some message)
    {scope : ReplicaScope} (hscope : scope ∈ catalogOf localKey peerKey n.store)
    (hid : scope.id = message.id) (hepoch : message.epoch < scope.epoch) (id : ObjectId) :
    (nodeStep crypto localKey peerKey n (.receive delivered readable fate)).1.store.find id =
      n.store.find id := by
  by_contra hchanged
  obtain ⟨message', hdecode', -, scope', hscope', hid', hepoch', -⟩ :=
    h.update_authorized hupdate hchanged
  obtain rfl := Option.some.inj (hdecode.symm.trans hdecode')
  obtain rfl := (h.catalog_ok _ (Or.inl rfl)).unique hscope hscope' (hid.trans hid'.symm)
  rw [hepoch'] at hepoch
  exact absurd hepoch (UInt64.lt_irrefl _)

/-- **Agreement on authority**: in every run of two replicas, the catalogs that the sides hold, on
disk or in memory, agree on the scopes they share; and an update changes an object only if the
receiver has recorded its epoch, with rights to receive.  So an update prepared under a grant that
the receiver has recorded as revoked changes nothing. -/
theorem authority_agrees {w' : ReplicaWorld} (hstart : w.Starts crypto key)
    (hrun : ReplicaRun crypto key w w') :
    (∀ side c c', w'.Has key side c → w'.Has key side.other c' → ∀ s ∈ c, ∀ t ∈ c', s.id = t.id →
      ScopesAgree s t) ∧
    (∀ side delivered readable fate, delivered.packet.1 = netMessageUpdate → ∀ id,
      ((w'.step crypto key side (.receive delivered readable fate)).node side).store.find id ≠
          (w'.node side).store.find id →
        ∃ message, replicaMessageDecode delivered.packet.2 delivered.packet.1 = some message ∧
          message.id = id ∧
          Authorized (catalogOf (key side) (key side.other) (w'.node side).store) message) ∧
    (∀ side delivered readable fate message, delivered.packet.1 = netMessageUpdate →
      replicaMessageDecode delivered.packet.2 delivered.packet.1 = some message →
      ∀ scope ∈ catalogOf (key side) (key side.other) (w'.node side).store,
        scope.id = message.id → message.epoch < scope.epoch → ∀ id,
        ((w'.step crypto key side (.receive delivered readable fate)).node side).store.find id =
          (w'.node side).store.find id) := by
  have hinv := hrun.authorityInv hstart
  refine ⟨fun side c c' hc hc' s hs t ht hid => hinv.agree hc hc' hs ht hid,
    fun side delivered readable fate hupdate id hchanged => ?_,
    fun side delivered readable fate message hupdate hdecode scope hscope hid hepoch id => ?_⟩
  · rw [ReplicaWorld.step_node_self] at hchanged
    exact (hinv.node side).update_authorized hupdate hchanged
  · rw [ReplicaWorld.step_node_self]
    exact (hinv.node side).revoked_update readable fate hupdate hdecode hscope hid hepoch id

end World

/-! ### A run -/

/-- A hash that tells keys apart. -/
def mirrorCrypto : Crypto :=
  { plainCrypto with
    blake2b := fun size message => (message.reverse ++ List.replicate size 0).take size
    length_blake2b := fun size message => by
      rw [List.length_take, List.length_append, List.length_replicate]
      omega }

def pairKey : Side → Block 32
  | .left => ⟨List.replicate 32 1, rfl⟩
  | .right => ⟨List.replicate 32 2, rfl⟩

def replicaPair : ReplicaWorld where
  node _ := ⟨ObjectMap.empty, none, fun _ => []⟩
  sent _ := []

theorem replicaPair_starts : replicaPair.Starts mirrorCrypto pairKey :=
  ⟨fun _ => rfl, fun _ => rfl, fun _ => rfl, fun _ => rfl, fun _ _ _ => rfl⟩

/-- The left node shares a register. -/
def sharedId : ObjectId := ⟨keyNamespace mirrorCrypto pairKey .left, 1⟩

/-- Both nodes open; the left one creates a register, shares it and announces it. -/
def replicaAnnounced : ReplicaWorld :=
  ((((replicaPair.step mirrorCrypto pairKey .left (.openReplica (fun _ => true) .commit)).step
    mirrorCrypto pairKey .right (.openReplica (fun _ => true) .commit)).step
    mirrorCrypto pairKey .left (.create 1 netCrdtLww .commit)).step
    mirrorCrypto pairKey .left (.share sharedId 3 .commit)).step
    mirrorCrypto pairKey .left (.nextPacket (fun _ => true) true true)

/-- The right node receives the grant. -/
def replicaShared : ReplicaWorld :=
  match replicaAnnounced.sent .left with
  | [grant] => replicaAnnounced.step mirrorCrypto pairKey .right
      (.receive grant (fun _ => true) .commit)
  | _ => replicaAnnounced

theorem replicaAnnounced_run : ReplicaRun mirrorCrypto pairKey replicaPair replicaAnnounced := by
  have h1 := ReplicaRun.step .left (.openReplica (fun _ => true) .commit)
    (.refl : ReplicaRun mirrorCrypto pairKey replicaPair replicaPair) trivial
  have h2 := ReplicaRun.step .right (.openReplica (fun _ => true) .commit) h1 trivial
  have h3 := ReplicaRun.step .left (.create 1 netCrdtLww .commit) h2 trivial
  have h4 := ReplicaRun.step .left (.share sharedId 3 .commit) h3 trivial
  exact ReplicaRun.step .left (.nextPacket (fun _ => true) true true) h4 trivial

theorem replicaShared_run : ReplicaRun mirrorCrypto pairKey replicaPair replicaShared := by
  unfold replicaShared
  split
  · rename_i grant hsent
    refine ReplicaRun.step .right (.receive grant (fun _ => true) .commit) replicaAnnounced_run ?_
    change grant ∈ replicaAnnounced.sent .left
    rw [hsent]
    exact List.mem_cons_self
  · exact replicaAnnounced_run

/-- The scope that both sides have at the end of the run. -/
def sharedScope (owned : UInt32) : ReplicaScope := ⟨sharedId, 2, netCrdtLww, 3, owned, 0⟩

set_option maxRecDepth 100000 in
theorem authority_agrees_shared :
    sharedScope 1 ∈ catalogOf (pairKey .left) (pairKey .right) (replicaShared.node .left).store ∧
    sharedScope 0 ∈ catalogOf (pairKey .right) (pairKey .left) (replicaShared.node .right).store ∧
    ScopesAgree (sharedScope 1) (sharedScope 0) := by
  have hleft : sharedScope 1 ∈
      catalogOf (pairKey .left) (pairKey .right) (replicaShared.node .left).store := by
    decide +kernel
  have hright : sharedScope 0 ∈
      catalogOf (pairKey .right) (pairKey .left) (replicaShared.node .right).store := by
    decide +kernel
  exact ⟨hleft, hright, (authority_agrees replicaPair_starts replicaShared_run).1 .left _ _
    (Or.inl rfl) (Or.inl rfl) _ hleft _ hright rfl⟩

end Jani
