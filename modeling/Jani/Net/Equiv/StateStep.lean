import Jani.Net.Equiv.Authority

/-!
# What a step of a node does to its states

Each scope that a node has recorded has its state in the store, and the store holds no other states
(`StateInv`).  A step leaves a state alone, adds the empty one, applies a local operation or merges
an update (`StateStep`), and what it sends is made of the state in the store (`SendsState`).
-/

namespace Jani

section Node

variable (crypto : Crypto) (localKey peerKey : Block 32)

/-- The catalogs and the states of a node belong together. -/
structure StateInv (n : ReplicaNode) : Prop where
  stored : ∀ c, n.Has localKey peerKey c → ∀ scope ∈ c, ∃ s, StoredAs n.store scope s
  catalogued : ∀ id, id.high = namespaceFor crypto localKey ∨
    id.high = namespaceFor crypto peerKey →
    n.store.find id ≠ none → ∃ scope ∈ catalogOf localKey peerKey n.store, scope.id = id

/-- What a step of a node does to the state of a value. -/
inductive StateStep (n : ReplicaNode) (action : NodeAction) (n' : ReplicaNode) (id : ObjectId) :
    Prop
  | same : n'.store.find id = n.store.find id → n'.history id = n.history id →
      StateStep n action n' id
  | added (scope : ReplicaScope) (state : NetCrdt) : n.store.find id = none → scope.id = id →
      scope ∈ catalogOf localKey peerKey n'.store → netCrdtInit scope.kind = some state →
      stateAt n'.store id = some state → n'.history id = n.history id →
      StateStep n action n' id
  | operated {r : Replica} {readable : ObjectId → Bool} {fate : CommitFate}
      (operation : ReplicaOperation) (state state' : NetCrdt) : n.replica = some r →
      action = .mutate id operation readable fate → stateAt n.store id = some state →
      operation.apply state r.localNode = some state' → stateAt n'.store id = some state' →
      n'.history id = operation.event state r.localNode :: n.history id →
      StateStep n action n' id
  | merged {readable : ObjectId → Bool} {fate : CommitFate} (delivered : SentPacket)
      (state remote merged : NetCrdt) : action = .receive delivered readable fate →
      delivered.packet.1 = netMessageUpdate → idAt delivered.packet.2 8 = id →
      stateAt n.store id = some state → netCrdtDecode (delivered.packet.2.drop 32) = some remote →
      netCrdtMerge state remote = some merged → stateAt n'.store id = some merged →
      n'.history id = delivered.history ++ n.history id →
      StateStep n action n' id

variable {localKey peerKey}

/-- What a node sends is made of the state of a scope. -/
structure SendsState (n n' : ReplicaNode) (packet : Packet) : Prop where
  store_eq : n'.store = n.store
  history_eq : n'.history = n.history
  body : packet.1 ≠ netMessageGrant → ∃ scope state, scopeValid scope = true ∧
    StoredAs n.store scope state ∧
      (packet = (netMessageSummary, summaryBody crypto scope state state.bytes) ∨
        packet = (netMessageUpdate, messageHeader scope netMessageUpdate ++ state.bytes))

variable {crypto} {n n' : ReplicaNode}

theorem namespaceFor_ne (key : Block 32) : namespaceFor crypto key ≠ replicaMetaId.high := by
  unfold namespaceFor
  generalize UInt64.ofNat _ = x
  intro heq
  have hbit : (x ||| 0x8000000000000000) &&& 0x8000000000000000 = 0x8000000000000000 :=
    UInt64.toBitVec_inj.mp (by
      ext i
      simp only [UInt64.toBitVec_and, UInt64.toBitVec_or, BitVec.getElem_and, BitVec.getElem_or]
      cases (x.toBitVec[i]) <;> simp)
  rw [heq] at hbit
  exact absurd hbit (by decide)

theorem ne_replicaMetaId {id : ObjectId}
    (h : id.high = namespaceFor crypto localKey ∨ id.high = namespaceFor crypto peerKey) :
    id ≠ replicaMetaId := by
  rintro rfl
  rcases h with h | h <;> exact namespaceFor_ne _ h.symm

theorem StateInv.of_same (h : StateInv crypto localKey peerKey n)
    (hhas : ∀ c, n'.Has localKey peerKey c → n.Has localKey peerKey c)
    (hcatalogOf : catalogOf localKey peerKey n'.store = catalogOf localKey peerKey n.store)
    (hfind : ∀ id, id ≠ replicaMetaId → n'.store.find id = n.store.find id)
    (hok : ∀ c, n.Has localKey peerKey c → CatalogOk c) : StateInv crypto localKey peerKey n' := by
  refine ⟨fun c hc scope hscope => ?_, fun id hid hfound => ?_⟩
  · obtain ⟨s, hs⟩ := h.stored c (hhas c hc) scope hscope
    exact ⟨s, hs.congr (hfind _ (scopeValid.id_ne ((hok c (hhas c hc)).valid scope hscope)).1)⟩
  · rw [hcatalogOf]
    rw [hfind id (ne_replicaMetaId hid)] at hfound
    exact h.catalogued id hid hfound

variable {scope : ReplicaScope} {s : NetCrdt}

section Writes

variable {r r' : Replica} {m' : ObjectMap} {catalog : Option ReplicaCatalog}
  {state : Option (ReplicaScope × NetCrdt)} {history : ObjectId → List ReplicaEvent}

/-- What a batch has to be for the states to stay with their catalogs: each scope of its catalog is
recorded already or comes with its state, no scope is lost, and its state is that of a recorded
scope or of a new one. -/
structure BatchOk (r : Replica) (m : ObjectMap) (catalog : Option ReplicaCatalog)
    (state : Option (ReplicaScope × NetCrdt)) : Prop where
  scopes : ∀ c ∈ catalog, ∀ t ∈ c, (∃ s ∈ r.catalog, s.id = t.id ∧ s.kind = t.kind) ∨
    ∃ x ∈ state, x.1 = t
  covers : ∀ c ∈ catalog, ∀ s ∈ r.catalog, ∃ t ∈ c, t.id = s.id
  state_kind : ∀ x ∈ state, x.2.kind = x.1.kind
  state_id : ∀ x ∈ state, x.1.id ≠ replicaMetaId
  state_scope : ∀ x ∈ state, x.1 ∈ r.catalog ∨ m.find x.1.id = none ∧ ∃ c ∈ catalog, x.1 ∈ c

variable {m : ObjectMap}

theorem Writes.stored_kept (hwrites : Writes r m r' m' catalog state)
    (hbatch : BatchOk r m catalog state) (hstored : ∀ t ∈ r.catalog, ∃ s, StoredAs m t s)
    {t : ReplicaScope} (ht : ∃ s, StoredAs m t s) (hne : t.id ≠ replicaMetaId) :
    ∃ s, StoredAs m' t s := by
  obtain ⟨s, hs⟩ := ht
  by_cases hx : ∃ x ∈ state, x.1.id = t.id
  · obtain ⟨x, hx, hidx⟩ := hx
    refine ⟨x.2, StoredAs.of_scope (hwrites.holds.state_stored x hx (hbatch.state_kind x hx)
      (hbatch.state_id x hx)) hidx.symm ?_⟩
    rcases hbatch.state_scope x hx with hmem | ⟨hnone, -⟩
    · obtain ⟨s', hs'⟩ := hstored x.1 hmem
      rw [← hs.kind_eq, ← hs'.kind_eq, hs.unique hs' hidx.symm]
    · obtain ⟨o, hfind, -⟩ := hs.stored
      rw [← hidx, hnone] at hfind
      cases hfind
  · exact ⟨s, hs.congr (hwrites.holds.kept t.id hne fun x hx' hidx => hx ⟨x, hx', hidx⟩)⟩

theorem Writes.stored_catalog (hwrites : Writes r m r' m' catalog state)
    (hbatch : BatchOk r m catalog state) (hok : CatalogOk r.catalog)
    (hstored : ∀ t ∈ r.catalog, ∃ s, StoredAs m t s) {c : ReplicaCatalog} (hc : c ∈ catalog)
    {t : ReplicaScope} (ht : t ∈ c) : ∃ s, StoredAs m' t s := by
  rcases hbatch.scopes c hc t ht with ⟨s, hs, hids, hkinds⟩ | ⟨x, hx, rfl⟩
  · obtain ⟨s', hs'⟩ := hwrites.stored_kept hbatch hstored (hstored s hs)
      (scopeValid.id_ne (hok.valid s hs)).1
    exact ⟨s', hs'.of_scope hids.symm hkinds.symm⟩
  · exact ⟨x.2, hwrites.holds.state_stored x hx (hbatch.state_kind x hx) (hbatch.state_id x hx)⟩

/-- A written batch keeps every scope's state stored. -/
theorem StateInv.of_writes (h : StateInv crypto localKey peerKey n)
    (hnode : NodeInv crypto localKey peerKey n) (hr : n.replica = some r)
    (hwrites : Writes r n.store r' m' catalog state) (hbatch : BatchOk r n.store catalog state) :
    StateInv crypto localKey peerKey ⟨m', some r', history⟩ := by
  have hid := hnode.identified r hr
  have hcoherent := hnode.coherent r hr hwrites.healthy.1 hwrites.healthy.2
  have hcatalogOf := hwrites.catalogOf_eq hid hbatch.state_id
  rw [hcoherent] at hcatalogOf
  have hstored := h.stored _ (ReplicaNode.has_replica hr)
  refine ⟨fun c hc t ht => ?_, fun id hhigh hfound => ?_⟩
  · rcases hwrites.has hid hr hbatch.state_id hc with hc | hc
    · exact hwrites.stored_kept hbatch hstored (h.stored c hc t ht)
        (scopeValid.id_ne ((hnode.catalog_ok c hc).valid t ht)).1
    · exact hwrites.stored_catalog hbatch (hnode.catalog_ok _ (ReplicaNode.has_replica hr)) hstored
        hc ht
  · -- a recorded scope is still there
    have hkeep : ∀ s ∈ r.catalog, ∃ t ∈ catalogOf localKey peerKey m', t.id = s.id := by
      intro s hs
      rw [hcatalogOf]
      cases catalog with
      | none => exact ⟨s, hs, rfl⟩
      | some c => exact hbatch.covers c rfl s hs
    by_cases hx : ∃ x ∈ state, x.1.id = id
    · obtain ⟨x, hx, rfl⟩ := hx
      rcases hbatch.state_scope x hx with hmem | ⟨-, c, hc, hmem⟩
      · exact hkeep x.1 hmem
      · refine ⟨x.1, ?_, rfl⟩
        obtain rfl := Option.mem_def.mp hc
        rw [hcatalogOf]
        exact hmem
    · change m'.find id ≠ none at hfound
      rw [hwrites.holds.kept id (ne_replicaMetaId hhigh) fun x hx' hidx => hx ⟨x, hx', hidx⟩]
        at hfound
      obtain ⟨s, hs, rfl⟩ := h.catalogued id hhigh hfound
      rw [hcoherent] at hs
      exact hkeep s hs

theorem BatchOk.of_setScope (m : ObjectMap) (id : ObjectId) (epoch : UInt64) (rights : UInt32) :
    BatchOk r m (some (setScope id epoch rights r.catalog)) none := by
  have hfields : ∀ s : ReplicaScope, ∀ t, t = (if objectIdEqual s.id id then
      { s with epoch := epoch, rights := rights } else s) → t.id = s.id ∧ t.kind = s.kind := by
    rintro s t rfl
    split_ifs <;> exact ⟨rfl, rfl⟩
  refine ⟨fun c hc t ht => ?_, fun c hc s hs => ?_, fun x hx => (by cases hx),
    fun x hx => (by cases hx), fun x hx => by cases hx⟩
  · obtain rfl := Option.some.inj hc
    obtain ⟨s, hs, heq⟩ := List.mem_map.mp ht
    obtain ⟨hids, hkinds⟩ := hfields s t heq.symm
    exact Or.inl ⟨s, hs, hids.symm, hkinds.symm⟩
  · obtain rfl := Option.some.inj hc
    exact ⟨_, List.mem_map.mpr ⟨s, hs, rfl⟩, (hfields s _ rfl).1⟩

theorem BatchOk.of_adds {opened : Option Packet} {init : NetCrdt}
    (hadds : AddsScope r m r' m' opened scope init) :
    BatchOk r m (some (r.catalog ++ [scope])) (some (scope, init)) := by
  refine ⟨fun c hc t ht => ?_, fun c hc s hs => ?_, fun x hx => ?_, fun x hx => ?_, fun x hx => ?_⟩
  · obtain rfl := Option.some.inj hc
    rcases List.mem_append.mp ht with ht | ht
    · exact Or.inl ⟨t, ht, rfl, rfl⟩
    · exact Or.inr ⟨(scope, init), rfl, (List.mem_singleton.mp ht).symm⟩
  · obtain rfl := Option.some.inj hc
    exact ⟨s, List.mem_append_left _ hs, rfl⟩
  · obtain rfl := Option.some.inj hx
    rw [(netCrdtInit_some hadds.init).2]
  · obtain rfl := Option.some.inj hx
    exact (scopeValid.id_ne hadds.scope_valid).1
  · obtain rfl := Option.some.inj hx
    exact Or.inr ⟨hadds.absent, _, rfl, List.mem_append_right _ List.mem_cons_self⟩

theorem BatchOk.of_state (hok : CatalogOk r.catalog) (hscope : scope ∈ r.catalog)
    (hkind : s.kind = scope.kind) : BatchOk r m none (some (scope, s)) := by
  refine ⟨fun c hc => (by cases hc), fun c hc => (by cases hc), fun x hx => ?_, fun x hx => ?_,
    fun x hx => ?_⟩ <;> obtain rfl := Option.some.inj hx
  · exact hkind
  · exact (scopeValid.id_ne (hok.valid scope hscope)).1
  · exact Or.inl hscope

end Writes

/-! ### Kinds -/

theorem kind_of_apply {s' : NetCrdt} {node : UInt32} {operation : ReplicaOperation}
    (h : operation.apply s node = some s') : s'.kind = s.kind := by
  cases operation with
  | set value =>
    obtain ⟨hkind, -, -, hkind', -⟩ := netCrdtSet_some h
    exact hkind'.trans hkind.symm
  | add item =>
    unfold ReplicaOperation.apply netCrdtAdd at h
    split_ifs at h
    cases h
    rfl
  | remove item =>
    obtain ⟨hkind, -, -, hkind', -⟩ := netCrdtRemove_some h
    exact hkind'.trans hkind.symm

theorem kind_of_merge {a b : NetCrdt} (h : netCrdtMerge a b = some s) : s.kind = a.kind := by
  unfold netCrdtMerge at h
  split at h
  · cases h
  rename_i hvalid
  have hkind : a.kind = b.kind := by
    by_contra hne
    exact hvalid (Or.inr (Or.inr hne))
  dsimp only at h
  split_ifs at h
  · cases h
    exact hkind.symm
  · cases h
    rfl
  · cases hdots : mergeDots a.dots b.dots with
    | none =>
      rw [hdots] at h
      cases h
    | some dots =>
      rw [hdots] at h
      cases h
      rfl

/-! ### Steps -/

/-- What a step of a node does. -/
structure StateSteps (crypto : Crypto) (localKey peerKey : Block 32) (n : ReplicaNode)
    (action : NodeAction) (n' : ReplicaNode) (packet : Option Packet) : Prop where
  inv : StateInv crypto localKey peerKey n'
  step : ∀ id, id ≠ replicaMetaId → StateStep localKey peerKey n action n' id
  sends : ∀ p ∈ packet, SendsState crypto n n' p

section Quiet

variable {action : NodeAction} {packet : Option Packet}

/-- A step that keeps the values and their histories. -/
theorem StateSteps.of_same (h : StateInv crypto localKey peerKey n)
    (hhas : ∀ c, n'.Has localKey peerKey c → n.Has localKey peerKey c)
    (hcatalogOf : catalogOf localKey peerKey n'.store = catalogOf localKey peerKey n.store)
    (hfind : ∀ id, id ≠ replicaMetaId → n'.store.find id = n.store.find id)
    (hok : ∀ c, n.Has localKey peerKey c → CatalogOk c) (hhistory : n'.history = n.history)
    (hsends : ∀ p ∈ packet, SendsState crypto n n' p) :
    StateSteps crypto localKey peerKey n action n' packet :=
  ⟨h.of_same hhas hcatalogOf hfind hok, fun id hne => .same (hfind id hne) (congrFun hhistory id),
    hsends⟩

variable {replica : Option Replica} {m' : ObjectMap}

theorem Opens.find_eq (hopens : Opens crypto localKey peerKey n.store replica m') {id : ObjectId}
    (hne : id ≠ replicaMetaId) : m'.find id = n.store.find id := by
  cases hopens with
  | refused hentries hrecovery => exact ObjectMap.find_congr hentries id
  | found r hid hhalted hm hstored howner => rfl
  | created r hid hnone hholds hopened hrecovery =>
    exact hholds.kept id hne fun x hx => by cases hx

/-- A new replica records an empty catalog, as if there was none. -/
theorem Opens.catalogOf_eq (hopens : Opens crypto localKey peerKey n.store replica m') :
    catalogOf localKey peerKey m' = catalogOf localKey peerKey n.store := by
  cases hopens with
  | refused hentries hrecovery => exact catalogOf_congr (ObjectMap.find_congr hentries _)
  | found r hid hhalted hm hstored howner => rfl
  | created r hid hnone hholds hopened hrecovery =>
    obtain ⟨-, hstored, -⟩ := hholds.catalog_ok [] rfl
    rw [hid.localKey_eq, hid.peerKey_eq] at hstored
    exact (catalogOf_of_stored hstored).trans (catalogOf_of_none hnone).symm

end Quiet

section Changes

variable {action : NodeAction} {r r' : Replica} {m' : ObjectMap} {history : List ReplicaEvent}
  (h : StateInv crypto localKey peerKey n) (hnode : NodeInv crypto localKey peerKey n)
  (hr : n.replica = some r)

include h hnode hr

theorem StateInv.of_idle (hidle : Idle r n.store r' m') {histories : ObjectId → List ReplicaEvent} :
    StateInv crypto localKey peerKey ⟨m', some r', histories⟩ :=
  h.of_same (fun _ hc => hidle.has hr hc) (catalogOf_congr (ObjectMap.find_congr hidle.entries _))
    (fun id _ => ObjectMap.find_congr hidle.entries id) hnode.catalog_ok

/-- A step that writes the state of a recorded scope is a step of that value only. -/
theorem Writes.stateSteps (hscope : scope ∈ r.catalog) (hkind : s.kind = scope.kind)
    (hwrites : Writes r n.store r' m' none (some (scope, s)))
    (hself : stateAt m' scope.id = some s → StateStep localKey peerKey n action
      ⟨m', some r', Function.update n.history scope.id history⟩ scope.id) :
    StateSteps crypto localKey peerKey n action
      ⟨m', some r', Function.update n.history scope.id history⟩ none := by
  have hbatch := BatchOk.of_state (m := n.store)
    (hnode.catalog_ok _ (ReplicaNode.has_replica hr)) hscope hkind
  have hnew := hwrites.holds.state_stored _ rfl hkind (hbatch.state_id _ rfl)
  refine ⟨h.of_writes hnode hr hwrites hbatch, fun id hne => ?_, fun p hp => by cases hp⟩
  by_cases heq : id = scope.id
  · subst heq
    exact hself hnew.stateAt_eq
  · refine .same (hwrites.holds.kept id hne fun x hx => ?_) (Function.update_of_ne heq _ _)
    obtain rfl := Option.some.inj hx
    exact Ne.symm heq

/-- A new scope brings the initial state of its value. -/
theorem AddsScope.stateSteps (hadds : AddsScope r n.store r' m' action.delivered scope s) :
    StateSteps crypto localKey peerKey n action ⟨m', some r', n.history⟩ none := by
  have hbatch := BatchOk.of_adds hadds
  have hnew := hadds.writes.holds.state_stored _ rfl (hbatch.state_kind _ rfl)
    (hbatch.state_id _ rfl)
  refine ⟨h.of_writes hnode hr hadds.writes hbatch, fun id hne => ?_, fun p hp => by cases hp⟩
  by_cases heq : id = scope.id
  · subst heq
    refine .added scope s hadds.absent rfl ?_ hadds.init hnew.stateAt_eq rfl
    rw [hadds.writes.catalogOf_eq (hnode.identified _ hr) hbatch.state_id]
    exact List.mem_append_right _ List.mem_cons_self
  · refine .same (hadds.writes.holds.kept id hne fun x hx => ?_) rfl
    obtain rfl := Option.some.inj hx
    exact Ne.symm heq

/-- An update that tells nothing new leaves the store as it is. -/
theorem Idle.stateSteps_merged (hidle : Idle r n.store r' m')
    (hself : stateAt m' scope.id = stateAt n.store scope.id → StateStep localKey peerKey n action
      ⟨m', some r', Function.update n.history scope.id history⟩ scope.id) :
    StateSteps crypto localKey peerKey n action
      ⟨m', some r', Function.update n.history scope.id history⟩ none := by
  have hfind := fun id => ObjectMap.find_congr hidle.entries id
  refine ⟨h.of_idle hnode hr hidle, fun id _ => ?_, fun p hp => by cases hp⟩
  by_cases heq : id = scope.id
  · subst heq
    exact hself (stateAt_congr (hfind _))
  · exact .same (hfind id) (Function.update_of_ne heq _ _)

end Changes

/-- **Every step** of a node is one step of each state. -/
theorem NodeEffect.stateSteps {action : NodeAction} {packet : Option Packet}
    (hnode : NodeInv crypto localKey peerKey n) (h : StateInv crypto localKey peerKey n)
    (heffect : NodeEffect crypto localKey peerKey n action n' packet) :
    StateSteps crypto localKey peerKey n action n' packet := by
  have hstored : ∀ {r scope readable state}, n.replica = some r → scope ∈ r.catalog →
      loadState n.store readable scope = some state → StoredAs n.store scope state := by
    intro r scope readable state hr hscope hload
    obtain ⟨s, hs⟩ := h.stored _ (ReplicaNode.has_replica hr) scope hscope
    rwa [hs.of_load hload]
  have hvalid : ∀ {r scope}, n.replica = some r → scope ∈ r.catalog → scopeValid scope = true :=
    fun hr hscope => (hnode.catalog_ok _ (ReplicaNode.has_replica hr)).valid _ hscope
  have hnone : ∀ n', ∀ p ∈ (none : Option Packet), SendsState crypto n n' p :=
    fun n' p hp => by cases hp
  cases heffect with
  | closed => exact ⟨h, fun id _ => .same rfl rfl, hnone _⟩
  | crashed =>
    exact .of_same h (fun c hc => ReplicaNode.has_crash hc) rfl (fun id _ => rfl) hnode.catalog_ok
      rfl (hnone _)
  | opened hopens =>
    exact .of_same h (fun c hc => hopens.has hc) hopens.catalogOf_eq
      (fun id hne => hopens.find_eq hne) hnode.catalog_ok rfl (hnone _)
  | idle hr hidle =>
    exact ⟨h.of_idle hnode hr hidle,
      fun id _ => .same (ObjectMap.find_congr hidle.entries id) rfl, hnone _⟩
  | rescoped scope epoch rights hr _ hwrites _ =>
    exact ⟨h.of_writes hnode hr hwrites (BatchOk.of_setScope _ _ _ _),
      fun id hne => .same (hwrites.holds.kept id hne fun x hx => by cases hx) rfl, hnone _⟩
  | added scope state hr hadds => exact hadds.stateSteps h hnode hr
  | operated scope state state' operation readable fate hr haction hscope hload happly hwrites =>
    obtain ⟨hstate, hkind⟩ := loadState_some hload
    exact hwrites.stateSteps h hnode hr hscope ((kind_of_apply happly).trans hkind) fun hnew =>
      .operated operation state state' hr haction hstate happly hnew (Function.update_self ..)
  | merged scope message state remote merged delivered readable fate hr haction hupdate hdecode
      hscope hid _ _ hload hremote hmerge hmergedValid hcases =>
    obtain ⟨hstate, hkind⟩ := loadState_some hload
    have hself : ∀ {r' m'}, stateAt m' scope.id = some merged →
        StateStep localKey peerKey n action ⟨m', some r', Function.update n.history scope.id
          (delivered.history ++ n.history scope.id)⟩ scope.id := fun hnew =>
      .merged delivered state remote merged haction hupdate
        ((id_of_replicaMessageDecode hdecode).trans hid.symm) hstate hremote hmerge hnew
        (Function.update_self ..)
    rcases hcases with ⟨hidle, hbytes⟩ | hwrites
    · have hsame : merged = state := by
        have heq := netCrdtDecode_bytes hmergedValid
        rw [hbytes, netCrdtDecode_bytes (hstored hr hscope hload).valid] at heq
        exact (Option.some.inj heq).symm
      exact hidle.stateSteps_merged h hnode hr fun hkept =>
        hself (hkept.trans (hstate.trans (congrArg some hsame.symm)))
    · exact hwrites.stateSteps h hnode hr hscope ((kind_of_merge hmerge).trans hkind) hself
  | announced packet readable hr hhealthy hidle hannounces =>
    refine .of_same h (fun c hc => hidle.has hr hc) rfl (fun id _ => rfl) hnode.catalog_ok rfl
      fun p hp => ⟨rfl, rfl, fun hkind => ?_⟩
    obtain rfl := Option.some.inj hp
    cases hannounces with
    | grant scope hmem howned => exact absurd rfl hkind
    | summary scope state hmem hload _ =>
      exact ⟨scope, state, hvalid hr hmem, hstored hr hmem hload, Or.inl rfl⟩
  | answered scope state readable hr hscope hload _ =>
    refine ⟨h, fun id _ => .same rfl rfl, fun p hp => ⟨rfl, rfl, fun _ => ?_⟩⟩
    obtain rfl := Option.some.inj hp
    exact ⟨scope, state, hvalid hr hscope, hstored hr hscope hload, Or.inr rfl⟩

end Node

end Jani
