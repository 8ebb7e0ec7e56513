import Jani.Net.Equiv.Integrity
import Jani.Net.Equiv.ReplicaStep

/-!
# Runs of two replicas

Two nodes with a store each, and the packets they have sent.  A step is a call of a replica
function, a crash, or the delivery of any packet the peer has sent: packets may be lost, delayed,
reordered and repeated, so the ordered, authenticated channel that the sessions provide
(`Equiv.Integrity`) is a special case.

Each node also keeps, for each value, the operations that went into its stored state.  An update
carries the operations of the state it was made of.  No function of the source knows about them.
-/

namespace Jani

/-- An operation on a replicated value: the write of a register, an addition, or a removal of all
the additions it has observed. -/
inductive ReplicaEvent where
  | set (timestamp : UInt64) (author : UInt32) (value : List UInt8)
  | add (addition : Addition)
  | remove (observed : List Addition)
deriving DecidableEq, Repr

/-- The operation that a local call performs on a state. -/
def ReplicaOperation.event (state : NetCrdt) (node : UInt32) : ReplicaOperation → ReplicaEvent
  | .set value => .set (state.timestamp + 1) node value
  | .add item => .add ⟨node, state.vector (nodeIndex node) + 1, item⟩
  | .remove item => .remove ((state.dots.filter fun d => d.value = item).map NetDot.addition)

structure ReplicaNode where
  store : ObjectMap
  replica : Option Replica
  history : ObjectId → List ReplicaEvent

structure SentPacket where
  packet : Packet
  history : List ReplicaEvent
deriving DecidableEq, Repr

inductive NodeAction where
  | openReplica (readable : ObjectId → Bool) (fate : CommitFate)
  | create (sequence : UInt64) (kind : UInt32) (fate : CommitFate)
  | share (id : ObjectId) (rights : UInt32) (fate : CommitFate)
  | mutate (id : ObjectId) (operation : ReplicaOperation) (readable : ObjectId → Bool)
      (fate : CommitFate)
  | nextPacket (readable : ObjectId → Bool) (active sealOk : Bool)
  | receive (delivered : SentPacket) (readable : ObjectId → Bool) (fate : CommitFate)
  | crash

/-- The operations of the stored state once a local operation is in the store. -/
def mutateHistory (n : ReplicaNode) (r : Replica) (id : ObjectId) (operation : ReplicaOperation)
    (result : ReplicaResult) (fate : CommitFate) : ObjectId → List ReplicaEvent :=
  if (r.checked n.store).halted = false ∧ Landed result fate then
    match stateAt n.store id with
    | none => n.history
    | some state =>
      Function.update n.history id (operation.event state r.localNode :: n.history id)
  else n.history

/-- The operations of the stored state once an update is merged. -/
def receiveHistory (n : ReplicaNode) (r : Replica) (delivered : SentPacket)
    (result : ReplicaResult) (fate : CommitFate) : ObjectId → List ReplicaEvent :=
  if (r.checked n.store).halted = false ∧ delivered.packet.1 = netMessageUpdate ∧
      Landed result fate then
    Function.update n.history (idAt delivered.packet.2 8)
      (delivered.history ++ n.history (idAt delivered.packet.2 8))
  else n.history

/-- A step of one node, with the packet it sends. -/
def nodeStep (crypto : Crypto) (localKey peerKey : Block 32) (n : ReplicaNode) :
    NodeAction → ReplicaNode × Option Packet
  | .openReplica readable fate =>
    match replicaOpen crypto localKey peerKey n.store readable fate with
    | (_, some r, m) => ({ n with store := m, replica := some r }, none)
    | (_, none, m) => ({ n with store := m }, none)
  | .crash => ({ n with store := n.store.remount, replica := none }, none)
  | .create sequence kind fate =>
    match n.replica with
    | none => (n, none)
    | some r =>
      let (_, r', m) := replicaCreate r n.store sequence kind fate
      ({ n with store := m, replica := some r' }, none)
  | .share id rights fate =>
    match n.replica with
    | none => (n, none)
    | some r =>
      let (_, r', m) := replicaShare r n.store id rights fate
      ({ n with store := m, replica := some r' }, none)
  | .mutate id operation readable fate =>
    match n.replica with
    | none => (n, none)
    | some r =>
      let (result, r', m) := mutate r n.store id operation readable fate
      (⟨m, some r', mutateHistory n r id operation result fate⟩, none)
  | .nextPacket readable active sealOk =>
    match n.replica with
    | none => (n, none)
    | some r =>
      let (packet, r') := replicaNextPacket crypto r n.store readable active sealOk
      ({ n with replica := some r' }, packet)
  | .receive delivered readable fate =>
    match n.replica with
    | none => (n, none)
    | some r =>
      let (result, r', m, reply) :=
        replicaReceive crypto r n.store (some delivered.packet) readable fate
      (⟨m, some r', receiveHistory n r delivered result fate⟩, reply)

structure ReplicaWorld where
  node : Side → ReplicaNode
  sent : Side → List SentPacket

section World

variable (crypto : Crypto) (key : Side → Block 32)

/-- A step of the node on one side.  A packet goes out with the operations of the value it is
about. -/
def ReplicaWorld.step (w : ReplicaWorld) (side : Side) (action : NodeAction) : ReplicaWorld :=
  let (n, packet) := nodeStep crypto (key side) (key side.other) (w.node side) action
  { node := Function.update w.node side n
    sent := Function.update w.sent side (w.sent side ++
      packet.toList.map fun p => ⟨p, (w.node side).history (idAt p.2 8)⟩) }

variable {crypto key} in
theorem ReplicaWorld.step_node_self (w : ReplicaWorld) (side : Side) (action : NodeAction) :
    (w.step crypto key side action).node side =
      (nodeStep crypto (key side) (key side.other) (w.node side) action).1 :=
  Function.update_self ..

variable {crypto key} in
theorem ReplicaWorld.step_node_of_ne (w : ReplicaWorld) {side other : Side} (h : other ≠ side)
    (action : NodeAction) : (w.step crypto key side action).node other = w.node other :=
  Function.update_of_ne h ..

variable {crypto key} in
theorem ReplicaWorld.mem_step_sent {w : ReplicaWorld} {side other : Side} {action : NodeAction}
    {p : SentPacket} (h : p ∈ (w.step crypto key side action).sent other) :
    p ∈ w.sent other ∨ (other = side ∧
      p.packet ∈ (nodeStep crypto (key side) (key side.other) (w.node side) action).2 ∧
      p.history = (w.node side).history (idAt p.packet.2 8)) := by
  change p ∈ Function.update w.sent side _ other at h
  by_cases hne : other = side
  · subst hne
    rw [Function.update_self] at h
    rcases List.mem_append.mp h with hold | hnew
    · exact Or.inl hold
    · obtain ⟨q, hq, rfl⟩ := List.mem_map.mp hnew
      exact Or.inr ⟨rfl, Option.mem_toList.mp hq, rfl⟩
  · rw [Function.update_of_ne hne] at h
    exact Or.inl h

/-- Only packets of the peer are delivered. -/
def ReplicaWorld.Delivers (w : ReplicaWorld) (side : Side) : NodeAction → Prop
  | .receive delivered _ _ => delivered ∈ w.sent side.other
  | _ => True

/-- The runs from a world. -/
inductive ReplicaRun (w : ReplicaWorld) : ReplicaWorld → Prop
  | refl : ReplicaRun w w
  | step {w' : ReplicaWorld} (side : Side) (action : NodeAction) : ReplicaRun w w' →
      w'.Delivers side action → ReplicaRun w (w'.step crypto key side action)

/-- The namespace of a node. -/
def keyNamespace (side : Side) : UInt64 := namespaceFor crypto (key side)

/-- The stores hold no replicas yet. -/
structure ReplicaWorld.Starts (w : ReplicaWorld) : Prop where
  closed : ∀ side, (w.node side).replica = none
  fresh : ∀ side, (w.node side).history = fun _ => []
  silent : ∀ side, w.sent side = []
  no_catalog : ∀ side, (w.node side).store.find replicaMetaId = none
  no_states : ∀ side id, id.high = keyNamespace crypto key .left ∨
    id.high = keyNamespace crypto key .right → (w.node side).store.find id = none

end World

/-! ### What a node holds -/

/-- The catalog in the store, empty before the first open. -/
def catalogOf (localKey peerKey : Block 32) (m : ObjectMap) : ReplicaCatalog :=
  (storedCatalog localKey peerKey m).getD []

/-- A catalog that a node holds, in its store or in memory. -/
def ReplicaNode.Has (localKey peerKey : Block 32) (n : ReplicaNode) (c : ReplicaCatalog) : Prop :=
  c = catalogOf localKey peerKey n.store ∨ ∃ r, n.replica = some r ∧ c = r.catalog

/-- The identity that `replica_open` gives a replica. -/
structure Replica.Identified (crypto : Crypto) (localKey peerKey : Block 32) (r : Replica) :
    Prop where
  localKey_eq : r.localKey = localKey
  peerKey_eq : r.peerKey = peerKey
  localNamespace_eq : r.localNamespace = namespaceFor crypto localKey
  peerNamespace_eq : r.peerNamespace = namespaceFor crypto peerKey
  namespace_ne : r.localNamespace ≠ r.peerNamespace
  localNode_eq : r.localNode = if keyLess localKey.bytes peerKey.bytes then 0 else 1

theorem Replica.Identified.of_same {crypto : Crypto} {localKey peerKey : Block 32} {r r' : Replica}
    (h : r.Identified crypto localKey peerKey) (hsame : SameIdentity r r') :
    r'.Identified crypto localKey peerKey :=
  ⟨hsame.localKey.trans h.localKey_eq, hsame.peerKey.trans h.peerKey_eq,
    hsame.localNamespace.trans h.localNamespace_eq, hsame.peerNamespace.trans h.peerNamespace_eq,
    by rw [hsame.localNamespace, hsame.peerNamespace]; exact h.namespace_ne,
    hsame.localNode.trans h.localNode_eq⟩

/-- What an open finds or writes. -/
inductive Opens (crypto : Crypto) (localKey peerKey : Block 32) (m : ObjectMap) :
    Option Replica → ObjectMap → Prop
  | refused {m' : ObjectMap} : m'.entries = m.entries →
      (m'.requiresRecovery = false → m.requiresRecovery = false) →
      Opens crypto localKey peerKey m none m'
  | found (r : Replica) : r.Identified crypto localKey peerKey → r.halted = false →
      m.requiresRecovery = false → storedCatalog localKey peerKey m = some r.catalog →
      (∀ s ∈ r.catalog, s.id.high = if s.owned ≠ 0 then r.localNamespace else r.peerNamespace) →
      Opens crypto localKey peerKey m (some r) m
  | created (r : Replica) {opened : Option Replica} {m' : ObjectMap} :
      r.Identified crypto localKey peerKey → m.find replicaMetaId = none →
      Holds r m m' (some []) none →
      (∀ r' ∈ opened, r'.catalog = [] ∧ r'.halted = false ∧ SameIdentity r r' ∧
        m'.requiresRecovery = false) → (opened = none → m'.requiresRecovery = true) →
      Opens crypto localKey peerKey m opened m'

/-- **Inversion** of `replica_open`. -/
theorem replicaOpen_effect {crypto : Crypto} {localKey peerKey : Block 32} {m : ObjectMap}
    {readable : ObjectId → Bool} {fate : CommitFate} {result : ReplicaResult}
    {opened : Option Replica} {m' : ObjectMap}
    (h : replicaOpen crypto localKey peerKey m readable fate = (result, opened, m')) :
    Opens crypto localKey peerKey m opened m' := by
  unfold replicaOpen at h
  by_cases hm : m.requiresRecovery = true
  · rw [if_pos hm] at h
    cases h
    exact .refused rfl id
  rw [if_neg hm] at h
  simp only [Bool.not_eq_true] at hm
  dsimp only at h
  generalize hnode : (if keyLess localKey.bytes peerKey.bytes then (0 : UInt32) else 1) = node at h
  split at h
  · cases h
    exact .refused rfl id
  rename_i hns
  by_cases hfind : (m.find replicaMetaId).isSome
  · rw [if_pos hfind] at h
    split at h
    · cases h
      exact .refused rfl id
    rename_i object hget
    split_ifs at h with htype
    · cases h
      exact .refused rfl id
    · split at h
      · cases h
        exact .refused rfl id
      rename_i catalog hdecode
      split_ifs at h with hload
      · cases h
        refine .found _ ⟨rfl, rfl, rfl, rfl, hns, hnode.symm⟩ rfl hm ?_ fun s hs => ?_
        · unfold storedCatalog
          rw [ObjectMap.get_eq_some hget]
          exact hdecode
        · have := List.all_eq_true.mp hload s hs
          exact (of_decide_eq_true this).1
      · cases h
        exact .refused rfl id
  · rw [if_neg hfind] at h
    have hnone : m.find replicaMetaId = none := Option.not_isSome_iff_eq_none.mp hfind
    rcases hpublish : publish ⟨localKey, peerKey, [], namespaceFor crypto localKey,
        namespaceFor crypto peerKey, node, 0, true, false⟩ m (some []) none fate with
        ⟨result1, r1, m1⟩
    rw [hpublish] at h
    have hidentified : Replica.Identified crypto localKey peerKey ⟨localKey, peerKey, [],
        namespaceFor crypto localKey, namespaceFor crypto peerKey, node, 0, true, false⟩ :=
      ⟨rfl, rfl, rfl, rfl, hns, hnode.symm⟩
    rcases publish_cases _ m (some []) none fate with heq | ⟨m2, heq, hrecovery, hholds⟩ |
      ⟨m2, heq, hrecovery, hcases⟩
    · cases heq.symm.trans hpublish
      cases h
      exact .refused rfl id
    · cases heq.symm.trans hpublish
      cases h
      refine .created _ hidentified hnone hholds (fun r' hr' => ?_)
        (fun hfalse => by cases hfalse)
      obtain rfl := Option.some.inj hr'
      obtain ⟨hcatalog, hhalted, hsame⟩ := Replica.adopt_fields ⟨localKey, peerKey, [],
        namespaceFor crypto localKey, namespaceFor crypto peerKey, node, 0, true, false⟩ []
      exact ⟨hcatalog, hhalted, hsame, hrecovery.trans hm⟩
    · cases heq.symm.trans hpublish
      cases h
      rcases hcases with ⟨hentries, -⟩ | ⟨-, hholds⟩
      · exact .refused hentries fun hfalse => absurd (hrecovery.symm.trans hfalse) (by decide)
      · exact .created _ hidentified hnone hholds (fun r' hr' => by cases hr') fun _ => hrecovery

/-! ### Catalogs after a call -/

section Has

variable {crypto : Crypto} {localKey peerKey : Block 32} {n : ReplicaNode} {r r' : Replica}
  {m m' : ObjectMap} {c : ReplicaCatalog} {history : ObjectId → List ReplicaEvent}

theorem catalogOf_congr (h : m'.find replicaMetaId = m.find replicaMetaId) :
    catalogOf localKey peerKey m' = catalogOf localKey peerKey m := by
  unfold catalogOf storedCatalog
  rw [h]

theorem catalogOf_of_stored (h : storedCatalog localKey peerKey m = some c) :
    catalogOf localKey peerKey m = c := by
  unfold catalogOf
  rw [h]
  rfl

theorem catalogOf_of_none (h : m.find replicaMetaId = none) :
    catalogOf localKey peerKey m = [] := by
  unfold catalogOf storedCatalog
  rw [h]
  rfl

theorem ReplicaNode.has_replica (h : n.replica = some r) : n.Has localKey peerKey r.catalog :=
  Or.inr ⟨r, h, rfl⟩

theorem Idle.has (hr : n.replica = some r) (hidle : Idle r n.store r' m')
    (hc : ReplicaNode.Has localKey peerKey ⟨m', some r', history⟩ c) :
    n.Has localKey peerKey c := by
  rcases hc with rfl | ⟨r1, hr1, rfl⟩
  · exact Or.inl (catalogOf_congr (ObjectMap.find_congr hidle.entries _))
  · obtain rfl := Option.some.inj hr1
    exact Or.inr ⟨r, hr, hidle.catalog⟩

theorem Writes.catalogOf_eq (hid : r.Identified crypto localKey peerKey)
    {catalog : Option ReplicaCatalog} {state : Option (ReplicaScope × NetCrdt)}
    (hwrites : Writes r m r' m' catalog state) (hmeta : ∀ x ∈ state, x.1.id ≠ replicaMetaId) :
    catalogOf localKey peerKey m' = catalog.getD (catalogOf localKey peerKey m) := by
  cases catalog with
  | none => exact catalogOf_congr (hwrites.holds.catalog_kept rfl hmeta)
  | some written =>
    obtain ⟨-, hstored, -⟩ := hwrites.holds.catalog_ok written rfl
    rw [hid.localKey_eq, hid.peerKey_eq] at hstored
    exact catalogOf_of_stored hstored

/-- A call that writes a batch leaves the catalogs as they are, up to the one it writes. -/
theorem Writes.has (hid : r.Identified crypto localKey peerKey) (hr : n.replica = some r)
    {catalog : Option ReplicaCatalog} {state : Option (ReplicaScope × NetCrdt)}
    (hwrites : Writes r n.store r' m' catalog state) (hmeta : ∀ x ∈ state, x.1.id ≠ replicaMetaId)
    (hc : ReplicaNode.Has localKey peerKey ⟨m', some r', history⟩ c) :
    n.Has localKey peerKey c ∨ c ∈ catalog := by
  have hreplica : r'.catalog = r.catalog ∨ r'.catalog ∈ catalog := by
    rcases hwrites.outcome with ⟨hcatalog, -⟩ | ⟨hcatalog, -⟩
    · cases catalog with
      | none => exact Or.inl hcatalog
      | some written => exact Or.inr (congrArg some hcatalog.symm)
    · exact Or.inl hcatalog
  rcases hc with rfl | ⟨r1, hr1, rfl⟩
  · have heq := hwrites.catalogOf_eq hid hmeta
    cases catalog with
    | none => exact Or.inl (Or.inl heq)
    | some written => exact Or.inr (congrArg some heq.symm)
  · obtain rfl := Option.some.inj hr1
    rcases hreplica with heq | hmem
    · exact Or.inl (Or.inr ⟨r, hr, heq⟩)
    · exact Or.inr hmem

/-- So does an open, which finds the stored catalog or writes the empty one. -/
theorem Opens.has {opened : Option Replica}
    (hopens : Opens crypto localKey peerKey n.store opened m')
    (hc : ReplicaNode.Has localKey peerKey
      { n with store := m', replica := opened.orElse fun _ => n.replica } c) :
    n.Has localKey peerKey c := by
  cases hopens with
  | refused hentries hrecovery =>
    rcases hc with rfl | hc
    · exact Or.inl (catalogOf_congr (ObjectMap.find_congr hentries _))
    · exact Or.inr hc
  | found r hid hhalted hm hstored howner =>
    rcases hc with rfl | ⟨r1, hr1, rfl⟩
    · exact Or.inl rfl
    · obtain rfl := Option.some.inj hr1
      exact Or.inl (catalogOf_of_stored hstored).symm
  | created r hid hnone hholds hopened hrecovery =>
    have hbefore : catalogOf localKey peerKey n.store = [] := catalogOf_of_none hnone
    rcases hc with rfl | ⟨r1, hr1, rfl⟩
    · obtain ⟨-, hstored, -⟩ := hholds.catalog_ok [] rfl
      rw [hid.localKey_eq, hid.peerKey_eq] at hstored
      exact Or.inl ((catalogOf_of_stored hstored).trans hbefore.symm)
    · cases opened with
      | none => exact Or.inr ⟨r1, hr1, rfl⟩
      | some r' =>
        obtain rfl := Option.some.inj hr1
        exact Or.inl ((hopened _ rfl).1.trans hbefore.symm)

theorem ReplicaNode.has_crash
    (hc : ReplicaNode.Has localKey peerKey { n with store := n.store.remount, replica := none } c) :
    n.Has localKey peerKey c := by
  rcases hc with rfl | ⟨r, hr, -⟩
  · exact Or.inl rfl
  · cases hr

end Has

/-! ### What a step does -/

/-- The packet that an action delivers. -/
def NodeAction.delivered : NodeAction → Option Packet
  | .receive delivered _ _ => some delivered.packet
  | _ => none

/-- The outcomes of a step of a node. -/
inductive NodeEffect (crypto : Crypto) (localKey peerKey : Block 32) (n : ReplicaNode)
    (action : NodeAction) : ReplicaNode → Option Packet → Prop
  /-- No replica is open. -/
  | closed : NodeEffect crypto localKey peerKey n action n none
  | crashed : NodeEffect crypto localKey peerKey n action
      { n with store := n.store.remount, replica := none } none
  | opened {replica : Option Replica} {m' : ObjectMap} :
      Opens crypto localKey peerKey n.store replica m' →
      NodeEffect crypto localKey peerKey n action
        { n with store := m', replica := replica.orElse fun _ => n.replica } none
  | idle {r r' : Replica} {m' : ObjectMap} : n.replica = some r → Idle r n.store r' m' →
      NodeEffect crypto localKey peerKey n action { n with store := m', replica := some r' } none
  | rescoped {r r' : Replica} {m' : ObjectMap} (scope : ReplicaScope) (epoch : UInt64)
      (rights : UInt32) : n.replica = some r → scope ∈ r.catalog →
      Writes r n.store r' m' (some (setScope scope.id epoch rights r.catalog)) none →
      CatalogChange r action.delivered (setScope scope.id epoch rights r.catalog) →
      NodeEffect crypto localKey peerKey n action { n with store := m', replica := some r' } none
  | added {r r' : Replica} {m' : ObjectMap} (scope : ReplicaScope) (state : NetCrdt) :
      n.replica = some r → AddsScope r n.store r' m' action.delivered scope state →
      NodeEffect crypto localKey peerKey n action { n with store := m', replica := some r' } none
  | operated {r r' : Replica} {m' : ObjectMap} (scope : ReplicaScope) (state state' : NetCrdt)
      (operation : ReplicaOperation) (readable : ObjectId → Bool) (fate : CommitFate) :
      n.replica = some r → action = .mutate scope.id operation readable fate →
      scope ∈ r.catalog → loadState n.store readable scope = some state →
      operation.apply state r.localNode = some state' →
      Writes r n.store r' m' none (some (scope, state')) →
      NodeEffect crypto localKey peerKey n action ⟨m', some r', Function.update n.history scope.id
        (operation.event state r.localNode :: n.history scope.id)⟩ none
  | merged {r r' : Replica} {m' : ObjectMap} (scope : ReplicaScope) (message : ReplicaMessage)
      (state remote merged : NetCrdt) (delivered : SentPacket) (readable : ObjectId → Bool)
      (fate : CommitFate) :
      n.replica = some r → action = .receive delivered readable fate →
      delivered.packet.1 = netMessageUpdate →
      replicaMessageDecode delivered.packet.2 delivered.packet.1 = some message →
      scope ∈ r.catalog → scope.id = message.id → scope.epoch = message.epoch →
      canReceive scope = true → loadState n.store readable scope = some state →
      netCrdtDecode (delivered.packet.2.drop 32) = some remote →
      netCrdtMerge state remote = some merged → merged.valid = true →
      (Idle r n.store r' m' ∧ merged.bytes = state.bytes ∨
        Writes r n.store r' m' none (some (scope, merged))) →
      NodeEffect crypto localKey peerKey n action ⟨m', some r', Function.update n.history scope.id
        (delivered.history ++ n.history scope.id)⟩ none
  | announced {r r' : Replica} (packet : Packet) (readable : ObjectId → Bool) :
      n.replica = some r → r.halted = false ∧ n.store.requiresRecovery = false →
      Idle r n.store r' n.store → Announces crypto n.store readable r packet →
      NodeEffect crypto localKey peerKey n action { n with replica := some r' } (some packet)
  | answered {r : Replica} (scope : ReplicaScope) (state : NetCrdt) (readable : ObjectId → Bool) :
      n.replica = some r → scope ∈ r.catalog → loadState n.store readable scope = some state →
      state.valid = true → NodeEffect crypto localKey peerKey n action n
        (some (netMessageUpdate, messageHeader scope netMessageUpdate ++ state.bytes))

/-- The identifier in the header of a message. -/
theorem id_of_replicaMessageDecode {body : List UInt8} {kind : UInt32} {message : ReplicaMessage}
    (h : replicaMessageDecode body kind = some message) : idAt body 8 = message.id := by
  unfold replicaMessageDecode at h
  dsimp only at h
  split_ifs at h <;> rw [← Option.some.inj h]

section Step

variable {crypto : Crypto} {localKey peerKey : Block 32} {n : ReplicaNode} {r : Replica}

theorem nodeStep_mutate (hr : n.replica = some r) (id : ObjectId) (operation : ReplicaOperation)
    (readable : ObjectId → Bool) (fate : CommitFate) :
    NodeEffect crypto localKey peerKey n (.mutate id operation readable fate)
      (nodeStep crypto localKey peerKey n (.mutate id operation readable fate)).1
      (nodeStep crypto localKey peerKey n (.mutate id operation readable fate)).2 := by
  unfold nodeStep
  rw [hr]
  dsimp only
  rcases hcall : mutate r n.store id operation readable fate with ⟨result, r', m'⟩
  unfold mutateHistory
  rcases mutate_effect hcall with ⟨hidle, hnot⟩ |
    ⟨scope, hscope, state, state', hid, hload, happly, hwrites, hchecked, hlanded⟩
  · have hcond : ¬ ((r.checked n.store).halted = false ∧ Landed result fate) := by
      rintro ⟨hchecked, hlanded⟩
      rcases hnot with hhalted | hnot
      · exact absurd (hchecked.symm.trans hhalted) (by decide)
      · exact hnot hlanded
    dsimp only
    rw [if_neg hcond]
    exact .idle hr hidle.toIdle
  · subst hid
    dsimp only
    rw [if_pos ⟨hchecked, hlanded⟩, (loadState_some hload).1]
    exact .operated scope state state' operation readable fate hr rfl hscope hload happly hwrites

/-- What receiving a packet does to a node. -/
theorem nodeStep_receive (hr : n.replica = some r) (hok : CatalogOk r.catalog)
    (delivered : SentPacket) (readable : ObjectId → Bool) (fate : CommitFate) :
    NodeEffect crypto localKey peerKey n (.receive delivered readable fate)
      (nodeStep crypto localKey peerKey n (.receive delivered readable fate)).1
      (nodeStep crypto localKey peerKey n (.receive delivered readable fate)).2 := by
  unfold nodeStep
  rw [hr]
  dsimp only
  rcases hcall : replicaReceive crypto r n.store (some delivered.packet) readable fate with
      ⟨result, r', m', reply⟩
  -- only an update that is merged adds to the operations of a value
  have hgrant : delivered.packet.1 = netMessageGrant →
      receiveHistory n r delivered result fate = n.history := fun hkind => by
    refine if_neg fun hcond => ?_
    exact absurd (hkind.symm.trans hcond.2.1) (by decide)
  dsimp only
  cases replicaReceive_effect hok hcall with
  | idle hidle hnot hreply =>
    subst hreply
    have hhistory : receiveHistory n r delivered result fate = n.history := by
      refine if_neg fun hcond => ?_
      rcases hnot with hhalted | hkind | hnot
      · exact absurd (hcond.1.symm.trans hhalted) (by decide)
      · exact hkind hcond.2.1
      · exact hnot hcond.2.2
    rw [hhistory]
    exact .idle hr hidle.toIdle
  | regrant scope message hkind _ _ hregrants hreply =>
    subst hreply
    rw [hgrant hkind]
    exact .rescoped scope _ _ hr hregrants.mem hregrants.writes hregrants.change
  | add scope state hkind hadds hreply =>
    subst hreply
    rw [hgrant hkind]
    exact .added scope state hr hadds
  | merge scope message state remote merged hkind hdecode hscope hid _ hepoch hreceive hload _
      hremote hmerge hvalid hchecked hlanded hcases hreply =>
    subst hreply
    have hidAt : idAt delivered.packet.2 8 = scope.id :=
      (id_of_replicaMessageDecode hdecode).trans hid.symm
    have hhistory : receiveHistory n r delivered result fate = Function.update n.history scope.id
        (delivered.history ++ n.history scope.id) := by
      unfold receiveHistory
      rw [if_pos ⟨hchecked, hkind, hlanded⟩, hidAt]
    rw [hhistory]
    exact .merged scope message state remote merged delivered readable fate hr rfl hkind hdecode
      hscope hid hepoch hreceive hload hremote hmerge hvalid
      (hcases.imp_left fun hidle => ⟨hidle.1.toIdle, hidle.2⟩)
  | answer scope message state hkind _ hscope _ _ hload hvalid _ hreply hr' hm' =>
    subst hr' hm'
    have hhistory : receiveHistory n r' delivered result fate = n.history := by
      refine if_neg fun hcond => ?_
      exact absurd (hkind.symm.trans hcond.2.1) (by decide)
    have hn : (⟨n.store, some r', n.history⟩ : ReplicaNode) = n := by
      rw [← hr]
    rw [hhistory, hn, hreply]
    unfold summaryReply
    split_ifs
    · exact .closed
    · exact .answered scope state readable hr hscope hload hvalid

/-- **Every step** of a node has one of the effects. -/
theorem nodeStep_effect (hok : ∀ r, n.replica = some r → CatalogOk r.catalog)
    (hown : ∀ r, n.replica = some r → ∀ s ∈ r.catalog, s.owned ≠ 0 → s.id.high = r.localNamespace)
    (action : NodeAction) :
    NodeEffect crypto localKey peerKey n action (nodeStep crypto localKey peerKey n action).1
      (nodeStep crypto localKey peerKey n action).2 := by
  cases action with
  | openReplica readable fate =>
    unfold nodeStep
    dsimp only
    rcases hopen : replicaOpen crypto localKey peerKey n.store readable fate with
        ⟨result, opened, m'⟩
    have heffect := @NodeEffect.opened crypto localKey peerKey n (.openReplica readable fate) _ _
      (replicaOpen_effect hopen)
    cases opened with
    | none => exact heffect
    | some r => exact heffect
  | crash => exact .crashed
  | create sequence kind fate =>
    unfold nodeStep
    cases hr : n.replica with
    | none => exact .closed
    | some r =>
      dsimp only
      rcases hcall : replicaCreate r n.store sequence kind fate with ⟨result, r', m'⟩
      rcases replicaCreate_effect hcall with hidle | ⟨scope, state, hadds⟩
      · exact .idle hr hidle.toIdle
      · exact .added scope state hr hadds
  | share id rights fate =>
    unfold nodeStep
    cases hr : n.replica with
    | none => exact .closed
    | some r =>
      dsimp only
      rcases hcall : replicaShare r n.store id rights fate with ⟨result, r', m'⟩
      rcases replicaShare_effect (hok r hr) (hown r hr) hcall with
        hidle | ⟨scope, hscope, epoch, rfl, hwrites, hchange⟩
      · exact .idle hr hidle.toIdle
      · exact .rescoped scope epoch rights hr hscope hwrites hchange
  | mutate id operation readable fate =>
    cases hr : n.replica with
    | none =>
      unfold nodeStep
      rw [hr]
      exact .closed
    | some r => exact nodeStep_mutate hr id operation readable fate
  | nextPacket readable active sealOk =>
    unfold nodeStep
    cases hr : n.replica with
    | none => exact .closed
    | some r =>
      dsimp only
      rcases hcall : replicaNextPacket crypto r n.store readable active sealOk with ⟨packet, r'⟩
      obtain ⟨hidle, -, hsent⟩ := replicaNextPacket_effect hcall
      cases packet with
      | none => exact .idle hr hidle
      | some p =>
        obtain ⟨hhealthy, hannounces⟩ := hsent p rfl
        exact .announced p readable hr hhealthy hidle hannounces
  | receive delivered readable fate =>
    cases hr : n.replica with
    | none =>
      unfold nodeStep
      rw [hr]
      exact .closed
    | some r => exact nodeStep_receive hr (hok r hr) delivered readable fate

end Step

end Jani
