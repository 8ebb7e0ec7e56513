import Jani.Net.Equiv.Replica

/-!
# What one call does to a replica

Every function of an open replica leaves its catalog and the store alone (`Idle`) or writes one
batch (`Writes`), and `CatalogChange` says how the catalog of a batch differs from that of the
replica: scopes are added, and their epochs grow.  A call other than `replica_next_packet` leaves
the turn at hand alone unless it changes the catalog (`TurnKept`).
-/

namespace Jani

/-! ### Effects -/

/-- The parts of a replica that never change. -/
structure SameIdentity (r r' : Replica) : Prop where
  localKey : r'.localKey = r.localKey
  peerKey : r'.peerKey = r.peerKey
  localNamespace : r'.localNamespace = r.localNamespace
  peerNamespace : r'.peerNamespace = r.peerNamespace
  localNode : r'.localNode = r.localNode

theorem SameIdentity.refl (r : Replica) : SameIdentity r r := ⟨rfl, rfl, rfl, rfl, rfl⟩

variable {r r' : Replica} {result : ReplicaResult} {m m' : ObjectMap} {fate : CommitFate}

theorem SameIdentity.trans {r'' : Replica} (h : SameIdentity r r') (h' : SameIdentity r' r'') :
    SameIdentity r r'' :=
  ⟨h'.localKey.trans h.localKey, h'.peerKey.trans h.peerKey,
    h'.localNamespace.trans h.localNamespace, h'.peerNamespace.trans h.peerNamespace,
    h'.localNode.trans h.localNode⟩

/-- Nothing is written: the objects and the catalog are as before. -/
structure Idle (r : Replica) (m : ObjectMap) (r' : Replica) (m' : ObjectMap) : Prop where
  entries : m'.entries = m.entries
  catalog : r'.catalog = r.catalog
  identity : SameIdentity r r'
  healthy : r'.halted = false → m'.requiresRecovery = false →
    r.halted = false ∧ m.requiresRecovery = false

/-- Nothing is written, and the turn at hand is the same. -/
structure Unmoved (r : Replica) (m : ObjectMap) (r' : Replica) (m' : ObjectMap) : Prop
    extends Idle r m r' m' where
  cursor : r'.cursor = r.cursor
  sendGrant : r'.sendGrant = r.sendGrant

/-- The turn at hand is the same, or the catalog is another one and a turn of it is at hand. -/
def TurnKept (r r' : Replica) : Prop :=
  (r'.catalog = r.catalog ∧ r'.cursor = r.cursor ∧ r'.sendGrant = r.sendGrant) ∨
    (r'.catalog ≠ r.catalog ∧ r'.cursor < r'.catalog.length)

/-- A healthy replica writes a batch; a torn one halts it. -/
structure Writes (r : Replica) (m : ObjectMap) (r' : Replica) (m' : ObjectMap)
    (catalog : Option ReplicaCatalog) (state : Option (ReplicaScope × NetCrdt)) : Prop where
  healthy : r.halted = false ∧ m.requiresRecovery = false
  holds : Holds r m m' catalog state
  identity : SameIdentity r r'
  outcome : (r'.catalog = catalog.getD r.catalog ∧ r'.halted = false ∧
      m'.requiresRecovery = false) ∨
    (r'.catalog = r.catalog ∧ r'.halted = true ∧ m'.requiresRecovery = true)
  turn : (∀ c ∈ catalog, r.catalog.length ≤ c.length) → TurnKept r r'

theorem Unmoved.refl (r : Replica) (m : ObjectMap) : Unmoved r m r m :=
  ⟨⟨rfl, rfl, SameIdentity.refl r, fun h h' => ⟨h, h'⟩⟩, rfl, rfl⟩

theorem Unmoved.turnKept (h : Unmoved r m r' m') : TurnKept r r' :=
  Or.inl ⟨h.catalog, h.cursor, h.sendGrant⟩

theorem eq_of_commonScopes : ∀ {c old : ReplicaCatalog}, c.length ≤ commonScopes c old →
    old.length ≤ c.length → c = old
  | [], [], _, _ => rfl
  | [], _ :: _, _, h => absurd h (Nat.not_succ_le_zero _)
  | _ :: _, [], h, _ => absurd h (Nat.not_succ_le_zero _)
  | a :: c, b :: old, h, h' => by
    unfold commonScopes at h
    split_ifs at h with hab
    · rw [hab, eq_of_commonScopes (Nat.le_of_succ_le_succ h) (Nat.le_of_succ_le_succ h')]
    · exact absurd h (Nat.not_succ_le_zero _)

theorem Replica.adopt_turn (r : Replica) {c : ReplicaCatalog}
    (hlength : r.catalog.length ≤ c.length) : TurnKept r (r.adopt c) := by
  unfold Replica.adopt
  dsimp only
  split_ifs with hchanged
  · by_cases heq : c = r.catalog
    · -- the two catalogs would begin alike to the end
      exfalso
      have hself : ∀ c : ReplicaCatalog, commonScopes c c = c.length := by
        intro c
        induction c with
        | nil => rfl
        | cons s c ih => rw [commonScopes, if_pos rfl, ih, List.length_cons]
      rw [← heq, hself] at hchanged
      exact Nat.lt_irrefl _ hchanged
    · exact Or.inr ⟨heq, hchanged⟩
  · exact Or.inl ⟨eq_of_commonScopes (Nat.not_lt.mp hchanged) hlength, rfl, rfl⟩

theorem Replica.adopt_fields (r : Replica) (c : ReplicaCatalog) :
    (r.adopt c).catalog = c ∧ (r.adopt c).halted = r.halted ∧ SameIdentity r (r.adopt c) := by
  unfold Replica.adopt
  dsimp only
  split_ifs <;> exact ⟨rfl, rfl, rfl, rfl, rfl, rfl, rfl⟩

/-- The outcome of a batch is in the store: `fate` lets it take place. -/
def Landed (result : ReplicaResult) (fate : CommitFate) : Prop :=
  result = .accepted ∨ (result = .remount ∧ fate = .tear true)

instance (result : ReplicaResult) (fate : CommitFate) : Decidable (Landed result fate) :=
  inferInstanceAs (Decidable (_ ∨ _))

theorem unmoved_of_eq {result' : ReplicaResult} (h : (result, r, m) = (result', r', m')) :
    Unmoved r m r' m' := by
  cases h
  exact Unmoved.refl r m

theorem not_landed_of_rejected {α : Type} {x y : α} (h : (.rejected, x) = (result, y)) :
    ¬ Landed result fate := by
  cases h
  simp [Landed]

/-- **A publish** of a healthy replica. -/
theorem publish_effect (hr : r.halted = false) (hm : m.requiresRecovery = false)
    (catalog : Option ReplicaCatalog) (state : Option (ReplicaScope × NetCrdt)) (fate : CommitFate)
    (h : publish r m catalog state fate = (result, r', m')) :
    (Unmoved r m r' m' ∧ ¬ Landed result fate) ∨
      (Writes r m r' m' catalog state ∧ Landed result fate) := by
  rcases publish_cases r m catalog state fate with heq | ⟨m1, heq, hrecovery, hholds⟩ |
    ⟨m1, heq, hrecovery, hcases⟩
  · cases heq.symm.trans h
    exact Or.inl ⟨Unmoved.refl r m, by simp [Landed]⟩
  · cases heq.symm.trans h
    cases catalog with
    | none =>
      exact Or.inr ⟨⟨⟨hr, hm⟩, hholds, SameIdentity.refl r, Or.inl ⟨rfl, hr, hrecovery.trans hm⟩,
        fun _ => (Unmoved.refl r m).turnKept⟩, Or.inl rfl⟩
    | some c =>
      obtain ⟨hcatalog, hhalted, hidentity⟩ := r.adopt_fields c
      exact Or.inr ⟨⟨⟨hr, hm⟩, hholds, hidentity,
        Or.inl ⟨hcatalog, hhalted.trans hr, hrecovery.trans hm⟩,
        fun hlength => r.adopt_turn (hlength c rfl)⟩, Or.inl rfl⟩
  · cases heq.symm.trans h
    rcases hcases with ⟨hentries, hfate⟩ | ⟨rfl, hholds⟩
    · refine Or.inl ⟨⟨⟨hentries, rfl, ⟨rfl, rfl, rfl, rfl, rfl⟩, fun hfalse => ?_⟩, rfl, rfl⟩, ?_⟩
      · cases hfalse
      · simp [Landed, hfate]
    · exact Or.inr ⟨⟨⟨hr, hm⟩, hholds, ⟨rfl, rfl, rfl, rfl, rfl⟩, Or.inr ⟨rfl, rfl, hrecovery⟩,
        fun _ => Or.inl ⟨rfl, rfl, rfl⟩⟩, Or.inr ⟨rfl, rfl⟩⟩

theorem checked_cases (r : Replica) (m : ObjectMap) :
    (r.checked m = r ∧ r.halted = false ∧ m.requiresRecovery = false) ∨
      ((r.checked m).halted = true ∧ Unmoved r m (r.checked m) m) := by
  unfold Replica.checked
  split_ifs with hr
  · exact Or.inr ⟨hr, Unmoved.refl r m⟩
  · simp only [Bool.not_eq_true] at hr
    cases hm : m.requiresRecovery with
    | false =>
      refine Or.inl ⟨?_, hr, rfl⟩
      cases r
      cases hr
      rfl
    | true =>
      exact Or.inr ⟨rfl, ⟨rfl, rfl, ⟨rfl, rfl, rfl, rfl, rfl⟩, fun hfalse => by cases hfalse⟩, rfl,
        rfl⟩

/-! ### Catalogs -/

/-- The scope `b` is the scope `a` at the same or a later epoch. -/
structure Precedes (a b : ReplicaScope) : Prop where
  kind_eq : a.kind = b.kind
  epoch_le : a.epoch ≤ b.epoch
  rights_eq : a.epoch = b.epoch → a.rights = b.rights

theorem Precedes.refl (s : ReplicaScope) : Precedes s s := ⟨rfl, UInt64.le_refl _, fun _ => rfl⟩

theorem Precedes.trans {a b c : ReplicaScope} (h : Precedes a b) (h' : Precedes b c) :
    Precedes a c := by
  refine ⟨h.kind_eq.trans h'.kind_eq, UInt64.le_trans h.epoch_le h'.epoch_le, fun heq => ?_⟩
  have hab : a.epoch = b.epoch := by
    have h1 := h.epoch_le
    have h2 := h'.epoch_le
    rw [← heq] at h2
    exact UInt64.le_antisymm h1 h2
  exact (h.rights_eq hab).trans (h'.rights_eq (hab.symm.trans heq))

/-- The scope is the one a grant announces. -/
structure GrantedBy (packet : Packet) (t : ReplicaScope) : Prop where
  kind_eq : packet.1 = netMessageGrant
  message : ∃ message, replicaMessageDecode packet.2 packet.1 = some message ∧ t.id = message.id ∧
    t.epoch = message.epoch ∧ t.kind = message.kind ∧ t.rights = message.rights

/-- How the catalog `c` of a batch differs from that of the replica: no scope is lost or goes back,
and a new one is the replica's own or was granted by the peer. -/
structure CatalogChange (r : Replica) (opened : Option Packet) (c : ReplicaCatalog) : Prop where
  advances : ∀ s ∈ r.catalog, ∃ s' ∈ c, s'.id = s.id ∧ s'.owned = s.owned ∧ Precedes s s'
  origin : ∀ t ∈ c, t ∈ r.catalog ∨ (t.owned ≠ 0 ∧ t.id.high = r.localNamespace) ∨
    (t.owned = 0 ∧ t.id.high = r.peerNamespace ∧ ∃ packet ∈ opened, GrantedBy packet t)

variable {scope : ReplicaScope} {id : ObjectId}

theorem Replica.findScope_some (h : r.findScope id = some scope) :
    scope ∈ r.catalog ∧ scope.id = id := by
  unfold Replica.findScope at h
  have hid := List.find?_some h
  exact ⟨List.mem_of_find?_eq_some h, (objectIdEqual_iff _ _).mp hid⟩

theorem Replica.findScope_of_mem (hok : CatalogOk r.catalog) (h : scope ∈ r.catalog) :
    r.findScope scope.id = some scope := by
  unfold Replica.findScope
  cases hfind : r.catalog.find? fun s => objectIdEqual s.id scope.id with
  | none =>
    have := List.find?_eq_none.mp hfind scope h
    exact absurd ((objectIdEqual_iff _ _).mpr rfl) this
  | some s =>
    have hid := List.find?_some hfind
    rw [hok.unique (List.mem_of_find?_eq_some hfind) h ((objectIdEqual_iff _ _).mp hid)]

variable {opened : Option Packet}

theorem CatalogChange.append (h : (scope.owned ≠ 0 ∧ scope.id.high = r.localNamespace) ∨
      (scope.owned = 0 ∧ scope.id.high = r.peerNamespace ∧
        ∃ packet ∈ opened, GrantedBy packet scope)) :
    CatalogChange r opened (r.catalog ++ [scope]) := by
  refine ⟨fun s hs => ⟨s, List.mem_append_left _ hs, rfl, rfl, Precedes.refl s⟩, fun t ht => ?_⟩
  rcases List.mem_append.mp ht with ht | ht
  · exact Or.inl ht
  · rw [List.mem_singleton.mp ht]
    exact Or.inr h

/-- A scope moved to a later epoch is a change of the catalog. -/
theorem CatalogChange.setScope {r : Replica} {scope : ReplicaScope} {epoch : UInt64}
    {rights : UInt32} (hok : CatalogOk r.catalog) (hscope : scope ∈ r.catalog)
    (hepoch : scope.epoch < epoch) (h : ∀ t, t = { scope with epoch := epoch, rights := rights } →
      (t.owned ≠ 0 ∧ t.id.high = r.localNamespace) ∨
      (t.owned = 0 ∧ t.id.high = r.peerNamespace ∧ ∃ packet ∈ opened, GrantedBy packet t)) :
    CatalogChange r opened (setScope scope.id epoch rights r.catalog) := by
  have hset : ∀ s ∈ r.catalog, (if objectIdEqual s.id scope.id then
      { s with epoch := epoch, rights := rights } else s) =
        if s = scope then { scope with epoch := epoch, rights := rights } else s := by
    intro s hs
    by_cases heq : s = scope
    · rw [if_pos heq, heq, if_pos ((objectIdEqual_iff _ _).mpr rfl)]
    · rw [if_neg heq, if_neg]
      exact fun hid => heq (hok.unique hs hscope ((objectIdEqual_iff _ _).mp hid))
  constructor
  · intro s hs
    refine ⟨_, List.mem_map_of_mem hs, ?_⟩
    rw [hset s hs]
    by_cases heq : s = scope
    · subst heq
      rw [if_pos rfl]
      refine ⟨rfl, rfl, rfl, UInt64.le_of_lt hepoch, fun heq => ?_⟩
      exact absurd heq (UInt64.ne_of_lt hepoch)
    · rw [if_neg heq]
      exact ⟨rfl, rfl, Precedes.refl s⟩
  · intro t ht
    obtain ⟨s, hs, rfl⟩ := List.mem_map.mp ht
    rw [hset s hs]
    by_cases heq : s = scope
    · rw [if_pos heq]
      exact Or.inr (h _ rfl)
    · rw [if_neg heq]
      exact Or.inl hs

/-! ### Local operations -/

/-- A scope is added with the empty state, where the store has no object. -/
structure AddsScope (r : Replica) (m : ObjectMap) (r' : Replica) (m' : ObjectMap)
    (opened : Option Packet) (scope : ReplicaScope) (state : NetCrdt) : Prop where
  writes : Writes r m r' m' (some (r.catalog ++ [scope])) (some (scope, state))
  change : CatalogChange r opened (r.catalog ++ [scope])
  absent : m.find scope.id = none
  init : netCrdtInit scope.kind = some state

theorem AddsScope.scope_valid {state : NetCrdt} (h : AddsScope r m r' m' opened scope state) :
    scopeValid scope = true :=
  ((h.writes.holds.catalog_ok _ rfl).1).valid scope (List.mem_append_right _ List.mem_cons_self)

/-- **Inversion** of a create. -/
theorem replicaCreate_effect {sequence : UInt64} {kind : UInt32}
    (h : replicaCreate r m sequence kind fate = (result, r', m')) :
    Unmoved r m r' m' ∨ ∃ scope state, AddsScope r m r' m' none scope state := by
  unfold replicaCreate at h
  dsimp only at h
  rcases checked_cases r m with ⟨heq, hr, hm⟩ | ⟨hhalted, hidle⟩
  swap
  · rw [if_pos hhalted] at h
    cases h
    exact Or.inl hidle
  rw [heq, hr, if_neg Bool.false_ne_true] at h
  split_ifs at h with h1 h2
  · exact Or.inl (unmoved_of_eq h)
  · exact Or.inl (unmoved_of_eq h)
  split at h
  · exact Or.inl (unmoved_of_eq h)
  rename_i state hinit
  rcases publish_effect hr hm _ _ _ h with ⟨hidle, -⟩ | ⟨hwrites, -⟩
  · exact Or.inl hidle
  · refine Or.inr ⟨_, state, hwrites, ?_, ?_, hinit⟩
    · exact CatalogChange.append (Or.inl ⟨(by decide : (1 : UInt32) ≠ 0), rfl⟩)
    · exact Option.not_isSome_iff_eq_none.mp h2

/-- **Inversion** of a share. -/
theorem replicaShare_effect (hok : CatalogOk r.catalog)
    (hown : ∀ s ∈ r.catalog, s.owned ≠ 0 → s.id.high = r.localNamespace) {rights : UInt32}
    (h : replicaShare r m id rights fate = (result, r', m')) :
    Unmoved r m r' m' ∨ ∃ scope ∈ r.catalog, ∃ epoch, scope.id = id ∧
      Writes r m r' m' (some (setScope id epoch rights r.catalog)) none ∧
      CatalogChange r none (setScope id epoch rights r.catalog) := by
  unfold replicaShare at h
  dsimp only at h
  rcases checked_cases r m with ⟨heq, hr, hm⟩ | ⟨hhalted, hidle⟩
  swap
  · rw [if_pos hhalted] at h
    cases h
    exact Or.inl hidle
  rw [heq, hr, if_neg Bool.false_ne_true] at h
  split at h
  · exact Or.inl (unmoved_of_eq h)
  rename_i scope hfind
  obtain ⟨hscope, rfl⟩ := Replica.findScope_some hfind
  split_ifs at h with h1 h2 h3
  · exact Or.inl (unmoved_of_eq h)
  · exact Or.inl (unmoved_of_eq h)
  · exact Or.inl (unmoved_of_eq h)
  rcases publish_effect hr hm _ _ _ h with ⟨hidle, -⟩ | ⟨hwrites, -⟩
  · exact Or.inl hidle
  refine Or.inr ⟨scope, hscope, scope.epoch + 1, rfl, hwrites, ?_⟩
  have howned := (not_or.mp h1).1
  refine CatalogChange.setScope hok hscope ?_ fun t ht => Or.inl ?_
  · rw [UInt64.lt_iff_toNat_lt, toNat_succ h3]
    exact Nat.lt_succ_self _
  · rw [ht]
    exact ⟨howned, hown scope hscope howned⟩

variable {readable : ObjectId → Bool}

/-- **Inversion** of a local operation on a state. -/
theorem mutate_effect {operation : ReplicaOperation}
    (h : mutate r m id operation readable fate = (result, r', m')) :
    (Unmoved r m r' m' ∧ ((r.checked m).halted = true ∨ ¬ Landed result fate)) ∨
      ∃ scope ∈ r.catalog, ∃ state state', scope.id = id ∧
        loadState m readable scope = some state ∧
        operation.apply state r.localNode = some state' ∧
        Writes r m r' m' none (some (scope, state')) ∧ (r.checked m).halted = false ∧
        Landed result fate := by
  unfold mutate at h
  dsimp only at h
  rcases checked_cases r m with ⟨heq, hr, hm⟩ | ⟨hhalted, hidle⟩
  swap
  · rw [if_pos hhalted] at h
    cases h
    exact Or.inl ⟨hidle, Or.inl hhalted⟩
  rw [heq, hr, if_neg Bool.false_ne_true] at h
  rw [heq]
  split at h
  · exact Or.inl ⟨unmoved_of_eq h, Or.inr (not_landed_of_rejected h)⟩
  rename_i scope hfind
  obtain ⟨hscope, rfl⟩ := Replica.findScope_some hfind
  split_ifs at h
  · exact Or.inl ⟨unmoved_of_eq h, Or.inr (not_landed_of_rejected h)⟩
  split at h
  · exact Or.inl ⟨unmoved_of_eq h, Or.inr (not_landed_of_rejected h)⟩
  rename_i state hload
  split at h
  · exact Or.inl ⟨unmoved_of_eq h, Or.inr (not_landed_of_rejected h)⟩
  rename_i state' happly
  rcases publish_effect hr hm _ _ _ h with ⟨hidle, hnot⟩ | ⟨hwrites, hlanded⟩
  · exact Or.inl ⟨hidle, Or.inr hnot⟩
  · exact Or.inr ⟨scope, hscope, state, state', rfl, hload, happly, hwrites, hr, hlanded⟩

/-! ### Packets -/

theorem advance_fields (r : Replica) : r.advance.catalog = r.catalog ∧
    r.advance.halted = r.halted ∧ SameIdentity r r.advance := by
  unfold Replica.advance
  split_ifs <;> exact ⟨rfl, rfl, rfl, rfl, rfl, rfl, rfl⟩

theorem Replica.advance_cursor (h : r.cursor < r.catalog.length) :
    r.advance.cursor < r.catalog.length := by
  unfold Replica.advance
  split_ifs with hend
  · exact Nat.zero_lt_of_lt h
  · change r.cursor + 1 < _
    omega

theorem Replica.advance_iterate (r : Replica) : ∀ k, (Replica.advance^[k] r).catalog = r.catalog ∧
    (Replica.advance^[k] r).halted = r.halted ∧ SameIdentity r (Replica.advance^[k] r) ∧
    (r.cursor < r.catalog.length → (Replica.advance^[k] r).cursor < r.catalog.length)
  | 0 => ⟨rfl, rfl, SameIdentity.refl r, id⟩
  | k + 1 => by
    obtain ⟨hcatalog, hhalted, hidentity, hcursor⟩ := Replica.advance_iterate r k
    obtain ⟨hcatalog', hhalted', hidentity'⟩ := advance_fields (Replica.advance^[k] r)
    rw [Function.iterate_succ_apply']
    refine ⟨hcatalog'.trans hcatalog, hhalted'.trans hhalted, hidentity.trans hidentity',
      fun h => ?_⟩
    have hnext := Replica.advance_cursor (hcatalog.symm ▸ hcursor h)
    rwa [hcatalog] at hnext

/-- What a replica sends of its own accord: a grant of a scope it owns, or a summary. -/
inductive Announces (crypto : Crypto) (m : ObjectMap) (readable : ObjectId → Bool) (r : Replica) :
    Packet → Prop
  | grant (scope : ReplicaScope) : scope ∈ r.catalog → scope.owned ≠ 0 →
      Announces crypto m readable r (netMessageGrant, messageHeader scope netMessageGrant)
  | summary (scope : ReplicaScope) (state : NetCrdt) : scope ∈ r.catalog →
      loadState m readable scope = some state → state.valid = true →
      Announces crypto m readable r
        (netMessageSummary, summaryBody crypto scope state state.bytes)

/-- The loop of `replica_next_packet` only moves the cursor on, and what it sends it announces. -/
theorem nextPacketLoop_effect {crypto : Crypto} {m : ObjectMap} {readable : ObjectId → Bool}
    {sealOk : Bool} : ∀ {tries : Nat} {r r' : Replica} {packet : Option Packet},
    nextPacketLoop crypto m readable sealOk tries r = (packet, r') →
      (∃ k, r' = Replica.advance^[k] r) ∧ ∀ p ∈ packet, Announces crypto m readable r p
  | 0, r, r', packet, h => by
    cases h
    exact ⟨⟨0, rfl⟩, fun p hp => by cases hp⟩
  | tries + 1, r, r', packet, h => by
    have hstay : (∃ k, r = Replica.advance^[k] r) ∧
        ∀ p ∈ (none : Option Packet), Announces crypto m readable r p :=
      ⟨⟨0, rfl⟩, fun p hp => by cases hp⟩
    unfold nextPacketLoop at h
    split at h
    · cases h
      exact hstay
    rename_i scope hat
    have hscope : scope ∈ r.catalog := List.mem_of_getElem? hat
    split at h
    · rename_i h1
      split_ifs at h
      · cases h
        refine ⟨⟨1, rfl⟩, fun p hp => ?_⟩
        obtain rfl := Option.some.inj hp
        exact .grant scope hscope h1.2.1
      · cases h
        exact hstay
    split at h
    · split at h
      · cases h
        exact hstay
      rename_i state hload
      split at h
      · cases h
        exact hstay
      rename_i bytes hencode
      obtain ⟨hvalid, rfl⟩ := netCrdtEncode_eq_some.mp hencode
      split_ifs at h
      · cases h
        refine ⟨⟨1, rfl⟩, fun p hp => ?_⟩
        obtain rfl := Option.some.inj hp
        exact .summary scope state hscope hload hvalid
      · cases h
        exact hstay
    · obtain ⟨⟨k, hk⟩, hsent⟩ := nextPacketLoop_effect h
      have hcatalog := (advance_fields r).1
      refine ⟨⟨k + 1, hk⟩, fun p hp => ?_⟩
      cases hsent p hp with
      | grant scope hmem howned => exact .grant scope (hcatalog ▸ hmem) howned
      | summary scope state hmem hload hvalid =>
        exact .summary scope state (hcatalog ▸ hmem) hload hvalid

/-- **Inversion** of `replica_next_packet`. -/
theorem replicaNextPacket_effect {crypto : Crypto} {active sealOk : Bool} {packet : Option Packet}
    (h : replicaNextPacket crypto r m readable active sealOk = (packet, r')) :
    Idle r m r' m ∧ (r.cursor < r.catalog.length → r'.cursor < r.catalog.length) ∧
      ∀ p ∈ packet, (r.halted = false ∧ m.requiresRecovery = false) ∧
        Announces crypto m readable r p := by
  unfold replicaNextPacket at h
  dsimp only at h
  rcases checked_cases r m with ⟨heq, hr, hm⟩ | ⟨hhalted, hidle⟩
  · rw [heq] at h
    split_ifs at h with h1
    · cases h
      exact ⟨(Unmoved.refl r m).toIdle, id, fun p hp => by cases hp⟩
    · obtain ⟨⟨k, rfl⟩, hsent⟩ := nextPacketLoop_effect h
      obtain ⟨hcatalog, hhalted, hidentity, hcursor⟩ := r.advance_iterate k
      exact ⟨⟨rfl, hcatalog, hidentity, fun h' _ => ⟨hhalted.symm.trans h', hm⟩⟩, hcursor,
        fun p hp => ⟨⟨hr, hm⟩, hsent p hp⟩⟩
  · rw [if_pos (Or.inl hhalted)] at h
    cases h
    exact ⟨hidle.toIdle, fun hlt => hidle.cursor ▸ hlt, fun p hp => by cases hp⟩

theorem kind_of_replicaMessageDecode {body : List UInt8} {kind : UInt32} {message : ReplicaMessage}
    (h : replicaMessageDecode body kind = some message) :
    kind = netMessageSummary ∨ kind = netMessageUpdate ∨ kind = netMessageGrant := by
  refine kind_of_messageLength (n := body.length) ?_
  by_contra hne
  unfold replicaMessageDecode at h
  rw [if_pos hne] at h
  cases h

/-- A later epoch of a scope is recorded. -/
structure Regrants (r : Replica) (m : ObjectMap) (r' : Replica) (m' : ObjectMap)
    (opened : Option Packet) (scope : ReplicaScope) (epoch : UInt64) (rights : UInt32) : Prop where
  mem : scope ∈ r.catalog
  newer : scope.epoch < epoch
  writes : Writes r m r' m' (some (setScope scope.id epoch rights r.catalog)) none
  change : CatalogChange r opened (setScope scope.id epoch rights r.catalog)

/-- **Inversion** of a grant from the peer. -/
theorem acceptGrant_effect (hr : r.halted = false) (hm : m.requiresRecovery = false)
    (hok : CatalogOk r.catalog) {packet : Packet} {message : ReplicaMessage}
    (hkind : packet.1 = netMessageGrant)
    (hdecode : replicaMessageDecode packet.2 packet.1 = some message)
    (h : acceptGrant r m message fate = (result, r', m')) :
    Unmoved r m r' m' ∨ (∃ scope, scope.id = message.id ∧
        Regrants r m r' m' (some packet) scope message.epoch message.rights) ∨
      ∃ scope state, AddsScope r m r' m' (some packet) scope state := by
  unfold acceptGrant at h
  by_cases hne : message.id.high ≠ r.peerNamespace
  · rw [if_pos hne] at h
    exact Or.inl (unmoved_of_eq h)
  have hhigh := not_not.mp hne
  rw [if_neg hne] at h
  cases hfind : r.findScope message.id with
  | some scope =>
    rw [hfind] at h
    dsimp only at h
    obtain ⟨hscope, hid⟩ := Replica.findScope_some hfind
    split_ifs at h with h1 h2 h3
    · exact Or.inl (unmoved_of_eq h)
    · exact Or.inl (unmoved_of_eq h)
    · exact Or.inl (unmoved_of_eq h)
    simp only [not_or, not_not, UInt64.not_lt] at h1
    have hnewer : scope.epoch < message.epoch :=
      UInt64.lt_of_le_of_ne h1.2.2 fun heq => h2 heq.symm
    rcases publish_effect hr hm _ _ _ h with ⟨hidle, -⟩ | ⟨hwrites, -⟩
    · exact Or.inl hidle
    rw [← hid] at hwrites
    refine Or.inr (Or.inl ⟨scope, hid, hscope, hnewer, hwrites, ?_⟩)
    refine CatalogChange.setScope hok hscope hnewer fun t ht => Or.inr ?_
    rw [ht]
    exact ⟨h1.1, hid ▸ hhigh, packet, rfl, hkind, message, hdecode, hid, rfl, h1.2.1, rfl⟩
  | none =>
    rw [hfind] at h
    dsimp only at h
    split_ifs at h with h1 h2
    · exact Or.inl (unmoved_of_eq h)
    · exact Or.inl (unmoved_of_eq h)
    split at h
    · exact Or.inl (unmoved_of_eq h)
    rename_i state hinit
    rcases publish_effect hr hm _ _ _ h with ⟨hidle, -⟩ | ⟨hwrites, -⟩
    · exact Or.inl hidle
    refine Or.inr (Or.inr ⟨_, state, hwrites, ?_, ?_, hinit⟩)
    · exact CatalogChange.append (Or.inr ⟨rfl, hhigh, packet, rfl, hkind, message, hdecode,
        rfl, rfl, rfl, rfl⟩)
    · exact Option.not_isSome_iff_eq_none.mp fun hsome => h2 (Or.inr hsome)

/-- **Inversion** of an update: the remote state is merged into the local one, which may have been
there already. -/
theorem receiveUpdate_effect (hr : r.halted = false) (hm : m.requiresRecovery = false)
    {state : NetCrdt} {body : List UInt8}
    (h : receiveUpdate r m scope state state.bytes body fate = (result, r', m')) :
    (Unmoved r m r' m' ∧ ¬ Landed result fate) ∨
      ∃ remote merged, netCrdtDecode (body.drop 32) = some remote ∧
        netCrdtMerge state remote = some merged ∧ merged.valid = true ∧ Landed result fate ∧
        ((Unmoved r m r' m' ∧ merged.bytes = state.bytes) ∨
          Writes r m r' m' none (some (scope, merged))) := by
  unfold receiveUpdate at h
  split at h
  · exact Or.inl ⟨unmoved_of_eq h, not_landed_of_rejected h⟩
  rename_i remote hremote
  split_ifs at h
  · exact Or.inl ⟨unmoved_of_eq h, not_landed_of_rejected h⟩
  split at h
  · exact Or.inl ⟨unmoved_of_eq h, not_landed_of_rejected h⟩
  rename_i merged hmerge
  split at h
  · exact Or.inl ⟨unmoved_of_eq h, not_landed_of_rejected h⟩
  rename_i next hencode
  obtain ⟨hvalid, rfl⟩ := netCrdtEncode_eq_some.mp hencode
  split_ifs at h with h2
  · cases h
    exact Or.inr ⟨remote, merged, hremote, hmerge, hvalid, Or.inl rfl,
      Or.inl ⟨Unmoved.refl r m, h2.symm⟩⟩
  · rcases publish_effect hr hm _ _ _ h with ⟨hidle, hnot⟩ | ⟨hwrites, hlanded⟩
    · exact Or.inl ⟨hidle, hnot⟩
    · exact Or.inr ⟨remote, merged, hremote, hmerge, hvalid, hlanded, Or.inr hwrites⟩

/-- What a replica does with a packet it has opened. -/
inductive Receives (crypto : Crypto) (r : Replica) (m : ObjectMap) (packet : Packet)
    (readable : ObjectId → Bool) (fate : CommitFate) (result : ReplicaResult) (r' : Replica)
    (m' : ObjectMap) (reply : Option Packet) : Prop
  /-- Nothing changes and nothing is merged. -/
  | idle : Unmoved r m r' m' →
      ((r.checked m).halted = true ∨ packet.1 ≠ netMessageUpdate ∨ ¬ Landed result fate) →
      reply = none → Receives crypto r m packet readable fate result r' m' reply
  | regrant (scope : ReplicaScope) (message : ReplicaMessage) : packet.1 = netMessageGrant →
      replicaMessageDecode packet.2 packet.1 = some message → scope.id = message.id →
      Regrants r m r' m' (some packet) scope message.epoch message.rights → reply = none →
      Receives crypto r m packet readable fate result r' m' reply
  | add (scope : ReplicaScope) (state : NetCrdt) : packet.1 = netMessageGrant →
      AddsScope r m r' m' (some packet) scope state → reply = none →
      Receives crypto r m packet readable fate result r' m' reply
  | merge (scope : ReplicaScope) (message : ReplicaMessage) (state remote merged : NetCrdt) :
      packet.1 = netMessageUpdate → replicaMessageDecode packet.2 packet.1 = some message →
      scope ∈ r.catalog → scope.id = message.id → scope.kind = message.kind →
      scope.epoch = message.epoch → canReceive scope = true →
      loadState m readable scope = some state → state.valid = true →
      netCrdtDecode (packet.2.drop 32) = some remote → netCrdtMerge state remote = some merged →
      merged.valid = true → (r.checked m).halted = false → Landed result fate →
      (Unmoved r m r' m' ∧ merged.bytes = state.bytes ∨
        Writes r m r' m' none (some (scope, merged))) → reply = none →
      Receives crypto r m packet readable fate result r' m' reply
  | answer (scope : ReplicaScope) (message : ReplicaMessage) (state : NetCrdt) :
      packet.1 = netMessageSummary → replicaMessageDecode packet.2 packet.1 = some message →
      scope ∈ r.catalog → scope.id = message.id → scope.epoch = message.epoch →
      loadState m readable scope = some state → state.valid = true →
      r.halted = false ∧ m.requiresRecovery = false →
      reply = summaryReply crypto scope state state.bytes message → r' = r → m' = m →
      Receives crypto r m packet readable fate result r' m' reply

/-- **Inversion** of `replica_receive`. -/
theorem replicaReceive_effect {crypto : Crypto} (hok : CatalogOk r.catalog) {packet : Packet}
    {reply : Option Packet}
    (h : replicaReceive crypto r m (some packet) readable fate = (result, r', m', reply)) :
    Receives crypto r m packet readable fate result r' m' reply := by
  unfold replicaReceive at h
  dsimp only at h
  rcases checked_cases r m with ⟨heq, hr, hm⟩ | ⟨hhalted, hidle⟩
  swap
  · rw [if_pos hhalted] at h
    cases h
    exact .idle hidle (Or.inl hhalted) rfl
  have hchecked : (r.checked m).halted = false := by rw [heq]; exact hr
  -- a packet that is refused
  have hrejected : (.rejected, r, m, none) = (result, r', m', reply) →
      Receives crypto r m packet readable fate result r' m' reply := by
    intro h
    have hnot : ¬ Landed result fate := not_landed_of_rejected h
    cases h
    exact .idle (Unmoved.refl r m) (Or.inr (Or.inr hnot)) rfl
  rw [heq, hr, if_neg Bool.false_ne_true] at h
  split at h
  · exact hrejected h
  rename_i message hdecode
  by_cases hgrant : packet.1 = netMessageGrant
  · rw [if_pos hgrant] at h
    have hne : packet.1 ≠ netMessageUpdate := by
      rw [hgrant]
      decide
    rcases hcall : acceptGrant r m message fate with ⟨result1, r1, m1⟩
    rw [hcall] at h
    cases h
    rcases acceptGrant_effect hr hm hok hgrant hdecode hcall with
      hidle | ⟨scope, hid, hregrants⟩ | ⟨scope, state, hadds⟩
    · exact .idle hidle (Or.inr (Or.inl hne)) rfl
    · exact .regrant scope message hgrant hdecode hid hregrants rfl
    · exact .add scope state hgrant hadds rfl
  rw [if_neg hgrant] at h
  split at h
  · exact hrejected h
  rename_i scope hfind
  obtain ⟨hscope, hid⟩ := Replica.findScope_some hfind
  by_cases hcheck : scope.kind ≠ message.kind ∨ scope.epoch ≠ message.epoch ∨
      (if packet.1 = netMessageUpdate then !canReceive scope else scope.rights = 0)
  · rw [if_pos hcheck] at h
    exact hrejected h
  rw [if_neg hcheck] at h
  simp only [not_or, not_not] at hcheck
  obtain ⟨hkind, hepoch, hrights⟩ := hcheck
  split at h
  · exact hrejected h
  rename_i state hload
  split at h
  · exact hrejected h
  rename_i bytes hencode
  obtain ⟨hvalid, rfl⟩ := netCrdtEncode_eq_some.mp hencode
  by_cases hupdate : packet.1 = netMessageUpdate
  · rw [if_pos hupdate] at h hrights
    have hreceive : canReceive scope = true := by simpa using hrights
    rcases hcall : receiveUpdate r m scope state state.bytes packet.2 fate with ⟨result1, r1, m1⟩
    rw [hcall] at h
    cases h
    rcases receiveUpdate_effect hr hm hcall with
      ⟨hidle, hnot⟩ | ⟨remote, merged, hremote, hmerge, hmvalid, hlanded, hcases⟩
    · exact .idle hidle (Or.inr (Or.inr hnot)) rfl
    · exact .merge scope message state remote merged hupdate hdecode hscope hid hkind
        hepoch hreceive hload hvalid hremote hmerge hmvalid hchecked hlanded hcases rfl
  rw [if_neg hupdate] at h
  cases h
  have hsummary : packet.1 = netMessageSummary := by
    rcases kind_of_replicaMessageDecode hdecode with hk | hk | hk
    · exact hk
    · exact absurd hk hupdate
    · exact absurd hk hgrant
  exact .answer scope message state hsummary hdecode hscope hid hepoch hload hvalid
    ⟨hr, hm⟩ rfl rfl rfl

/-! ### A healthy replica -/

section Healthy

variable {crypto : Crypto} {r : Replica} {m : ObjectMap} {packet : Packet}
  {message : ReplicaMessage} {scope : ReplicaScope} {state : NetCrdt}
  {readable : ObjectId → Bool} {fate : CommitFate}

theorem checked_of_healthy (hr : r.halted = false) (hm : m.requiresRecovery = false) :
    r.checked m = r := by
  unfold Replica.checked
  rw [if_neg (by rw [hr]; decide), hm, ← hr]

theorem netCrdtEncode_of_valid (h : state.valid = true) : netCrdtEncode state = some state.bytes :=
  netCrdtEncode_eq_some.mpr ⟨h, rfl⟩

/-- Publishing a valid state in a healthy store commits it. -/
theorem publish_commit (hm : m.requiresRecovery = false) (hscope : scopeValid scope = true)
    (hvalid : state.valid = true) (hkind : state.kind = scope.kind) :
    ∃ m', publish r m none (some (scope, state)) .commit = (.accepted, r, m') ∧
      StoredAs m' scope state := by
  have hrequests : publishRequests r none (some (scope, state)) =
      some [stateRequest r scope state state.bytes] := by
    have hstates : stateRequests r (some (scope, state)) =
        some [stateRequest r scope state state.bytes] := by
      unfold stateRequests
      dsimp only
      rw [netCrdtEncode_of_valid hvalid]
      rfl
    unfold publishRequests
    rw [hstates]
    rfl
  have htype : (stateRequest r scope state state.bytes).typeId ≠ ⟨0, 0⟩ := by
    intro heq
    have hlow : replicaTypeBase + scope.kind.toUInt64 = 0 := congrArg ObjectId.low heq
    rcases NetCrdt.kind_of_valid hvalid with h1 | h2
    · rw [← hkind, h1] at hlow
      exact absurd hlow (by decide)
    · rw [← hkind, h2] at hlow
      exact absurd hlow (by decide)
  have hbatch : m.batchOk [stateRequest r scope state state.bytes] = true := by
    refine ObjectMap.batchOk_iff.mpr ⟨by simp, by simp [objectStorePutBatchMax], hm, ?_, by simp⟩
    intro request hrequest
    rw [List.mem_singleton.mp hrequest]
    exact ⟨(scopeValid.id_ne hscope).2, htype⟩
  refine ⟨m.write [stateRequest r scope state state.bytes], ?_, ?_⟩
  · unfold publish
    rw [hrequests]
    dsimp only
    rw [ObjectMap.putMany, if_pos hbatch]
    rfl
  · refine (publishRequests_holds hrequests m (by simp) rfl).state_stored _ rfl hkind ?_
    exact (scopeValid.id_ne hscope).1

section Packet

variable (hr : r.halted = false) (hm : m.requiresRecovery = false)
  (hdecode : replicaMessageDecode packet.2 packet.1 = some message)
  (hfind : r.findScope message.id = some scope) (hkind : scope.kind = message.kind)
  (hepoch : scope.epoch = message.epoch) (hload : loadState m readable scope = some state)
  (hvalid : state.valid = true)

include hr hm hdecode hfind hkind hepoch hload hvalid

theorem replicaReceive_summary (hsummary : packet.1 = netMessageSummary)
    (hrights : scope.rights ≠ 0) : replicaReceive crypto r m (some packet) readable fate =
      (.accepted, r, m, summaryReply crypto scope state state.bytes message) := by
  obtain ⟨kind, body⟩ := packet
  obtain rfl : kind = netMessageSummary := hsummary
  unfold replicaReceive
  dsimp only at hdecode ⊢
  rw [checked_of_healthy hr hm, if_neg (by rw [hr]; decide), hdecode]
  dsimp only
  rw [if_neg (by decide : ¬ netMessageSummary = netMessageGrant), hfind]
  dsimp only
  have hcond : ¬ (scope.kind ≠ message.kind ∨ scope.epoch ≠ message.epoch ∨
      (if netMessageSummary = netMessageUpdate then !canReceive scope
        else decide (scope.rights = 0)) = true) := by
    rw [if_neg (by decide : ¬ netMessageSummary = netMessageUpdate)]
    rintro (h | h | h)
    · exact h hkind
    · exact h hepoch
    · exact hrights (of_decide_eq_true h)
  rw [if_neg hcond, hload]
  dsimp only
  rw [netCrdtEncode_of_valid hvalid]
  rfl

/-- A healthy replica merges an update, if the merge succeeds and the device lets it. -/
theorem replicaReceive_update {remote merged : NetCrdt} (hupdate : packet.1 = netMessageUpdate)
    (hscope : scopeValid scope = true) (hreceive : canReceive scope = true)
    (hremote : netCrdtDecode (packet.2.drop 32) = some remote)
      (hremoteKind : remote.kind = state.kind)
    (hmerge : netCrdtMerge state remote = some merged) (hmerged : merged.valid = true)
    (hmergedKind : merged.kind = state.kind) :
    ∃ r' m', replicaReceive crypto r m (some packet) readable .commit =
      (.accepted, r', m', none) ∧ stateAt m' scope.id = some merged := by
  obtain ⟨kind, body⟩ := packet
  obtain rfl : kind = netMessageUpdate := hupdate
  obtain ⟨hstate, hstateKind⟩ := loadState_some hload
  have hcond : ¬ (scope.kind ≠ message.kind ∨ scope.epoch ≠ message.epoch ∨
      (if netMessageUpdate = netMessageUpdate then !canReceive scope
        else decide (scope.rights = 0)) = true) := by
    rw [if_pos rfl, hreceive]
    rintro (h | h | h)
    · exact h hkind
    · exact h hepoch
    · cases h
  have hreplica : replicaReceive crypto r m (some (netMessageUpdate, body)) readable .commit =
      ((receiveUpdate r m scope state state.bytes body .commit).1,
        (receiveUpdate r m scope state state.bytes body .commit).2.1,
        (receiveUpdate r m scope state state.bytes body .commit).2.2, none) := by
    unfold replicaReceive
    dsimp only at hdecode ⊢
    rw [checked_of_healthy hr hm, if_neg (by rw [hr]; decide), hdecode]
    dsimp only
    rw [if_neg (by decide : ¬ netMessageUpdate = netMessageGrant), hfind]
    dsimp only
    rw [if_neg hcond, hload]
    dsimp only
    rw [netCrdtEncode_of_valid hvalid]
    rfl
  rw [hreplica]
  unfold receiveUpdate
  dsimp only at hremote
  rw [hremote]
  dsimp only
  rw [if_neg (not_not.mpr hremoteKind), hmerge]
  dsimp only
  rw [netCrdtEncode_of_valid hmerged]
  dsimp only
  by_cases hsame : state.bytes = merged.bytes
  · rw [if_pos hsame]
    refine ⟨r, m, rfl, ?_⟩
    have heq := netCrdtDecode_bytes hmerged
    rw [← hsame, netCrdtDecode_bytes hvalid] at heq
    rw [hstate, heq]
  · rw [if_neg hsame]
    obtain ⟨m', hpublish, hstored⟩ := @publish_commit r m scope merged hm hscope hmerged
      (hmergedKind.trans hstateKind)
    rw [hpublish]
    exact ⟨r, m', rfl, hstored.stateAt_eq⟩

end Packet

end Healthy

end Jani
