import Jani.Net.Equiv.Canonical
import Jani.Net.Equiv.StateStep

/-!
# Open replicas

What holds of an open replica, whatever the store it was opened on: its catalog is valid, its cursor
is in the catalog, and while neither it nor the store has failed every scope has its state in the
store (`InService`).  `replica_open` checks all this, so nothing is assumed of the store before.
-/

namespace Jani

/-! ### Open replicas -/

variable {scope : ReplicaScope} {state : NetCrdt}

/-- A state that can be loaded is stored: a byte string is read as one state only. -/
theorem StoredAs.of_loadState {m : ObjectMap} {readable : ObjectId → Bool}
    (h : loadState m readable scope = some state) : StoredAs m scope state := by
  obtain ⟨hstate, hkind⟩ := loadState_some h
  unfold loadState at h
  split at h
  · cases h
  rename_i o hget
  have hfind := ObjectMap.get_eq_some hget
  unfold stateAt at hstate
  rw [hfind, Option.bind_some] at hstate
  split_ifs at h with htype
  obtain ⟨hhigh, hlow⟩ := not_or.mp htype
  refine ⟨⟨o, hfind, (bytes_of_netCrdtDecode hstate).symm, ?_⟩, valid_of_netCrdtDecode hstate,
    hkind⟩
  exact ObjectId.ext (not_not.mp hhigh) (not_not.mp hlow)

section InService

variable (crypto : Crypto) (localKey peerKey : Block 32)

/-- What holds of an open replica and its store. -/
structure InService (m : ObjectMap) (r : Replica) : Prop where
  identified : r.Identified crypto localKey peerKey
  catalog_ok : CatalogOk r.catalog
  owner : ∀ s ∈ r.catalog, s.id.high = if s.owned ≠ 0 then r.localNamespace else r.peerNamespace
  cursor_lt : r.catalog ≠ [] → r.cursor < r.catalog.length
  stored : r.halted = false → m.requiresRecovery = false →
    ∀ s ∈ r.catalog, ∃ state, StoredAs m s state

variable {crypto localKey peerKey} {m m' : ObjectMap} {r r' : Replica}

theorem TurnKept.cursor_lt (h : TurnKept r r')
    (hcursor : r.catalog ≠ [] → r.cursor < r.catalog.length) (hne : r'.catalog ≠ []) :
    r'.cursor < r'.catalog.length := by
  rcases h with ⟨hcatalog, heq, -⟩ | ⟨-, hlt⟩
  · rw [hcatalog] at hne ⊢
    rw [heq]
    exact hcursor hne
  · exact hlt

section

variable (h : InService crypto localKey peerKey m r)

include h

theorem InService.of_idle (hidle : Idle r m r' m')
    (hcursor : r'.catalog ≠ [] → r'.cursor < r'.catalog.length) :
    InService crypto localKey peerKey m' r' := by
  refine ⟨h.identified.of_same hidle.identity, hidle.catalog ▸ h.catalog_ok, fun s hs => ?_,
    hcursor, fun hr hm s hs => ?_⟩
  · rw [hidle.identity.localNamespace, hidle.identity.peerNamespace]
    exact h.owner s (hidle.catalog ▸ hs)
  · obtain ⟨hr, hm⟩ := hidle.healthy hr hm
    obtain ⟨state, hstate⟩ := h.stored hr hm s (hidle.catalog ▸ hs)
    exact ⟨state, hstate.congr (ObjectMap.find_congr hidle.entries _)⟩

theorem InService.of_unmoved (hidle : Unmoved r m r' m') :
    InService crypto localKey peerKey m' r' ∧ TurnKept r r' :=
  ⟨h.of_idle hidle.toIdle (hidle.turnKept.cursor_lt h.cursor_lt), hidle.turnKept⟩

/-- A written batch keeps the replica in service. -/
theorem InService.of_writes {catalog : Option ReplicaCatalog}
    {state : Option (ReplicaScope × NetCrdt)} (hwrites : Writes r m r' m' catalog state)
    (hbatch : BatchOk r m catalog state)
    (hchange : ∀ c ∈ catalog, ∃ opened, CatalogChange r opened c) (hturn : TurnKept r r') :
    InService crypto localKey peerKey m' r' := by
  have hstored := h.stored hwrites.healthy.1 hwrites.healthy.2
  have hkept : ∀ s ∈ r.catalog, ∃ x, StoredAs m' s x := fun s hs =>
    hwrites.stored_kept hbatch hstored (hstored s hs)
      (scopeValid.id_ne (h.catalog_ok.valid s hs)).1
  have hcursor := hturn.cursor_lt h.cursor_lt
  have hidentified := h.identified.of_same hwrites.identity
  have hkeeps : r'.catalog = r.catalog → InService crypto localKey peerKey m' r' := by
    intro heq
    refine ⟨hidentified, heq ▸ h.catalog_ok, fun s hs => ?_, hcursor, fun _ _ s hs => ?_⟩
    · rw [hwrites.identity.localNamespace, hwrites.identity.peerNamespace]
      exact h.owner s (heq ▸ hs)
    · exact hkept s (heq ▸ hs)
  rcases hwrites.outcome with ⟨heq, -, -⟩ | ⟨heq, -, -⟩
  · cases catalog with
    | none => exact hkeeps heq
    | some c =>
      obtain ⟨hok, -⟩ := hwrites.holds.catalog_ok c rfl
      obtain ⟨opened, hchange⟩ := hchange c rfl
      replace heq : r'.catalog = c := heq
      refine ⟨hidentified, heq ▸ hok, fun t ht => ?_, hcursor, fun _ _ t ht => ?_⟩
      · rw [hwrites.identity.localNamespace, hwrites.identity.peerNamespace]
        rcases hchange.origin t (heq ▸ ht) with hold | ⟨howned, hhigh⟩ | ⟨howned, hhigh, -⟩
        · exact h.owner t hold
        · rw [if_pos howned, hhigh]
        · rw [if_neg (not_not.mpr howned), hhigh]
      · exact hwrites.stored_catalog hbatch h.catalog_ok hstored rfl (heq ▸ ht)
  · exact hkeeps heq

theorem InService.of_adds {opened : Option Packet}
    (hadds : AddsScope r m r' m' opened scope state) :
    InService crypto localKey peerKey m' r' ∧ TurnKept r r' := by
  have hturn := hadds.writes.turn fun c hc => by
    obtain rfl := Option.some.inj hc
    rw [List.length_append]
    exact Nat.le_add_right _ _
  exact ⟨h.of_writes hadds.writes (BatchOk.of_adds hadds)
    (fun _ hc => ⟨opened, Option.some.inj hc ▸ hadds.change⟩) hturn, hturn⟩

theorem InService.of_setScope {opened : Option Packet} {id : ObjectId} {epoch : UInt64}
    {rights : UInt32} (hwrites : Writes r m r' m' (some (setScope id epoch rights r.catalog)) none)
    (hchange : CatalogChange r opened (setScope id epoch rights r.catalog)) :
    InService crypto localKey peerKey m' r' ∧ TurnKept r r' := by
  have hturn := hwrites.turn fun c hc => by
    obtain rfl := Option.some.inj hc
    exact Nat.le_of_eq (List.length_map _).symm
  exact ⟨h.of_writes hwrites (BatchOk.of_setScope _ _ _ _)
    (fun _ hc => ⟨opened, Option.some.inj hc ▸ hchange⟩) hturn, hturn⟩

theorem InService.of_state (hscope : scope ∈ r.catalog) (hkind : state.kind = scope.kind)
    (hwrites : Writes r m r' m' none (some (scope, state))) :
    InService crypto localKey peerKey m' r' ∧ TurnKept r r' := by
  have hturn := hwrites.turn fun c hc => by cases hc
  exact ⟨h.of_writes hwrites (BatchOk.of_state h.catalog_ok hscope hkind)
    (fun c hc => by cases hc) hturn, hturn⟩

end

/-- **A replica that is opened** is in service, whatever the store held. -/
theorem replicaOpen_inService {readable : ObjectId → Bool} {fate : CommitFate}
    {result : ReplicaResult}
    (h : replicaOpen crypto localKey peerKey m readable fate = (result, some r, m')) :
    InService crypto localKey peerKey m' r := by
  have heffect := replicaOpen_effect h
  have hempty : r.catalog = [] → r.Identified crypto localKey peerKey →
      InService crypto localKey peerKey m' r := by
    intro hnil hid
    have hnone : ∀ s, s ∉ r.catalog := fun s hs => by
      rw [hnil] at hs
      exact List.not_mem_nil hs
    exact ⟨hid, hnil ▸ catalogValid_iff.mp rfl, fun s hs => absurd hs (hnone s),
      fun hne => absurd hnil hne, fun _ _ s hs => absurd hs (hnone s)⟩
  cases heffect with
  | created r0 hid hfind hholds hopened hrecovery =>
    obtain ⟨hnil, -, hsame, -⟩ := hopened r rfl
    exact hempty hnil (hid.of_same hsame)
  | found _ hid hhalted hm hstored howner =>
    have hok : CatalogOk r.catalog := by
      unfold storedCatalog at hstored
      obtain ⟨o, -, hdecode⟩ := Option.bind_eq_some_iff.mp hstored
      exact CatalogOk.of_decode hdecode
    -- the loop of `replica_open` has loaded every state
    have hloaded : r.cursor = 0 ∧ ∀ s ∈ r.catalog, (loadState m readable s).isSome = true := by
      obtain ⟨o, hfind, hdecode⟩ := Option.bind_eq_some_iff.mp hstored
      unfold replicaOpen at h
      rw [if_neg (by rw [hm]; exact Bool.false_ne_true)] at h
      dsimp only at h
      generalize (if keyLess localKey.bytes peerKey.bytes then (0 : UInt32) else 1) = node at h
      split at h
      · cases h
      rw [if_pos (by rw [hfind]; rfl)] at h
      cases hget : m.get readable replicaMetaId with
      | none =>
        rw [hget] at h
        cases h
      | some object =>
        rw [hget] at h
        obtain rfl : object = o := Option.some.inj ((ObjectMap.get_eq_some hget).symm.trans hfind)
        dsimp only at h
        rw [hdecode] at h
        dsimp only at h
        split_ifs at h with htype hload
        · cases h
        · have hr : _ = r := Option.some.inj (Prod.mk.inj (Prod.mk.inj h).2).1
          refine ⟨by rw [← hr], fun s hs => ?_⟩
          exact (of_decide_eq_true (List.all_eq_true.mp hload s hs)).2
        · cases h
    refine ⟨hid, hok, howner, fun hne => ?_, fun _ _ s hs => ?_⟩
    · rw [hloaded.1]
      exact List.length_pos_of_ne_nil hne
    · obtain ⟨state, hstate⟩ := Option.isSome_iff_exists.mp (hloaded.2 s hs)
      exact ⟨state, StoredAs.of_loadState hstate⟩

/-! ### Calls -/

variable (h : InService crypto localKey peerKey m r)

include h

theorem InService.create (sequence : UInt64) (kind : UInt32) (fate : CommitFate) :
    InService crypto localKey peerKey (replicaCreate r m sequence kind fate).2.2
        (replicaCreate r m sequence kind fate).2.1 ∧
      TurnKept r (replicaCreate r m sequence kind fate).2.1 := by
  rcases @replicaCreate_effect r _ _ m _ fate sequence kind rfl with
    hidle | ⟨scope, state, hadds⟩
  · exact h.of_unmoved hidle
  · exact h.of_adds hadds

theorem InService.share (id : ObjectId) (rights : UInt32) (fate : CommitFate) :
    InService crypto localKey peerKey (replicaShare r m id rights fate).2.2
        (replicaShare r m id rights fate).2.1 ∧
      TurnKept r (replicaShare r m id rights fate).2.1 := by
  have hown : ∀ s ∈ r.catalog, s.owned ≠ 0 → s.id.high = r.localNamespace := by
    intro s hs howned
    rw [h.owner s hs, if_pos howned]
  rcases @replicaShare_effect r _ _ m _ fate id h.catalog_ok hown rights rfl with
    hidle | ⟨scope, hscope, epoch, -, hwrites, hchange⟩
  · exact h.of_unmoved hidle
  · exact h.of_setScope hwrites hchange

theorem InService.mutate (id : ObjectId) (operation : ReplicaOperation) (readable : ObjectId → Bool)
    (fate : CommitFate) :
    InService crypto localKey peerKey (mutate r m id operation readable fate).2.2
        (Jani.mutate r m id operation readable fate).2.1 ∧
      TurnKept r (Jani.mutate r m id operation readable fate).2.1 := by
  rcases @mutate_effect r _ _ m _ fate id readable operation rfl with ⟨hidle, -⟩ |
    ⟨scope, hscope, state, state', -, hload, happly, hwrites, -, -⟩
  · exact h.of_unmoved hidle
  · exact h.of_state hscope ((kind_of_apply happly).trans (loadState_some hload).2) hwrites

theorem InService.receive (packet : Packet) (readable : ObjectId → Bool) (fate : CommitFate) :
    InService crypto localKey peerKey (replicaReceive crypto r m (some packet) readable fate).2.2.1
        (replicaReceive crypto r m (some packet) readable fate).2.1 ∧
      TurnKept r (replicaReceive crypto r m (some packet) readable fate).2.1 := by
  rcases hcall : replicaReceive crypto r m (some packet) readable fate with ⟨result, r', m', reply⟩
  cases replicaReceive_effect h.catalog_ok hcall with
  | idle hidle _ _ => exact h.of_unmoved hidle
  | regrant scope message _ _ _ hregrants _ =>
    exact h.of_setScope hregrants.writes hregrants.change
  | add scope state _ hadds _ => exact h.of_adds hadds
  | merge scope message state remote merged _ _ hscope _ _ _ _ hload _ _ hmerge _ _ _ hcases _ =>
    rcases hcases with ⟨hidle, -⟩ | hwrites
    · exact h.of_unmoved hidle
    · exact h.of_state hscope ((kind_of_merge hmerge).trans (loadState_some hload).2) hwrites
  | answer scope message state _ _ _ _ _ _ _ _ _ hr hm =>
    subst hr hm
    exact h.of_unmoved (Unmoved.refl r' m')

theorem InService.nextPacket (readable : ObjectId → Bool) (active sealOk : Bool) :
    InService crypto localKey peerKey m
      (replicaNextPacket crypto r m readable active sealOk).2 := by
  rcases hcall : replicaNextPacket crypto r m readable active sealOk with ⟨packet, r'⟩
  obtain ⟨hidle, hcursor, -⟩ := replicaNextPacket_effect hcall
  refine h.of_idle hidle fun hne => ?_
  rw [hidle.catalog] at hne ⊢
  exact hcursor (h.cursor_lt hne)

end InService

/-! ### Runs of a node -/

section Run

variable (crypto : Crypto) (localKey peerKey : Block 32)

/-- The node after some actions. -/
def nodeRun (n : ReplicaNode) (actions : List NodeAction) : ReplicaNode :=
  actions.foldl (fun n action => (nodeStep crypto localKey peerKey n action).1) n

/-- The replica of a node is in service, if one is open. -/
def ReplicaNode.InService (n : ReplicaNode) : Prop :=
  ∀ r, n.replica = some r → Jani.InService crypto localKey peerKey n.store r

variable {crypto localKey peerKey} {n : ReplicaNode} (h : n.InService crypto localKey peerKey)

include h

/-- A call of the open replica keeps the node in service if it keeps the replica in service. -/
theorem ReplicaNode.InService.call (f : Replica → ReplicaNode × Option Packet)
    (g : Replica → Replica) (hg : ∀ r, (f r).1.replica = some (g r))
    (hf : ∀ r, Jani.InService crypto localKey peerKey n.store r →
      Jani.InService crypto localKey peerKey (f r).1.store (g r)) : (match n.replica with
      | none => (n, none)
      | some r => f r).1.InService crypto localKey peerKey := by
  cases hr : n.replica with
  | none => exact h
  | some r =>
    intro r' hr'
    obtain rfl := Option.some.inj ((hg r).symm.trans hr')
    exact hf r (h r hr)

/-- **A step** of a node keeps its replica in service. -/
theorem ReplicaNode.InService.step (action : NodeAction) :
    (nodeStep crypto localKey peerKey n action).1.InService crypto localKey peerKey := by
  cases action with
  | crash => exact fun r' hr' => by cases hr'
  | openReplica readable fate =>
    intro r' hr'
    unfold nodeStep at hr' ⊢
    dsimp only at hr' ⊢
    rcases hopen : replicaOpen crypto localKey peerKey n.store readable fate with
        ⟨result, opened, m'⟩
    rw [hopen] at hr'
    cases opened with
    | some r =>
      obtain rfl := Option.some.inj hr'
      exact replicaOpen_inService hopen
    | none =>
      have hservice := h r' hr'
      refine ⟨hservice.identified, hservice.catalog_ok, hservice.owner, hservice.cursor_lt,
        fun hhalted hm => ?_⟩
      cases replicaOpen_effect hopen with
      | refused hentries hrecovery =>
        intro s hs
        obtain ⟨state, hstate⟩ := hservice.stored hhalted (hrecovery hm) s hs
        exact ⟨state, hstate.congr (ObjectMap.find_congr hentries _)⟩
      | created r0 hid hnone hholds hopened hrecovery =>
        exact absurd ((hrecovery rfl).symm.trans hm) (by decide)
  | create sequence kind fate =>
    exact h.call _ _ (fun _ => rfl) fun _ hr => (hr.create sequence kind fate).1
  | share id rights fate =>
    exact h.call _ _ (fun _ => rfl) fun _ hr => (hr.share id rights fate).1
  | mutate id operation readable fate =>
    exact h.call _ _ (fun _ => rfl) fun _ hr => (hr.mutate id operation readable fate).1
  | nextPacket readable active sealOk =>
    exact h.call _ _ (fun _ => rfl) fun _ hr => hr.nextPacket readable active sealOk
  | receive delivered readable fate =>
    exact h.call _ _ (fun _ => rfl) fun _ hr => (hr.receive delivered.packet readable fate).1

/-- **In every run** the replica of a node is in service, from any node on which none is open. -/
theorem ReplicaNode.InService.run (actions : List NodeAction) :
    (nodeRun crypto localKey peerKey n actions).InService crypto localKey peerKey := by
  induction actions using List.reverseRecOn with
  | nil => exact h
  | append_singleton actions action ih =>
    unfold nodeRun at ih ⊢
    rw [List.foldl_append]
    exact ih.step action

end Run

end Jani
