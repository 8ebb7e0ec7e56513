import Jani.Net.Equiv.ValueInv
import Mathlib.Data.Set.Card

/-!
# Convergence of two replicas

In every run of two replicas, each stored state is what the operations that went into it make it,
and no merge meets conflicting contents.  If no further operation happens to a value and the
summary of each side is answered, both sides store the same bytes (`replicas_converge`).

An answer brings what the peer knows: either the peer finds its own vector in the summary, or it
replies with its state (`Answered.catches_up`).  Both nodes then know both logs, so their vectors
are equal, and with them their states.
-/

namespace Jani

/-! ### States and operations -/

/-- The register holds the latest of the writes, ordered by their time and then by their author, or
it was never written. -/
def HoldsLatest (history : List ReplicaEvent) (s : NetCrdt) : Prop :=
  (s.timestamp = 0 ∧ s.value = [] ∧ ∀ timestamp author value,
      .set timestamp author value ∉ history) ∨
    (.set s.timestamp s.author s.value ∈ history ∧ ∀ timestamp author value,
      .set timestamp author value ∈ history → s.Covers timestamp author)

/-- The set shows the additions that no remove has observed. -/
def ShowsUnobserved (history : List ReplicaEvent) (s : NetCrdt) : Prop :=
  ∀ a, (∃ d ∈ s.dots, d.addition = a ∧ d.removed = 0) ↔
    .add a ∈ history ∧ ∀ observed, .remove observed ∈ history → a ∉ observed

variable {log : Fin 2 → List ReplicaEvent} {s : NetCrdt}

theorem Explains.holdsLatest {history : List ReplicaEvent} (hlog : LogOk s.kind log)
    (h : Explains log s) (hfacts : historyFacts history = s.knows log) (hkind : s.kind = 1) :
    HoldsLatest history s := by
  have hlatest := h.reflects.register hkind
  have hmem : ∀ {timestamp author value}, .set timestamp author value ∈ history ↔
      .wrote timestamp author value ∈ s.knows log := by
    intro timestamp author value
    rw [← hfacts]
    exact (@wrote_mem_facts {e | e ∈ history} timestamp author value).symm
  by_cases hzero : s.timestamp = 0
  · refine Or.inl ⟨hzero, (((NetCrdt.valid_register hkind).mp h.valid).empty hzero).1,
      fun timestamp author value hset => ?_⟩
    have hwrote := hmem.mp hset
    obtain ⟨i, hi⟩ := wrote_mem_facts.mp (s.knows_subset log hwrote)
    obtain ⟨_, _, _, heq, hne, -⟩ := (hlog.writes hkind i).writes _ hi
    cases heq
    rcases hlatest.covers _ _ _ hwrote with hlt | ⟨heq, -⟩
    · rw [hzero] at hlt
      exact absurd hlt UInt64.not_lt_zero
    · exact hne (heq.trans hzero)
  · exact Or.inr ⟨hmem.mpr (hlatest.mem hzero), fun timestamp author value hset =>
      hlatest.covers _ _ _ (hmem.mp hset)⟩

theorem Explains.showsUnobserved {history : List ReplicaEvent} (h : Explains log s)
    (hfacts : historyFacts history = s.knows log) (hkind : s.kind = 2) :
    ShowsUnobserved history s := by
  have hshows := h.reflects.dots hkind
  rw [← hfacts] at hshows
  have hremoved : ∀ a, a ∈ removedIn (historyFacts history) ↔
      ∃ observed, .remove observed ∈ history ∧ a ∈ observed := fun a => removed_mem_facts
  intro a
  constructor
  · rintro ⟨d, hd, rfl, hzero⟩
    obtain ⟨hadded, hflags⟩ := (hshows.mem_iff d).mp hd
    refine ⟨added_mem_facts.mp hadded, fun observed hobserved hmem => ?_⟩
    rcases hflags with ⟨hone, -⟩ | ⟨-, hnot⟩
    · rw [hzero] at hone
      exact absurd hone (by decide)
    · exact hnot ((hremoved _).mpr ⟨observed, hobserved, hmem⟩)
  · rintro ⟨hadd, hunobserved⟩
    refine ⟨⟨a.node, 0, a.counter, a.value⟩, (hshows.mem_iff _).mpr ⟨added_mem_facts.mpr hadd,
      Or.inr ⟨rfl, fun hmem => ?_⟩⟩, rfl, rfl⟩
    obtain ⟨observed, hobserved, ha⟩ := (hremoved _).mp hmem
    exact hunobserved observed hobserved ha

/-! ### Fitting -/

/-- The dots of a value at a node. -/
def dotsAt (m : ObjectMap) (id : ObjectId) : List NetDot := (stateAt m id).elim [] NetCrdt.dots

theorem Explains.additions_subset (h : Explains log s) :
    additions s.dots ⊆ addedIn (facts (allEvents log)) := by
  rcases NetCrdt.kind_of_valid h.valid with h1 | h2
  · rw [((NetCrdt.valid_register h1).mp h.valid).dots_eq]
    rintro a ⟨d, hd, -⟩
    cases hd
  · rw [(h.reflects.dots h2).additions_eq]
    exact fun a ha => s.knows_subset log ha

variable {id : ObjectId} {w : ReplicaWorld}

/-- Every addition of the logs is held by one of the nodes. -/
theorem ValueInv.additions_subset {key : Side → Block 32} {kind : UInt32}
    (h : ValueInv key w id kind log) (hkeys : key .left ≠ key .right)
    (hpresent : ∀ side, (w.node side).store.find id ≠ none →
      ∃ s, stateAt (w.node side).store id = some s) :
    addedIn (facts (allEvents log)) ⊆ additions (dotsAt (w.node .left).store id) ∪
      additions (dotsAt (w.node .right).store id) := by
  intro a ha
  obtain ⟨i, hi⟩ := added_mem_facts.mp ha
  obtain ⟨side, rfl⟩ := exists_side_of_index hkeys i
  have hfull := (h.node side).full
  by_cases hnone : (w.node side).store.find id = none
  · rw [vectorAt_of_none hnone] at hfull
    rw [List.eq_nil_of_length_eq_zero hfull.symm] at hi
    cases hi
  · obtain ⟨s, hs⟩ := hpresent side hnone
    obtain ⟨hkind, hexplains, -⟩ := (h.node side).explained s hs
    rw [vectorAt_of_some hs] at hfull
    have hknown : a ∈ addedIn (s.knows log) := by
      refine added_mem_facts.mpr ⟨indexOf key side, ?_⟩
      dsimp only
      rwa [hfull, List.take_length]
    have hdots : a ∈ additions (dotsAt (w.node side).store id) := by
      unfold dotsAt
      rw [hs]
      rcases NetCrdt.kind_of_valid hexplains.valid with h1 | h2
      · obtain ⟨_, _, _, heq, -⟩ := (h.log_ok.writes (hkind.symm.trans h1) _).writes _ hi
        cases heq
      · rw [← (hexplains.reflects.dots h2).additions_eq] at hknown
        exact hknown
    cases side
    · exact Or.inl hdots
    · exact Or.inr hdots

theorem length_le_encard {α : Type*} {l : List α} (hnodup : l.Nodup) {s : Set α}
    (h : ∀ a ∈ l, a ∈ s) : (l.length : ENat) ≤ s.encard := by
  classical
  have hcard : (↑l.toFinset : Set α).encard = l.length := by
    rw [Set.encard_coe_eq_coe_finsetCard, List.toFinset_card_of_nodup hnodup]
  rw [← hcard]
  exact Set.encard_le_encard fun a ha => h a (List.mem_toFinset.mp (Finset.mem_coe.mp ha))

/-! ### Answers -/

variable {scope : ReplicaScope}

section Answers

variable (crypto : Crypto) (key : Side → Block 32)

/-- The node is up, its device reads the value, and it has recorded all rights at the epoch. -/
structure ReplicaNode.Ready (n : ReplicaNode) (id : ObjectId) (epoch : UInt64)
    (readable : ObjectId → Bool) (r : Replica) (scope : ReplicaScope) : Prop where
  replica : n.replica = some r
  running : r.halted = false
  mounted : n.store.requiresRecovery = false
  reads : readable id = true
  mem : scope ∈ r.catalog
  id_eq : scope.id = id
  epoch_eq : scope.epoch = epoch
  rights_eq : scope.rights = replicaRead ||| replicaWrite

/-- What a side sends in a step. -/
def ReplicaWorld.reply (w : ReplicaWorld) (side : Side) (action : NodeAction) : Option Packet :=
  (nodeStep crypto (key side) (key side.other) (w.node side) action).2

/-- The peer gets a summary of the value that the side has sent some time, under the epoch that the
peer has recorded. -/
structure Summarizes (w : ReplicaWorld) (side : Side) (id : ObjectId) (p : SentPacket)
    (epoch : UInt64) (readable : ObjectId → Bool) : Prop where
  sent : p ∈ w.sent side
  kind_eq : p.packet.1 = netMessageSummary
  message : ∃ message, replicaMessageDecode p.packet.2 p.packet.1 = some message ∧
    message.id = id ∧ message.epoch = epoch
  ready : ∃ r scope, (w.node side.other).Ready id epoch readable r scope

/-- From `w` to `w'` no operation happens to the value, the peer gets a summary of the side, and the
side gets the reply, if there is one. -/
inductive Answered (id : ObjectId) (side : Side) (w w' : ReplicaWorld) : Prop
  | current {w₁ : ReplicaWorld} {p : SentPacket} {epoch : UInt64} {readable : ObjectId → Bool}
      {fate : CommitFate} : QuietRun crypto key id w w₁ → Summarizes w₁ side id p epoch readable →
      w₁.reply crypto key side.other (.receive p readable fate) = none →
      QuietRun crypto key id (w₁.step crypto key side.other (.receive p readable fate)) w' →
      Answered id side w w'
  | updated {w₁ w₂ : ReplicaWorld} {p update : SentPacket} {epoch : UInt64}
      {readable readable' : ObjectId → Bool} {fate : CommitFate} {r : Replica}
      {scope : ReplicaScope} : QuietRun crypto key id w w₁ →
      Summarizes w₁ side id p epoch readable →
      w₁.reply crypto key side.other (.receive p readable fate) = some update.packet →
      QuietRun crypto key id (w₁.step crypto key side.other (.receive p readable fate)) w₂ →
      update ∈ w₂.sent side.other → (w₂.node side).Ready id epoch readable' r scope →
      QuietRun crypto key id (w₂.step crypto key side (.receive update readable' .commit)) w' →
      Answered id side w w'

variable {crypto key} {w w₁ w' : ReplicaWorld} {id : ObjectId} {kind : UInt32}
  {log : Fin 2 → List ReplicaEvent} {side : Side}

variable {readable : ObjectId → Bool} {epoch : UInt64} {p : SentPacket}

theorem ReplicaNode.Ready.state {r : Replica} (h : (w.node side).Ready id epoch readable r scope)
    (hsound : w.Sound crypto key) (hvalue : ValueInv key w id kind log) :
    ∃ s, stateAt (w.node side).store id = some s ∧ s.kind = kind ∧ Explains log s ∧
      scope.kind = kind ∧ scopeValid scope = true ∧ r.findScope id = some scope ∧
      loadState (w.node side).store readable scope = some s ∧
      (id.high = keyNamespace crypto key .left ∨ id.high = keyNamespace crypto key .right) ∧
      key .left ≠ key .right := by
  have hhas : w.Has key side r.catalog := ReplicaNode.has_replica h.replica
  have hok := (hsound.authority.node side).catalog_ok _ hhas
  obtain ⟨s, hs⟩ := (hsound.states side).stored _ hhas scope h.mem
  have hread : readable scope.id = true := by
    rw [h.id_eq]
    exact h.reads
  have hload := hs.load h.mounted hread
  have hfind := Replica.findScope_of_mem hok h.mem
  have hstate := hs.stateAt_eq
  rw [h.id_eq] at hfind hstate
  obtain ⟨hkind, hexplains, -⟩ := (hvalue.node side).explained s hstate
  refine ⟨s, hstate, hkind, hexplains, hs.kind_eq.symm.trans hkind, hok.valid scope h.mem, hfind,
    hload, ?_, hsound.authority.keys_ne h.replica⟩
  rw [← h.id_eq]
  exact hsound.authority.high_of_scope hhas h.mem

/-- A summary is answered by the state, unless it covers it already. -/
theorem Summarizes.reply (h : Summarizes w side id p epoch readable) (hsound : w.Sound crypto key)
    (hvalue : ValueInv key w id kind log) (fate : CommitFate) :
    ∃ scope s, stateAt (w.node side.other).store id = some s ∧ s.valid = true ∧
      scopeValid scope = true ∧ scope.id = id ∧ scope.epoch = epoch ∧ scope.kind = s.kind ∧
      (w.reply crypto key side.other (.receive p readable fate) =
        some (netMessageUpdate, messageHeader scope netMessageUpdate ++ s.bytes) ∨
      w.reply crypto key side.other (.receive p readable fate) = none ∧
        ∀ i, s.vector i ≤ vectorAt (w.node side).store id i) := by
  obtain ⟨r, scope, hready⟩ := h.ready
  obtain ⟨message, hdecode, hid, hepoch⟩ := h.message
  obtain ⟨s, hstate, hkind, hexplains, hscopeKind, hscope, hfind, hload, -⟩ :=
    hready.state hsound hvalue
  obtain ⟨hmessageKind, hvector⟩ := (hvalue.sent side p h.sent
    ((id_of_replicaMessageDecode hdecode).trans hid)).summary h.kind_eq message hdecode
  rw [← hid] at hfind
  have hreceive := @replicaReceive_summary crypto r _ p.packet message scope s readable fate
    hready.running hready.mounted hdecode hfind (hscopeKind.trans hmessageKind.symm)
    (hready.epoch_eq.trans hepoch.symm) hload hexplains.valid h.kind_eq
    (by rw [hready.rights_eq]; decide)
  have hreply : w.reply crypto key side.other (.receive p readable fate) =
      summaryReply crypto scope s s.bytes message := by
    unfold ReplicaWorld.reply nodeStep
    rw [hready.replica]
    dsimp only
    rw [hreceive]
  refine ⟨scope, s, hstate, hexplains.valid, hscope, hready.id_eq, hready.epoch_eq,
    hscopeKind.trans hkind.symm, ?_⟩
  rw [hreply]
  unfold summaryReply
  split_ifs with hcond
  · refine Or.inr ⟨rfl, fun i => ?_⟩
    rcases hcond with hsend | ⟨h0, h1, -⟩
    · -- all rights allow to send
      unfold canSend at hsend
      rw [hready.rights_eq] at hsend
      split_ifs at hsend <;> exact absurd hsend (by decide)
    · have hsame : ∀ i, message.vector i = s.vector i := Fin.forall_fin_two.mpr ⟨h0, h1⟩
      rw [← hsame]
      exact hvector i
  · exact Or.inl rfl

theorem Summarizes.delivers (h : Summarizes w side id p epoch readable) (fate : CommitFate) :
    w.Delivers side.other (.receive p readable fate) := by
  change p ∈ w.sent side.other.other
  rw [Side.other_other]
  exact h.sent

theorem receive_quiet {fate : CommitFate} :
    ∀ operation readable' fate', NodeAction.receive p readable fate ≠
      .mutate id operation readable' fate' :=
  fun _ _ _ heq => by cases heq

/-- A ready node that receives an update has merged it. -/
theorem ReplicaNode.Ready.merges {r : Replica} {peer : ReplicaScope} {remote : NetCrdt}
    {update : SentPacket} (h : (w.node side).Ready id epoch readable r scope)
    (hsound : w.Sound crypto key) (hvalue : ValueInv key w id kind log)
    (hsent : update ∈ w.sent side.other) (hpacket : update.packet =
      (netMessageUpdate, messageHeader peer netMessageUpdate ++ remote.bytes))
    (hpeer : scopeValid peer = true) (hpeerId : peer.id = id) (hpeerEpoch : peer.epoch = epoch)
    (hpeerKind : peer.kind = remote.kind) (hremote : remote.valid = true)
    (hfits : (addedIn (facts (allEvents log))).encard ≤ netCrdtDotsMax) :
    ∃ merged, stateAt ((w.step crypto key side (.receive update readable .commit)).node side).store
      id = some merged ∧ ∀ i, remote.vector i ≤ merged.vector i := by
  obtain ⟨s, hstate, hkind, hexplains, hscopeKind, hscope, hfind, hload, -⟩ := h.state hsound hvalue
  obtain ⟨message, hdecode, hmessageId, hmessageEpoch, hmessageKind⟩ := update_message hpeer hremote
  have hbody : netCrdtDecode (update.packet.2.drop 32) = some remote := by
    rw [hpacket]
    exact update_state hremote
  have hidAt : idAt update.packet.2 8 = id := by
    rw [hpacket]
    exact (id_of_replicaMessageDecode hdecode).trans (hmessageId.trans hpeerId)
  obtain ⟨remote', hbody', hkind', hexplains', -⟩ :=
    (hvalue.sent side.other update hsent hidAt).update (by rw [hpacket])
  obtain rfl := Option.some.inj (hbody.symm.trans hbody')
  rcases hexplains.merge hvalue.log_ok hexplains' hkind hkind' with
    ⟨merged, hmerge, hmergedKind, hmergedExplains, hmax⟩ | ⟨-, -, l, hnodup, hlength, hmem⟩
  · rw [← hpeerId, ← hmessageId] at hfind
    obtain ⟨r', m', hreceive, hmerged⟩ := @replicaReceive_update crypto r (w.node side).store
      update.packet message scope s readable h.running h.mounted (by rw [hpacket]; exact hdecode)
      hfind (by rw [hscopeKind, hmessageKind, hpeerKind, hkind'])
      (by rw [h.epoch_eq, hmessageEpoch, hpeerEpoch]) hload hexplains.valid remote merged
      (by rw [hpacket]) hscope (by
        unfold canReceive
        rw [h.rights_eq]
        split_ifs <;> decide) hbody (hkind'.trans hkind.symm) hmerge hmergedExplains.valid
      (hmergedKind.trans hkind.symm)
    refine ⟨merged, ?_, fun i => ?_⟩
    · rw [w.step_node_self]
      unfold nodeStep
      rw [h.replica]
      dsimp only
      rw [hreceive, ← h.id_eq]
      exact hmerged
    · rw [UInt64.le_iff_toNat_le, hmax]
      exact le_max_right _ _
  · -- the additions of both states are in the logs
    have hle := (length_le_encard hnodup fun a ha =>
      Set.union_subset hexplains.additions_subset hexplains'.additions_subset
        (hmem a ha)).trans hfits
    exact absurd hlength (Nat.not_lt.mpr (Nat.cast_le.mp hle))

/-- **An answer** brings a side all that its peer has done. -/
theorem Answered.catches_up (h : Answered crypto key id side w w') (hsound : w.Sound crypto key)
    (hvalue : ValueInv key w id kind log)
    (hid : id.high = keyNamespace crypto key .left ∨ id.high = keyNamespace crypto key .right)
    (hfits : (addedIn (facts (allEvents log))).encard ≤ netCrdtDotsMax) :
    StaysQuiet crypto key id log w w' ∧ (w'.node side).store.find id ≠ none ∧
      (log (indexOf key side.other)).length ≤
        (vectorAt (w'.node side).store id (indexOf key side.other)).toNat := by
  -- what the peer has when it gets the summary
  have hpeer : ∀ {w₁ : ReplicaWorld} {s : NetCrdt}, StaysQuiet crypto key id log w w₁ →
      stateAt (w₁.node side.other).store id = some s →
      (s.vector (indexOf key side.other)).toNat = (log (indexOf key side.other)).length := by
    intro w₁ s hquiet hs
    obtain ⟨kind₁, hvalue₁⟩ := hquiet.value
    rw [← (hvalue₁.node side.other).full, vectorAt_of_some hs]
  have hfound : ∀ {w₁ : ReplicaWorld} {p : SentPacket} {epoch : UInt64}
    {readable : ObjectId → Bool},
      StaysQuiet crypto key id log w w₁ → Summarizes w₁ side id p epoch readable →
      (w₁.node side).store.find id ≠ none := by
    intro w₁ p epoch readable hquiet hsummary
    obtain ⟨kind₁, hvalue₁⟩ := hquiet.value
    obtain ⟨message, hdecode, hmessageId, -⟩ := hsummary.message
    refine (hvalue₁.sent side p hsummary.sent
      ((id_of_replicaMessageDecode hdecode).trans hmessageId)).found ?_
    rw [hsummary.kind_eq]
    decide
  cases h with
  | @current w₁ p epoch readable fate hrun hsummary hreply hrun' =>
    have hquiet₁ := hrun.stays hsound hvalue hid
    obtain ⟨kind₁, hvalue₁⟩ := hquiet₁.value
    have hquiet₂ := hquiet₁.step hid (hsummary.delivers fate) receive_quiet
    obtain ⟨kind₂, hvalue₂⟩ := hquiet₂.value
    have hquiet := hquiet₂.trans (hrun'.stays hquiet₂.sound hvalue₂ hid)
    have hgrows := (hrun'.stays hquiet₂.sound hvalue₂ hid).grows side
    have hne : side ≠ side.other := by cases side <;> decide
    rw [w₁.step_node_of_ne hne] at hgrows
    obtain ⟨scope, s, hs, -, -, -, -, -, hcases⟩ := hsummary.reply hquiet₁.sound hvalue₁ fate
    rcases hcases with hupdate | ⟨-, hknown⟩
    · rw [hreply] at hupdate
      cases hupdate
    · refine ⟨hquiet, hgrows.found (hfound hquiet₁ hsummary), ?_⟩
      rw [← hpeer hquiet₁ hs]
      exact UInt64.le_iff_toNat_le.mp (UInt64.le_trans (hknown _) (hgrows.vector_le _))
  | @updated w₁ w₂ p update epoch readable readable' fate r scope' hrun hsummary hreply hrun₂ hsent
      hready hrun' =>
    have hquiet₁ := hrun.stays hsound hvalue hid
    obtain ⟨kind₁, hvalue₁⟩ := hquiet₁.value
    have hstep₁ := hquiet₁.step hid (hsummary.delivers fate) receive_quiet
    obtain ⟨_, hvalueStep₁⟩ := hstep₁.value
    have hquiet₂ := hstep₁.trans (hrun₂.stays hstep₁.sound hvalueStep₁ hid)
    obtain ⟨kind₂, hvalue₂⟩ := hquiet₂.value
    have hstep₂ := hquiet₂.step hid (show w₂.Delivers side (.receive update readable' .commit)
      from hsent) receive_quiet
    obtain ⟨_, hvalueStep₂⟩ := hstep₂.value
    have hgrows := (hrun'.stays hstep₂.sound hvalueStep₂ hid).grows side
    obtain ⟨scope, s, hs, hvalid, hscope, hscopeId, hscopeEpoch, hscopeKind, hcases⟩ :=
      hsummary.reply hquiet₁.sound hvalue₁ fate
    rcases hcases with hupdate | ⟨hnone, -⟩
    · obtain ⟨merged, hmerged, hle⟩ := hready.merges hquiet₂.sound hvalue₂ hsent
        (Option.some.inj (hreply.symm.trans hupdate)) hscope hscopeId hscopeEpoch hscopeKind hvalid
        hfits
      refine ⟨hstep₂.trans (hrun'.stays hstep₂.sound hvalueStep₂ hid),
        hgrows.found (find_of_stateAt hmerged), ?_⟩
      have hvector := hgrows.vector_le (indexOf key side.other)
      rw [vectorAt_of_some hmerged] at hvector
      rw [← hpeer hquiet₁ hs]
      exact UInt64.le_iff_toNat_le.mp (UInt64.le_trans (hle _) hvector)
    · rw [hreply] at hnone
      cases hnone

theorem ReplicaWorld.Sound.present (h : w.Sound crypto key)
    (hid : id.high = keyNamespace crypto key .left ∨ id.high = keyNamespace crypto key .right)
    (side : Side) (hfound : (w.node side).store.find id ≠ none) :
    ∃ s o, stateAt (w.node side).store id = some s ∧ (w.node side).store.find id = some o ∧
      o.payload = s.bytes := by
  have hside : id.high = namespaceFor crypto (key side) ∨
      id.high = namespaceFor crypto (key side.other) := by
    cases side
    · exact hid
    · exact hid.symm
  obtain ⟨scope, hscope, rfl⟩ := (h.states side).catalogued id hside hfound
  obtain ⟨s, hs⟩ := (h.states side).stored _ (Or.inl rfl) scope hscope
  obtain ⟨o, hfind, hpayload, -⟩ := hs.stored
  exact ⟨s, o, hs.stateAt_eq, hfind, hpayload⟩

/-- Two nodes that know both logs store the same bytes. -/
theorem ValueInv.payload_eq (h : ValueInv key w id kind log) (hsound : w.Sound crypto key)
    (hkeys : key .left ≠ key .right)
    (hid : id.high = keyNamespace crypto key .left ∨ id.high = keyNamespace crypto key .right)
    (hfound : ∀ side, (w.node side).store.find id ≠ none)
    (hknown : ∀ side : Side, (log (indexOf key side.other)).length ≤
      (vectorAt (w.node side).store id (indexOf key side.other)).toNat) :
    ∃ o o', (w.node .left).store.find id = some o ∧ (w.node .right).store.find id = some o' ∧
      o.payload = o'.payload := by
  -- the vectors count both logs
  have hall : ∀ side i s, stateAt (w.node side).store id = some s →
      (s.vector i).toNat = (log i).length := by
    intro side i s hs
    have hfull := (h.node side).full
    have hother := hknown side
    rw [vectorAt_of_some hs] at hfull hother
    obtain ⟨-, hexplains, -⟩ := (h.node side).explained s hs
    obtain ⟨side', rfl⟩ := exists_side_of_index hkeys i
    by_cases hne : side' = side
    · rw [hne]
      exact hfull
    · have heq : side' = side.other := by
        cases side <;> cases side' <;> first | rfl | exact absurd rfl hne
      rw [heq]
      exact le_antisymm (hexplains.counted _) hother
  obtain ⟨s, o, hs, ho, hpayload⟩ := hsound.present hid .left (hfound .left)
  obtain ⟨s', o', hs', ho', hpayload'⟩ := hsound.present hid .right (hfound .right)
  obtain ⟨hkind, hexplains, -⟩ := (h.node .left).explained s hs
  obtain ⟨hkind', hexplains', -⟩ := (h.node .right).explained s' hs'
  have hvector : s'.vector = s.vector := by
    funext i
    exact UInt64.toNat_inj.mp ((hall .right i s' hs').trans (hall .left i s hs).symm)
  have hsame := hexplains.unique (hkind.symm ▸ h.log_ok) hexplains' (hkind'.trans hkind.symm)
    hvector
  exact ⟨o, o', ho, ho', by rw [hpayload, hpayload', hsame]⟩

theorem Answered.high (h : Answered crypto key id side w w')
    (hrun : ∀ w₁, QuietRun crypto key id w w₁ →
    w₁.Sound crypto key) :
    (id.high = keyNamespace crypto key .left ∨ id.high = keyNamespace crypto key .right) ∧
      key .left ≠ key .right := by
  have hready : ∀ {w₁ : ReplicaWorld} {p : SentPacket} {epoch : UInt64}
      {readable : ObjectId → Bool}, w₁.Sound crypto key → Summarizes w₁ side id p epoch readable →
      (id.high = keyNamespace crypto key .left ∨ id.high = keyNamespace crypto key .right) ∧
        key .left ≠ key .right := by
    intro w₁ p epoch readable hsound hsummary
    obtain ⟨r, scope, hready⟩ := hsummary.ready
    have hhas : w₁.Has key side.other r.catalog := ReplicaNode.has_replica hready.replica
    have hhigh := hsound.authority.high_of_scope hhas hready.mem
    rw [hready.id_eq] at hhigh
    exact ⟨hhigh, hsound.authority.keys_ne hready.replica⟩
  cases h with
  | current hquiet hsummary _ _ => exact hready (hrun _ hquiet) hsummary
  | updated hquiet hsummary _ _ _ _ _ => exact hready (hrun _ hquiet) hsummary

theorem QuietRun.sound (hrun : QuietRun crypto key id w w') (h : w.Sound crypto key) :
    w'.Sound crypto key := by
  induction hrun with
  | refl => exact h
  | step side action _ hdelivers _ ih => exact ih.step hdelivers

/-- **Convergence**: in every world that two replicas reach, each stored state is what the
operations that went into it make it; an update that the peer has sent is merged unless the
additions of both states do not fit; and if from there on no operation happens to a value, the
summaries of both sides are answered and the additions fit, both sides store the same bytes. -/
theorem replicas_converge {w₀ : ReplicaWorld} (hstart : w₀.Starts crypto key)
    (hrun : ReplicaRun crypto key w₀ w) :
    (∀ side, ∀ scope ∈ catalogOf (key side) (key side.other) (w.node side).store,
      ∃ s, StoredAs (w.node side).store scope s ∧
        (s.kind = netCrdtLww → HoldsLatest ((w.node side).history scope.id) s) ∧
        (s.kind = netCrdtOrset → ShowsUnobserved ((w.node side).history scope.id) s)) ∧
    (∀ side, ∀ p ∈ w.sent side.other, p.packet.1 = netMessageUpdate →
      ∀ scope ∈ catalogOf (key side) (key side.other) (w.node side).store,
        idAt p.packet.2 8 = scope.id → ∀ s, StoredAs (w.node side).store scope s →
          ∃ remote, netCrdtDecode (p.packet.2.drop 32) = some remote ∧ remote.kind = s.kind ∧
            (netCrdtMerge s remote = none → (netCrdtDotsMax : ENat) <
              (additions s.dots ∪ additions remote.dots).encard)) ∧
    (∀ id w', Answered crypto key id .left w w' → Answered crypto key id .right w w' →
      (additions (dotsAt (w.node .left).store id) ∪
        additions (dotsAt (w.node .right).store id)).encard ≤ netCrdtDotsMax →
      ∃ o o', (w'.node .left).store.find id = some o ∧ (w'.node .right).store.find id = some o' ∧
        o.payload = o'.payload) := by
  have hsound := hrun.sound hstart
  refine ⟨fun side scope hscope => ?_, fun side p hp hupdate scope hscope hid s hs => ?_,
    fun id w' hleft hright hfits => ?_⟩
  · obtain ⟨s, kind, log, hs, hvalue, rfl, hexplains, hfacts⟩ := hsound.stored hscope
    exact ⟨s, hs, fun hkind => hexplains.holdsLatest hvalue.log_ok hfacts hkind,
      fun hkind => hexplains.showsUnobserved hfacts hkind⟩
  · obtain ⟨s', kind, log, hs', hvalue, hkind, hexplains, -⟩ := hsound.stored hscope
    obtain rfl := hs'.unique hs rfl
    obtain ⟨remote, hdecode, hkind', hexplains', -⟩ :=
      (hvalue.sent side.other p hp hid).update hupdate
    refine ⟨remote, hdecode, hkind'.trans hkind.symm, fun hfails => ?_⟩
    rcases hexplains.merge hvalue.log_ok hexplains' hkind hkind' with
      ⟨merged, hmerge, -⟩ | ⟨-, -, l, hnodup, hlength, hmem⟩
    · rw [hfails] at hmerge
      cases hmerge
    · exact (Nat.cast_lt.mpr hlength).trans_le (length_le_encard hnodup hmem)
  · obtain ⟨hid, hkeys⟩ := hleft.high fun w₁ hquiet => hquiet.sound hsound
    obtain ⟨kind, log, hvalue⟩ := hsound.values id hid
    have hlogFits : (addedIn (facts (allEvents log))).encard ≤ netCrdtDotsMax := by
      refine (Set.encard_le_encard ?_).trans hfits
      refine hvalue.additions_subset hkeys fun side hfound => ?_
      obtain ⟨s, -, hs, -⟩ := hsound.present hid side hfound
      exact ⟨s, hs⟩
    obtain ⟨hquiet, hfoundLeft, hknownLeft⟩ := hleft.catches_up hsound hvalue hid hlogFits
    obtain ⟨-, hfoundRight, hknownRight⟩ := hright.catches_up hsound hvalue hid hlogFits
    obtain ⟨kind', hvalue'⟩ := hquiet.value
    refine hvalue'.payload_eq hquiet.sound hkeys hid (fun side => ?_) fun side => ?_
    · cases side
      · exact hfoundLeft
      · exact hfoundRight
    · cases side
      · exact hknownLeft
      · exact hknownRight

end Answers

/-! ### An exchange -/

section Exchange

def readAll : ObjectId → Bool := fun _ => true

/-- The packet that a side has sent last. -/
def ReplicaWorld.lastSent (w : ReplicaWorld) (side : Side) : SentPacket :=
  (w.sent side).getLast?.getD ⟨(0, []), []⟩

def pairStep (w : ReplicaWorld) (side : Side) (action : NodeAction) : ReplicaWorld :=
  w.step mirrorCrypto pairKey side action

/-- The packet that a side has sent last reaches its peer. -/
def pairRelay (w : ReplicaWorld) (side : Side) : ReplicaWorld :=
  pairStep w side.other (.receive (w.lastSent side) readAll .commit)

/-- Both sides write the register that they share. -/
def pairWritten : ReplicaWorld :=
  pairStep (pairStep replicaShared .left (.mutate sharedId (.set [7]) readAll .commit)) .right
    (.mutate sharedId (.set [8]) readAll .commit)

/-- The left side sends a summary, ... -/
def pairAsked : ReplicaWorld := pairStep pairWritten .left (.nextPacket readAll true true)

/-- ... the right side replies with its state, ... -/
def pairReplied : ReplicaWorld := pairRelay pairAsked .left

/-- ... and the left side merges it. -/
def pairMerged : ReplicaWorld := pairRelay pairReplied .right

/-- The same the other way round. -/
def pairAskedBack : ReplicaWorld := pairStep pairMerged .right (.nextPacket readAll true true)

def pairRepliedBack : ReplicaWorld := pairRelay pairAskedBack .right

def pairExchanged : ReplicaWorld := pairRelay pairRepliedBack .left

theorem pairWritten_run : ReplicaRun mirrorCrypto pairKey replicaPair pairWritten :=
  .step .right (.mutate sharedId (.set [8]) readAll .commit)
    (.step .left (.mutate sharedId (.set [7]) readAll .commit) replicaShared_run trivial) trivial

theorem QuietRun.nextPacket {w' : ReplicaWorld} (h : QuietRun mirrorCrypto pairKey id w w')
    (side : Side) :
    QuietRun mirrorCrypto pairKey id w (pairStep w' side (.nextPacket readAll true true)) :=
  .step side _ h trivial fun _ _ _ heq => by cases heq

variable {side : Side}

theorem QuietRun.relay {w' : ReplicaWorld} (h : QuietRun mirrorCrypto pairKey id w w')
    (hsent : w'.lastSent side ∈ w'.sent side) :
    QuietRun mirrorCrypto pairKey id w (pairRelay w' side) := by
  refine .step side.other _ h ?_ receive_quiet
  change w'.lastSent side ∈ w'.sent side.other.other
  rwa [Side.other_other]

/-- The node is up and has recorded one scope. -/
def ReplicaNode.Holds (n : ReplicaNode) (scope : ReplicaScope) : Prop :=
  (n.replica.map fun r => (r.halted, r.catalog)) = some (false, [scope]) ∧
    n.store.requiresRecovery = false ∧ scope.rights = replicaRead ||| replicaWrite

instance (n : ReplicaNode) (scope : ReplicaScope) : Decidable (n.Holds scope) :=
  inferInstanceAs (Decidable (_ ∧ _))

theorem ReplicaNode.Holds.ready {n : ReplicaNode} (h : n.Holds scope) :
    ∃ r, n.Ready scope.id scope.epoch readAll r scope := by
  obtain ⟨hreplica, hm, hrights⟩ := h
  obtain ⟨r, hr, heq⟩ := Option.map_eq_some_iff.mp hreplica
  obtain ⟨hhalted, hcatalog⟩ := Prod.mk.inj heq
  refine ⟨r, hr, hhalted, hm, rfl, ?_, rfl, rfl, hrights⟩
  rw [hcatalog]
  exact List.mem_cons_self

/-- The last packet of the side is a summary, which its peer answers with an update. -/
def Asks (w : ReplicaWorld) (side : Side) (scope peer : ReplicaScope) : Prop :=
  w.lastSent side ∈ w.sent side ∧ (w.lastSent side).packet.1 = netMessageSummary ∧
    ((replicaMessageDecode (w.lastSent side).packet.2 (w.lastSent side).packet.1).map
      fun m => (m.id, m.epoch)) = some (scope.id, scope.epoch) ∧
    (w.node side.other).Holds peer ∧ peer.id = scope.id ∧ peer.epoch = scope.epoch ∧
    w.reply mirrorCrypto pairKey side.other (.receive (w.lastSent side) readAll .commit) =
      some ((pairRelay w side).lastSent side.other).packet ∧
    (pairRelay w side).lastSent side.other ∈ (pairRelay w side).sent side.other ∧
    ((pairRelay w side).node side).Holds scope

instance (w : ReplicaWorld) (side : Side) (scope peer : ReplicaScope) :
    Decidable (Asks w side scope peer) := inferInstanceAs (Decidable (_ ∧ _))

theorem Asks.relayed {w₁ : ReplicaWorld} {peer : ReplicaScope} (h : Asks w₁ side scope peer)
    (hrun : QuietRun mirrorCrypto pairKey id w w₁) :
    QuietRun mirrorCrypto pairKey id w (pairRelay (pairRelay w₁ side) side.other) :=
  (hrun.relay h.1).relay h.2.2.2.2.2.2.2.1

theorem Asks.answered {w₁ : ReplicaWorld} {peer : ReplicaScope} (h : Asks w₁ side scope peer)
    (hrun : QuietRun mirrorCrypto pairKey scope.id w w₁) {w' : ReplicaWorld}
    (hrun' : QuietRun mirrorCrypto pairKey scope.id (pairRelay (pairRelay w₁ side) side.other) w') :
    Answered mirrorCrypto pairKey scope.id side w w' := by
  obtain ⟨hsent, hkind, hmessage, hpeer, hid, hepoch, hreply, hupdate, hself⟩ := h
  obtain ⟨message, hdecode, heq⟩ := Option.map_eq_some_iff.mp hmessage
  obtain ⟨r, hr⟩ := hpeer.ready
  obtain ⟨r', hr'⟩ := hself.ready
  rw [hid, hepoch] at hr
  unfold pairRelay pairStep at hrun'
  rw [Side.other_other] at hrun'
  exact .updated hrun
    ⟨hsent, hkind, ⟨message, hdecode, (Prod.mk.inj heq).1, (Prod.mk.inj heq).2⟩, r, peer, hr⟩
    hreply .refl hupdate hr' hrun'

set_option maxRecDepth 100000 in
theorem pairExchange_steps : Asks pairAsked .left (sharedScope 1) (sharedScope 0) ∧
    Asks pairAskedBack .right (sharedScope 0) (sharedScope 1) ∧
    dotsAt (pairWritten.node .left).store sharedId = [] ∧
    dotsAt (pairWritten.node .right).store sharedId = [] ∧
    stateAt (pairWritten.node .left).store sharedId ≠
      stateAt (pairWritten.node .right).store sharedId := by
  decide +kernel

theorem replicas_converge_exchange : stateAt (pairWritten.node .left).store sharedId ≠
      stateAt (pairWritten.node .right).store sharedId ∧
    ∃ o o', (pairExchanged.node .left).store.find sharedId = some o ∧
      (pairExchanged.node .right).store.find sharedId = some o' ∧ o.payload = o'.payload := by
  obtain ⟨hleft, hright, hdotsLeft, hdotsRight, hdiffer⟩ := pairExchange_steps
  have hasked : QuietRun mirrorCrypto pairKey sharedId pairWritten pairAsked :=
    QuietRun.refl.nextPacket .left
  have hmerged : QuietRun mirrorCrypto pairKey sharedId pairWritten pairMerged :=
    hleft.relayed hasked
  have hback : QuietRun mirrorCrypto pairKey sharedId pairMerged pairExchanged :=
    hright.relayed (QuietRun.refl.nextPacket .right)
  refine ⟨hdiffer, (replicas_converge replicaPair_starts pairWritten_run).2.2 sharedId _
    (hleft.answered hasked hback) (hright.answered (hmerged.nextPacket .right) .refl) ?_⟩
  have hnone : additions [] = ∅ := by simp [additions]
  rw [hdotsLeft, hdotsRight, hnone, Set.union_empty, Set.encard_empty]
  exact bot_le

end Exchange

end Jani
