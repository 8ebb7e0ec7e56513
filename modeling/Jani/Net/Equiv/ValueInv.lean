import Jani.Net.Equiv.History
import Jani.Net.Equiv.StateStep

/-!
# The logs of a replicated value

In every run of two replicas, every value has two logs, the operations of either node that the
vectors count, and they explain all that both nodes have stored and sent about the value
(`ValueInv`).  A node always knows all of its own operations, and whatever it sends it also has in
its store.
-/

namespace Jani

/-! ### Nodes -/

theorem keyLess_of_ne : ∀ {a b : List UInt8}, a.length = b.length → a ≠ b →
    keyLess a b = !keyLess b a
  | [], [], _, hne => absurd rfl hne
  | x :: a, y :: b, hlength, hne => by
    rw [keyLess, keyLess]
    by_cases hxy : x = y
    · subst hxy
      rw [if_neg (not_not.mpr rfl), if_neg (not_not.mpr rfl)]
      exact keyLess_of_ne (Nat.succ.inj hlength) fun heq => hne (heq ▸ rfl)
    · rw [if_pos hxy, if_pos (Ne.symm hxy)]
      by_cases hlt : x < y
      · rw [decide_eq_true hlt, decide_eq_false (UInt8.lt_asymm hlt)]
        rfl
      · have hlt' : y < x := by
          rcases UInt8.lt_or_lt_of_ne hxy with h | h
          · exact absurd h hlt
          · exact h
        rw [decide_eq_false hlt, decide_eq_true hlt']
        rfl

/-- The place of a side in the vectors. -/
def indexOf (key : Side → Block 32) (side : Side) : Fin 2 :=
  nodeIndex (if keyLess (key side).bytes (key side.other).bytes then 0 else 1)

variable {side : Side}

theorem indexOf_ne {key : Side → Block 32} (h : key .left ≠ key .right) {other : Side}
    (hne : other ≠ side) : indexOf key other ≠ indexOf key side := by
  have hbytes : (key .left).bytes ≠ (key .right).bytes := fun heq => h (Block.ext heq)
  have hlength : (key .left).bytes.length = (key .right).bytes.length :=
    (key .left).2.trans (key .right).2.symm
  have hless := keyLess_of_ne hlength hbytes
  have hindex : indexOf key .left ≠ indexOf key .right := by
    unfold indexOf
    change nodeIndex (if keyLess (key .left).bytes (key .right).bytes then 0 else 1) ≠
      nodeIndex (if keyLess (key .right).bytes (key .left).bytes then 0 else 1)
    rw [hless]
    cases keyLess (key .right).bytes (key .left).bytes <;> decide
  cases side <;> cases other
  · exact absurd rfl hne
  · exact hindex.symm
  · exact hindex
  · exact absurd rfl hne

theorem exists_side_of_index {key : Side → Block 32} (h : key .left ≠ key .right) (i : Fin 2) :
    ∃ side, i = indexOf key side := by
  have hne := indexOf_ne h (by decide : Side.left ≠ Side.right)
  generalize hleft : indexOf key .left = a at hne
  generalize hright : indexOf key .right = b at hne
  have hcases : i = a ∨ i = b := by omega
  rcases hcases with rfl | rfl
  · exact ⟨.left, hleft.symm⟩
  · exact ⟨.right, hright.symm⟩

/-! ### The invariant -/

/-- The vector of a value; a node that does not have the value knows nothing about it. -/
def vectorAt (m : ObjectMap) (id : ObjectId) : Fin 2 → UInt64 :=
  (stateAt m id).elim (fun _ => 0) NetCrdt.vector

variable {id : ObjectId} {m : ObjectMap} {s : NetCrdt}

theorem vectorAt_of_some (h : stateAt m id = some s) : vectorAt m id = s.vector := by
  unfold vectorAt
  rw [h]
  rfl

theorem vectorAt_of_none (h : m.find id = none) : vectorAt m id = fun _ => 0 := by
  unfold vectorAt stateAt
  rw [h]
  rfl

theorem vectorAt_congr {m' : ObjectMap} (h : m'.find id = m.find id) :
    vectorAt m' id = vectorAt m id := by
  unfold vectorAt
  rw [stateAt_congr h]

theorem find_of_stateAt (h : stateAt m id = some s) : m.find id ≠ none := by
  intro hnone
  unfold stateAt at h
  rw [hnone] at h
  cases h

/-- What a list of operations tells. -/
def historyFacts (history : List ReplicaEvent) : Set ReplicaFact := facts {e | e ∈ history}

theorem historyFacts_cons (e : ReplicaEvent) (history : List ReplicaEvent) :
    historyFacts (e :: history) = e.facts ∪ historyFacts history := by
  unfold historyFacts
  rw [← facts_insert]
  congr 1
  ext x
  exact List.mem_cons

theorem historyFacts_append (history history' : List ReplicaEvent) :
    historyFacts (history ++ history') = historyFacts history ∪ historyFacts history' := by
  unfold historyFacts
  rw [← facts_union]
  congr 1
  ext x
  exact List.mem_append

theorem historyFacts_nil : historyFacts [] = ∅ := by
  unfold historyFacts
  refine Set.eq_empty_of_forall_notMem fun fact hfact => ?_
  obtain ⟨e, he, -⟩ := mem_facts.mp hfact
  exact List.not_mem_nil he

/-- The state of a value at a node. -/
structure NodeKnows (n : ReplicaNode) (id : ObjectId) (kind : UInt32)
    (log : Fin 2 → List ReplicaEvent) (index : Fin 2) : Prop where
  absent : n.store.find id = none → n.history id = []
  explained : ∀ s, stateAt n.store id = some s →
    s.kind = kind ∧ Explains log s ∧ historyFacts (n.history id) = s.knows log
  full : (vectorAt n.store id index).toNat = (log index).length

/-- A packet about a value, and the node that has sent it. -/
structure PacketKnows (n : ReplicaNode) (p : SentPacket) (id : ObjectId) (kind : UInt32)
    (log : Fin 2 → List ReplicaEvent) : Prop where
  found : p.packet.1 ≠ netMessageGrant → n.store.find id ≠ none
  update : p.packet.1 = netMessageUpdate → ∃ remote,
    netCrdtDecode (p.packet.2.drop 32) = some remote ∧ remote.kind = kind ∧
      Explains log remote ∧ historyFacts p.history = remote.knows log ∧
      ∀ i, remote.vector i ≤ vectorAt n.store id i
  summary : p.packet.1 = netMessageSummary → ∀ message,
    replicaMessageDecode p.packet.2 p.packet.1 = some message →
      message.kind = kind ∧ ∀ i, message.vector i ≤ vectorAt n.store id i

/-- The logs explain all that both sides have stored and sent about a value. -/
structure ValueInv (key : Side → Block 32) (w : ReplicaWorld) (id : ObjectId) (kind : UInt32)
    (log : Fin 2 → List ReplicaEvent) : Prop where
  log_ok : LogOk kind log
  node : ∀ side, NodeKnows (w.node side) id kind log (indexOf key side)
  sent : ∀ side, ∀ p ∈ w.sent side, idAt p.packet.2 8 = id →
    PacketKnows (w.node side) p id kind log

section Packets

variable {crypto : Crypto} {scope : ReplicaScope} {state : NetCrdt}

theorem summary_message (hscope : scopeValid scope = true) (bytes : List UInt8) :
    ∃ message, replicaMessageDecode (summaryBody crypto scope state bytes) netMessageSummary =
      some message ∧ message.id = scope.id ∧ message.kind = scope.kind ∧
        message.vector = state.vector := by
  have hlength : messageLength netMessageSummary = some (32 + (le64 (state.vector 0) ++
      (le64 (state.vector 1) ++ crypto.blake2b 32 bytes)).length) := by
    rw [List.length_append, List.length_append, length_le64, length_le64, crypto.length_blake2b]
    rfl
  obtain ⟨message, hdecode, hid, -, hkind, -, hvector⟩ :=
    replicaMessageDecode_header hscope hlength
  refine ⟨message, ?_, hid, hkind, ?_⟩
  · unfold summaryBody
    rw [List.append_assoc, List.append_assoc]
    exact hdecode
  · rw [hvector rfl]
    funext i
    refine Fin.cases ?_ (fun j => ?_) i
    · exact u64At_le64_append _ _
    · obtain rfl := Fin.fin_one_eq_zero j
      exact (u64At_le64_append_add _ _ 0).trans (u64At_le64_append _ _)

theorem update_message (hscope : scopeValid scope = true) (hstate : state.valid = true) :
    ∃ message, replicaMessageDecode (messageHeader scope netMessageUpdate ++ state.bytes)
      netMessageUpdate = some message ∧ message.id = scope.id ∧ message.epoch = scope.epoch ∧
        message.kind = scope.kind := by
  have hlength : messageLength netMessageUpdate = some (32 + state.bytes.length) := by
    rw [NetCrdt.length_bytes hstate]
    rfl
  obtain ⟨message, hdecode, hid, hepoch, hkind, -, -⟩ := replicaMessageDecode_header hscope hlength
  exact ⟨message, hdecode, hid, hepoch, hkind⟩

theorem update_state (hstate : state.valid = true) :
    netCrdtDecode ((messageHeader scope netMessageUpdate ++ state.bytes).drop 32) = some state := by
  rw [List.drop_left' (length_messageHeader scope netMessageUpdate)]
  exact netCrdtDecode_bytes hstate

end Packets

/-! ### Steps -/

variable {n n' : ReplicaNode} {scope : ReplicaScope}

section Step

variable {crypto : Crypto} {key : Side → Block 32} {id : ObjectId} {kind : UInt32}
  {log log' : Fin 2 → List ReplicaEvent}

variable {index : Fin 2}

theorem NodeKnows.of_longer (h : NodeKnows n id kind log index) (hlog : ∀ i, log i <+: log' i)
    (hindex : log' index = log index) : NodeKnows n id kind log' index := by
  refine ⟨h.absent, fun s hs => ?_, ?_⟩
  · obtain ⟨hkind, hexplains, hfacts⟩ := h.explained s hs
    exact ⟨hkind, hexplains.of_longer hlog,
      hfacts.trans (NetCrdt.knows_of_longer hlog hexplains.counted).symm⟩
  · rw [hindex]
    exact h.full

theorem PacketKnows.of_longer {p : SentPacket} (h : PacketKnows n p id kind log)
    (hlog : ∀ i, log i <+: log' i) (hfound : n.store.find id ≠ none → n'.store.find id ≠ none)
    (hvector : ∀ i, vectorAt n.store id i ≤ vectorAt n'.store id i) :
    PacketKnows n' p id kind log' := by
  refine ⟨fun hkind => hfound (h.found hkind), fun hupdate => ?_, fun hsummary message hdecode =>
    ⟨(h.summary hsummary message hdecode).1, fun i =>
      UInt64.le_trans ((h.summary hsummary message hdecode).2 i) (hvector i)⟩⟩
  obtain ⟨remote, hdecode, hkind, hexplains, hfacts, hle⟩ := h.update hupdate
  exact ⟨remote, hdecode, hkind, hexplains.of_longer hlog,
    hfacts.trans (NetCrdt.knows_of_longer hlog hexplains.counted).symm,
    fun i => UInt64.le_trans (hle i) (hvector i)⟩

/-- A packet knows what its sender knew. -/
theorem PacketKnows.of_sends (h : NodeKnows n' id kind log index) {p : SentPacket}
    (hsends : SendsState crypto n n' p.packet)
    (hhistory : p.history = n.history (idAt p.packet.2 8)) (hid : idAt p.packet.2 8 = id) :
    PacketKnows n' p id kind log := by
  by_cases hgrant : p.packet.1 = netMessageGrant
  · refine ⟨fun hne => absurd hgrant hne, fun hupdate => ?_, fun hsummary => ?_⟩
    · exact absurd (hgrant.symm.trans hupdate) (by decide)
    · exact absurd (hgrant.symm.trans hsummary) (by decide)
  · obtain ⟨scope, state, hscope, hstored, hbody⟩ := hsends.body hgrant
    rw [← hsends.store_eq] at hstored
    rw [← hsends.history_eq, hid] at hhistory
    have hstate : stateAt n'.store id = some state → PacketKnows n' p id kind log := by
      intro hstate
      obtain ⟨hkind, hexplains, hfacts⟩ := h.explained state hstate
      have hvector := vectorAt_of_some hstate
      refine ⟨fun _ => find_of_stateAt hstate, fun hupdate => ?_,
        fun hsummary message hdecode => ?_⟩
      · rcases hbody with hbody | hbody
        · rw [hbody] at hupdate
          exact absurd hupdate (by decide : ¬ netMessageSummary = netMessageUpdate)
        · refine ⟨state, ?_, hkind, hexplains, hhistory ▸ hfacts, fun i => ?_⟩
          · rw [hbody]
            exact update_state hexplains.valid
          · rw [hvector]
            exact UInt64.le_refl _
      · rcases hbody with hbody | hbody
        · obtain ⟨message', hdecode', -, hmessageKind, hmessage⟩ :=
            @summary_message crypto scope state hscope state.bytes
          rw [hbody] at hdecode
          obtain rfl := Option.some.inj (hdecode'.symm.trans hdecode)
          rw [hmessageKind, ← hstored.kind_eq, hmessage, hvector]
          exact ⟨hkind, fun i => UInt64.le_refl _⟩
        · rw [hbody] at hsummary
          exact absurd hsummary (by decide : ¬ netMessageUpdate = netMessageSummary)
    have hscopeId : scope.id = id := by
      rw [← hid]
      rcases hbody with hbody | hbody <;> rw [hbody]
      · obtain ⟨message, hdecode, hmessage, -⟩ :=
          @summary_message crypto scope state hscope state.bytes
        exact hmessage.symm.trans (id_of_replicaMessageDecode hdecode).symm
      · obtain ⟨message, hdecode, hmessage, -⟩ := update_message hscope hstored.valid
        exact hmessage.symm.trans (id_of_replicaMessageDecode hdecode).symm
    exact hstate (hscopeId ▸ hstored.stateAt_eq)

variable {w : ReplicaWorld} {side : Side} {action : NodeAction}

/-- The vectors and objects of a value that a step of a side leaves behind. -/
structure Grows (n n' : ReplicaNode) (id : ObjectId) : Prop where
  found : n.store.find id ≠ none → n'.store.find id ≠ none
  vector_le : ∀ i, vectorAt n.store id i ≤ vectorAt n'.store id i

/-- **A step** of a side keeps the invariant if its own state does. -/
theorem ValueInv.next (h : ValueInv key w id kind log) (hlog : LogOk kind log')
    (hlonger : ∀ i, log i <+: log' i)
    (hothers : ∀ other, other ≠ side → log' (indexOf key other) = log (indexOf key other))
    (hgrows : Grows (w.node side) ((w.step crypto key side action).node side) id)
    (hself : NodeKnows ((w.step crypto key side action).node side) id kind log' (indexOf key side))
    (hsends : ∀ p ∈ (nodeStep crypto (key side) (key side.other) (w.node side) action).2,
      SendsState crypto (w.node side) ((w.step crypto key side action).node side) p) :
    ValueInv key (w.step crypto key side action) id kind log' := by
  refine ⟨hlog, fun other => ?_, fun other p hp hid => ?_⟩
  · by_cases hne : other = side
    · rw [hne]
      exact hself
    · rw [w.step_node_of_ne hne]
      exact (h.node other).of_longer hlonger (hothers other hne)
  · rcases ReplicaWorld.mem_step_sent hp with hold | ⟨rfl, hnew, hhistory⟩
    · by_cases hne : other = side
      · subst hne
        exact (h.sent other p hold hid).of_longer hlonger hgrows.found hgrows.vector_le
      · rw [w.step_node_of_ne hne]
        exact (h.sent other p hold hid).of_longer hlonger (fun hfound => hfound)
          fun i => UInt64.le_refl _
    · exact PacketKnows.of_sends hself (hsends _ hnew) hhistory hid

theorem ValueInv.rekind (h : ValueInv key w id kind log) (hkeys : key .left ≠ key .right)
    (hnone : ∀ side, (w.node side).store.find id = none) (kind' : UInt32) :
    ValueInv key w id kind' log := by
  have hempty : ∀ i, log i = [] := by
    intro i
    obtain ⟨side, rfl⟩ := exists_side_of_index hkeys i
    have hfull := (h.node side).full
    rw [vectorAt_of_none (hnone side)] at hfull
    exact List.eq_nil_of_length_eq_zero hfull.symm
  refine ⟨⟨fun _ i => ?_, fun _ i => ?_⟩, fun side => ⟨(h.node side).absent, fun s hs => ?_,
    (h.node side).full⟩, fun side p hp hid => ?_⟩
  · rw [hempty i]
    exact ⟨fun e he => absurd he List.not_mem_nil, fun _ _ _ _ _ he => absurd he List.not_mem_nil⟩
  · rw [hempty i]
    intro k a hk
    rw [List.getElem?_nil] at hk
    cases hk
  · exact absurd (hnone side) (find_of_stateAt hs)
  · have hpacket := h.sent side p hp hid
    refine ⟨fun hkind => absurd (hnone side) (hpacket.found hkind), fun hupdate => ?_,
      fun hsummary => ?_⟩
    · refine absurd (hnone side) (hpacket.found fun hgrant => ?_)
      exact absurd (hupdate.symm.trans hgrant) (by decide)
    · refine absurd (hnone side) (hpacket.found fun hgrant => ?_)
      exact absurd (hsummary.symm.trans hgrant) (by decide)

theorem Grows.of_same (h : n'.store.find id = n.store.find id) : Grows n n' id :=
  ⟨fun hfound => h.symm ▸ hfound, fun i => by rw [vectorAt_congr h]; exact UInt64.le_refl _⟩

theorem NodeKnows.of_same (h : NodeKnows n id kind log index)
    (hfind : n'.store.find id = n.store.find id) (hhistory : n'.history id = n.history id) :
    NodeKnows n' id kind log index := by
  refine ⟨fun hnone => ?_, fun s hs => ?_, ?_⟩
  · rw [hhistory]
    exact h.absent (hfind.symm.trans hnone)
  · rw [hhistory]
    exact h.explained s ((stateAt_congr hfind).symm.trans hs)
  · rw [vectorAt_congr hfind]
    exact h.full

theorem NodeKnows.of_state (hstate : stateAt n.store id = some s) (hkind : s.kind = kind)
    (hexplains : Explains log s) (hfacts : historyFacts (n.history id) = s.knows log)
    (hfull : (s.vector index).toNat = (log index).length) : NodeKnows n id kind log index := by
  refine ⟨fun hnone => absurd hnone (find_of_stateAt hstate), fun s' hs' => ?_, ?_⟩
  · obtain rfl := Option.some.inj (hstate.symm.trans hs')
    exact ⟨hkind, hexplains, hfacts⟩
  · rw [vectorAt_of_some hstate]
    exact hfull

theorem Grows.of_state {s' : NetCrdt} (hs : stateAt n.store id = some s)
    (hs' : stateAt n'.store id = some s') (hle : ∀ i, s.vector i ≤ s'.vector i) :
    Grows n n' id := by
  refine ⟨fun _ => find_of_stateAt hs', fun i => ?_⟩
  rw [vectorAt_of_some hs, vectorAt_of_some hs']
  exact hle i

/-- What a step makes of the invariant of a value. -/
structure ValueStep (crypto : Crypto) (key : Side → Block 32) (w : ReplicaWorld) (side : Side)
    (action : NodeAction) (id : ObjectId) (kind : UInt32) (log : Fin 2 → List ReplicaEvent)
    (kind' : UInt32) (log' : Fin 2 → List ReplicaEvent) : Prop where
  inv : ValueInv key (w.step crypto key side action) id kind' log'
  grows : Grows (w.node side) ((w.step crypto key side action).node side) id
  log_eq : (∀ operation readable fate, action ≠ .mutate id operation readable fate) → log' = log
  kind_eq : (∃ side, (w.node side).store.find id ≠ none) → kind' = kind

theorem AuthorityInv.keys_ne (hauth : AuthorityInv crypto key w) {r : Replica}
    (hr : (w.node side).replica = some r) : key .left ≠ key .right := by
  have hid := (hauth.node side).identified r hr
  have hne : namespaceFor crypto (key side) ≠ namespaceFor crypto (key side.other) := by
    rw [← hid.localNamespace_eq, ← hid.peerNamespace_eq]
    exact hid.namespace_ne
  intro heq
  cases side
  · exact hne (congrArg (namespaceFor crypto) heq)
  · exact hne (congrArg (namespaceFor crypto) heq.symm)

theorem AuthorityInv.keys_ne_of_scope (hauth : AuthorityInv crypto key w) {c : ReplicaCatalog}
    (hc : w.Has key side c) (hscope : scope ∈ c) : key .left ≠ key .right := by
  have hne := ((hauth.node side).owner c hc scope hscope).1
  intro heq
  cases side
  · exact hne (congrArg (namespaceFor crypto) heq)
  · exact hne (congrArg (namespaceFor crypto) heq.symm)

section Cases

variable (hsends : ∀ p ∈ (nodeStep crypto (key side) (key side.other) (w.node side) action).2,
  SendsState crypto (w.node side) ((w.step crypto key side action).node side) p)

include hsends

/-- Adding an object with its initial value keeps the invariant. -/
theorem ValueInv.added (h : ValueInv key w id kind log) (hkeys : key .left ≠ key .right)
    {kind' : UInt32} {state : NetCrdt} (hnone : (w.node side).store.find id = none)
    (hkind : (w.node side.other).store.find id ≠ none → kind' = kind)
    (hinit : netCrdtInit kind' = some state)
    (hstate : stateAt ((w.step crypto key side action).node side).store id = some state)
    (hhistory : ((w.step crypto key side action).node side).history id =
      (w.node side).history id) :
    ValueStep crypto key w side action id kind log kind' log := by
  have hinv : ValueInv key w id kind' log := by
    by_cases hother : (w.node side.other).store.find id = none
    · refine h.rekind hkeys (fun s => ?_) kind'
      cases side <;> cases s <;> assumption
    · rw [hkind hother]
      exact h
  obtain ⟨hexplains, hskind, hknows, hzero⟩ := @Explains.init kind' log state hinit
  have hgrows : Grows (w.node side) ((w.step crypto key side action).node side) id := by
    refine ⟨fun hfound => absurd hnone hfound, fun i => ?_⟩
    rw [vectorAt_of_none hnone]
    exact UInt64.zero_le
  refine ⟨hinv.next hinv.log_ok (fun i => List.prefix_refl _) (fun _ _ => rfl) hgrows
    (NodeKnows.of_state hstate hskind hexplains ?_ ?_) hsends, hgrows, fun _ => rfl, ?_⟩
  · rw [hhistory, (h.node side).absent hnone, hknows, historyFacts_nil]
  · have hfull := (h.node side).full
    rw [vectorAt_of_none hnone] at hfull
    rw [hzero]
    exact hfull
  · rintro ⟨s, hfound⟩
    by_cases hs : s = side
    · exact absurd hnone (hs ▸ hfound)
    · refine hkind ?_
      cases side <;> cases s
      · exact absurd rfl hs
      · exact hfound
      · exact hfound
      · exact absurd rfl hs

theorem ValueInv.operated (h : ValueInv key w id kind log) (hauth : AuthorityInv crypto key w)
    {r : Replica} {operation : ReplicaOperation} {readable : ObjectId → Bool} {fate : CommitFate}
    {state state' : NetCrdt} (hr : (w.node side).replica = some r)
    (haction : action = .mutate id operation readable fate)
    (hstate : stateAt (w.node side).store id = some state)
    (happly : operation.apply state r.localNode = some state')
    (hstate' : stateAt ((w.step crypto key side action).node side).store id = some state')
    (hhistory : ((w.step crypto key side action).node side).history id =
      operation.event state r.localNode :: (w.node side).history id) :
    ∃ log', ValueStep crypto key w side action id kind log kind log' := by
  obtain ⟨rfl, hexplains, hfacts⟩ := (h.node side).explained state hstate
  have hindex : nodeIndex r.localNode = indexOf key side := by
    rw [((hauth.node side).identified r hr).localNode_eq]
    rfl
  have hfull := (h.node side).full
  rw [vectorAt_of_some hstate, ← hindex] at hfull
  obtain ⟨log', hextends⟩ := hexplains.operation h.log_ok hfull happly
  have hgrows := Grows.of_state hstate hstate' hextends.vector_le
  refine ⟨log', h.next hextends.log_ok hextends.longer (fun other hne => ?_) hgrows
    (NodeKnows.of_state hstate' hextends.kind_eq hextends.explains ?_ ?_) hsends, hgrows,
    fun hquiet => absurd haction (hquiet _ _ _), fun _ => rfl⟩
  · exact hextends.others _ (hindex ▸ indexOf_ne (hauth.keys_ne hr) hne)
  · rw [hhistory, historyFacts_cons, hfacts, hextends.knows_eq]
  · rw [← hindex]
    exact hextends.full

/-- A merge keeps the invariant, with the update's history added to the node's. -/
theorem ValueInv.merged (h : ValueInv key w id kind log) {delivered : SentPacket}
    {state remote merged : NetCrdt} (hsent : delivered ∈ w.sent side.other)
    (hupdate : delivered.packet.1 = netMessageUpdate) (hid : idAt delivered.packet.2 8 = id)
    (hstate : stateAt (w.node side).store id = some state)
    (hremote : netCrdtDecode (delivered.packet.2.drop 32) = some remote)
    (hmerge : netCrdtMerge state remote = some merged)
    (hstate' : stateAt ((w.step crypto key side action).node side).store id = some merged)
    (hhistory : ((w.step crypto key side action).node side).history id =
      delivered.history ++ (w.node side).history id) :
    ValueStep crypto key w side action id kind log kind log := by
  obtain ⟨hkind, hexplains, hfacts⟩ := (h.node side).explained state hstate
  obtain ⟨remote', hremote', hkind', hexplains', hfacts', -⟩ :=
    (h.sent side.other delivered hsent hid).update hupdate
  obtain rfl := Option.some.inj (hremote.symm.trans hremote')
  rcases hexplains.merge h.log_ok hexplains' hkind hkind' with
    ⟨s, hmerge', hskind, hsexplains, hmax⟩ | ⟨-, hfails, -⟩
  · obtain rfl := Option.some.inj (hmerge.symm.trans hmerge')
    have hgrows : Grows (w.node side) ((w.step crypto key side action).node side) id := by
      refine Grows.of_state hstate hstate' fun i => ?_
      rw [UInt64.le_iff_toNat_le, hmax]
      exact le_max_left _ _
    refine ⟨h.next h.log_ok (fun i => List.prefix_refl _) (fun _ _ => rfl) hgrows
      (NodeKnows.of_state hstate' hskind hsexplains ?_ ?_) hsends, hgrows, fun _ => rfl,
      fun _ => rfl⟩
    · rw [hhistory, historyFacts_append, hfacts, hfacts', NetCrdt.knows_max hmax, Set.union_comm]
    · -- the node knows all of its own operations already
      have hfull := (h.node side).full
      rw [vectorAt_of_some hstate] at hfull
      rw [hmax, hfull]
      exact max_eq_left (hexplains'.counted _)
  · rw [hfails] at hmerge
    cases hmerge

end Cases

/-- **Every step** keeps the invariant of every value. -/
theorem ValueInv.step (h : ValueInv key w id kind log) (hauth : AuthorityInv crypto key w)
    (hstates : ∀ side, StateInv crypto (key side) (key side.other) (w.node side))
    (hdelivers : w.Delivers side action)
    (hid : id.high = keyNamespace crypto key .left ∨ id.high = keyNamespace crypto key .right) :
    ∃ kind' log', ValueStep crypto key w side action id kind log kind' log' := by
  have hauth' := hauth.step hdelivers
  have hside : ∀ s : Side, id.high = namespaceFor crypto (key s) ∨
      id.high = namespaceFor crypto (key s.other) := by
    intro s
    cases s
    · exact hid
    · exact hid.symm
  have hsteps := ((hauth.node side).effect action).stateSteps (hauth.node side) (hstates side)
  rw [← w.step_node_self side action] at hsteps
  cases hsteps.step id (ne_replicaMetaId hid) with
  | same hfind hhistory =>
    have hgrows := Grows.of_same hfind
    exact ⟨kind, log, h.next h.log_ok (fun i => List.prefix_refl _) (fun _ _ => rfl) hgrows
      ((h.node side).of_same hfind hhistory) hsteps.sends, hgrows, fun _ => rfl, fun _ => rfl⟩
  | added scope state hnone hscopeId hscope hinit hstate hhistory =>
    refine ⟨scope.kind, log, h.added hsteps.sends (hauth'.keys_ne_of_scope (Or.inl rfl) hscope)
      hnone (fun hother => ?_) hinit hstate hhistory⟩
    -- the peer has recorded the scope too, and both have recorded one kind
    obtain ⟨scope', hscope', hscopeId'⟩ :=
      (hstates side.other).catalogued id (hside side.other) hother
    have hhas : w.Has key side.other _ := Or.inl rfl
    obtain ⟨s, hs⟩ := (hstates side.other).stored _ hhas scope' hscope'
    have hne : side.other ≠ side := by cases side <;> decide
    have hhas' : (w.step crypto key side action).Has key side.other
        (catalogOf (key side.other) (key side.other.other) (w.node side.other).store) := by
      unfold ReplicaWorld.Has
      rw [w.step_node_of_ne hne]
      exact Or.inl rfl
    have hagree := hauth'.agree (Or.inl rfl) hhas' hscope hscope' (hscopeId.trans hscopeId'.symm)
    have hstateAt := hs.stateAt_eq
    rw [hscopeId'] at hstateAt
    rw [hagree.kind_eq, ← hs.kind_eq]
    exact ((h.node side.other).explained s hstateAt).1
  | operated operation state state' hr haction hstate happly hstate' hhistory =>
    obtain ⟨log', hstep⟩ := h.operated hsteps.sends hauth hr haction hstate happly hstate' hhistory
    exact ⟨kind, log', hstep⟩
  | merged delivered state remote merged haction hupdate hidAt hstate hremote hmerge hstate'
      hhistory =>
    subst haction
    exact ⟨kind, log, h.merged hsteps.sends hdelivers hupdate hidAt hstate hremote hmerge hstate'
      hhistory⟩

end Step

/-! ### Runs -/

section Runs

variable (crypto : Crypto) (key : Side → Block 32)

/-- What holds in every world that two replicas reach. -/
structure ReplicaWorld.Sound (w : ReplicaWorld) : Prop where
  authority : AuthorityInv crypto key w
  states : ∀ side, StateInv crypto (key side) (key side.other) (w.node side)
  values : ∀ id, id.high = keyNamespace crypto key .left ∨
    id.high = keyNamespace crypto key .right →
    ∃ kind log, ValueInv key w id kind log

/-- A run without operations on a value. -/
inductive QuietRun (id : ObjectId) (w : ReplicaWorld) : ReplicaWorld → Prop
  | refl : QuietRun id w w
  | step {w' : ReplicaWorld} (side : Side) (action : NodeAction) : QuietRun id w w' →
      w'.Delivers side action →
      (∀ operation readable fate, action ≠ .mutate id operation readable fate) →
      QuietRun id w (w'.step crypto key side action)

variable {crypto key} {w w' : ReplicaWorld} {id : ObjectId} {kind : UInt32}
  {log : Fin 2 → List ReplicaEvent}

theorem ReplicaWorld.Starts.sound (h : w.Starts crypto key) : w.Sound crypto key := by
  have hcatalog : ∀ side, catalogOf (key side) (key side.other) (w.node side).store = [] :=
    fun side => catalogOf_of_none (h.no_catalog side)
  have hnone : ∀ side id, id.high = namespaceFor crypto (key side) ∨
      id.high = namespaceFor crypto (key side.other) → (w.node side).store.find id = none := by
    intro side id hid
    refine h.no_states side id ?_
    cases side
    · exact hid
    · exact hid.symm
  refine ⟨AuthorityInv.start h, fun side => ⟨fun c hc scope hscope => ?_, fun id hid hfound => ?_⟩,
    fun id hid => ⟨1, fun _ => [], ⟨⟨fun _ i => ?_, fun _ i k a hk => ?_⟩, fun side => ?_,
      fun side p hp => ?_⟩⟩⟩
  · rcases hc with rfl | ⟨r, hr, -⟩
    · rw [hcatalog] at hscope
      cases hscope
    · rw [h.closed] at hr
      cases hr
  · exact absurd (hnone side id hid) hfound
  · exact ⟨fun e he => absurd he List.not_mem_nil, fun _ _ _ _ _ he => absurd he List.not_mem_nil⟩
  · rw [List.getElem?_nil] at hk
    cases hk
  · have habsent := h.no_states side id hid
    refine ⟨fun _ => by rw [h.fresh], fun s hs => absurd habsent (find_of_stateAt hs), ?_⟩
    rw [vectorAt_of_none habsent]
    rfl
  · rw [h.silent] at hp
    cases hp

theorem ReplicaWorld.Sound.states_step (h : w.Sound crypto key) (side : Side) (action : NodeAction)
    (other : Side) : StateInv crypto (key other) (key other.other)
      ((w.step crypto key side action).node other) := by
  by_cases hne : other = side
  · subst hne
    rw [w.step_node_self]
    exact (((h.authority.node other).effect action).stateSteps (h.authority.node other)
      (h.states other)).inv
  · rw [w.step_node_of_ne hne]
    exact h.states other

theorem ReplicaWorld.Sound.step (h : w.Sound crypto key) {action : NodeAction}
    (hdelivers : w.Delivers side action) : (w.step crypto key side action).Sound crypto key := by
  refine ⟨h.authority.step hdelivers, h.states_step side action, fun id hid => ?_⟩
  obtain ⟨kind, log, hvalue⟩ := h.values id hid
  obtain ⟨kind', log', hstep⟩ := hvalue.step h.authority h.states hdelivers hid
  exact ⟨kind', log', hstep.inv⟩

theorem ReplicaRun.sound (h : w.Starts crypto key) (hrun : ReplicaRun crypto key w w') :
    w'.Sound crypto key := by
  induction hrun with
  | refl => exact h.sound
  | step side action _ hdelivers ih => exact ih.step hdelivers

theorem Grows.trans {n'' : ReplicaNode} (h : Grows n n' id) (h' : Grows n' n'' id) :
    Grows n n'' id :=
  ⟨fun hfound => h'.found (h.found hfound),
    fun i => UInt64.le_trans (h.vector_le i) (h'.vector_le i)⟩

/-- What a run without operations on a value leaves of it: the logs are the same. -/
structure StaysQuiet (crypto : Crypto) (key : Side → Block 32) (id : ObjectId)
    (log : Fin 2 → List ReplicaEvent) (w w' : ReplicaWorld) : Prop where
  sound : w'.Sound crypto key
  value : ∃ kind, ValueInv key w' id kind log
  grows : ∀ side, Grows (w.node side) (w'.node side) id

theorem StaysQuiet.refl (h : w.Sound crypto key) (hvalue : ValueInv key w id kind log) :
    StaysQuiet crypto key id log w w :=
  ⟨h, ⟨kind, hvalue⟩, fun _ => ⟨fun hfound => hfound, fun _ => UInt64.le_refl _⟩⟩

theorem StaysQuiet.trans {w'' : ReplicaWorld} (h : StaysQuiet crypto key id log w w')
    (h' : StaysQuiet crypto key id log w' w'') : StaysQuiet crypto key id log w w'' :=
  ⟨h'.sound, h'.value, fun side => (h.grows side).trans (h'.grows side)⟩

theorem StaysQuiet.step (h : StaysQuiet crypto key id log w w')
    (hid : id.high = keyNamespace crypto key .left ∨ id.high = keyNamespace crypto key .right)
    {action : NodeAction} (hdelivers : w'.Delivers side action)
    (hquiet : ∀ operation readable fate, action ≠ .mutate id operation readable fate) :
    StaysQuiet crypto key id log w (w'.step crypto key side action) := by
  obtain ⟨kind, hvalue⟩ := h.value
  obtain ⟨kind', log', hstep⟩ := hvalue.step h.sound.authority h.sound.states hdelivers hid
  obtain rfl := hstep.log_eq hquiet
  refine ⟨h.sound.step hdelivers, ⟨kind', hstep.inv⟩, fun other => ?_⟩
  by_cases hne : other = side
  · subst hne
    exact (h.grows other).trans hstep.grows
  · rw [w'.step_node_of_ne hne]
    exact h.grows other

theorem QuietRun.stays (hrun : QuietRun crypto key id w w') (h : w.Sound crypto key)
    (hvalue : ValueInv key w id kind log)
    (hid : id.high = keyNamespace crypto key .left ∨ id.high = keyNamespace crypto key .right) :
    StaysQuiet crypto key id log w w' := by
  induction hrun with
  | refl => exact StaysQuiet.refl h hvalue
  | step side action _ hdelivers hquiet ih => exact ih.step hid hdelivers hquiet

theorem AuthorityInv.high_of_scope (h : AuthorityInv crypto key w) {c : ReplicaCatalog}
    (hc : w.Has key side c) (hscope : scope ∈ c) : scope.id.high = keyNamespace crypto key .left ∨
      scope.id.high = keyNamespace crypto key .right := by
  have hhigh := ((h.node side).owner c hc scope hscope).2
  unfold keyNamespace
  split_ifs at hhigh <;> cases side
  · exact Or.inl hhigh
  · exact Or.inr hhigh
  · exact Or.inr hhigh
  · exact Or.inl hhigh

theorem ReplicaWorld.Sound.stored (h : w.Sound crypto key)
    (hscope : scope ∈ catalogOf (key side) (key side.other) (w.node side).store) :
    ∃ s kind log, StoredAs (w.node side).store scope s ∧ ValueInv key w scope.id kind log ∧
      s.kind = kind ∧ Explains log s ∧
      historyFacts ((w.node side).history scope.id) = s.knows log := by
  obtain ⟨s, hs⟩ := (h.states side).stored _ (Or.inl rfl) scope hscope
  obtain ⟨kind, log, hvalue⟩ := h.values scope.id (h.authority.high_of_scope (Or.inl rfl) hscope)
  obtain ⟨hkind, hexplains, hfacts⟩ := (hvalue.node side).explained s hs.stateAt_eq
  exact ⟨s, kind, log, hs, hvalue, hkind, hexplains, hfacts⟩

end Runs

end Jani
