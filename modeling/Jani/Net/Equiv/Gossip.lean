import Jani.Lib.RoundRobin
import Jani.Net.Equiv.InService

/-!
# Gossip

`replica_next_packet` goes round and round: through the scopes with `send_grant` set, which is the
turn of their grants, then through them again for their summaries.  Read from the turn at hand on,
the turns are a ring (`Replica.ring`); moving the cursor on turns the ring by one, and the loop of
`replica_next_packet` is `serve` on it (`replicaNextPacket_serve`).  What is sent is therefore fair:
as many calls as turns are due send the packet of each of them once, wherever the cursor was.
-/

namespace Jani

/-! ### Turns -/

/-- A scope, and whether it is the turn of its grant or of its summary. -/
abbrev Turn := ReplicaScope × Bool

/-- A grant is due of an owned scope that was shared, a summary of one that is shared. -/
def Turn.due : Turn → Bool
  | (scope, true) => scope.owned ≠ 0 ∧ (scope.rights ≠ 0 ∨ scope.epoch > 1)
  | (scope, false) => scope.rights ≠ 0

def turns (c : ReplicaCatalog) : List Turn := c.map (·, true) ++ c.map (·, false)

/-- The identifier of the scope and the kind of the message. -/
def Turn.pair (turn : Turn) : ObjectId × UInt32 :=
  (turn.1.id, if turn.2 then netMessageGrant else netMessageSummary)

/-- The scopes and messages that there is something to send of. -/
def eligiblePairs (c : ReplicaCatalog) : List (ObjectId × UInt32) :=
  ((turns c).filter Turn.due).map Turn.pair

/-- What a packet is about. -/
def packetPair (packet : Packet) : ObjectId × UInt32 := (idAt packet.2 8, packet.1)

theorem length_turns (c : ReplicaCatalog) : (turns c).length = 2 * c.length := by
  rw [turns, List.length_append, List.length_map, List.length_map]
  omega

theorem eligiblePairs_nodup {c : ReplicaCatalog} (h : CatalogOk c) : (eligiblePairs c).Nodup := by
  have hmap : ∀ grant : Bool, ((c.map (·, grant)).map Turn.pair).Nodup := by
    intro grant
    have heq : (c.map (·, grant)).map Turn.pair =
        (c.map (·.id)).map (·, if grant then netMessageGrant else netMessageSummary) := by
      rw [List.map_map, List.map_map]
      rfl
    rw [heq]
    exact h.nodup.map fun a b hab => (Prod.mk.inj hab).1
  have hall : ((turns c).map Turn.pair).Nodup := by
    rw [turns, List.map_append, List.nodup_append]
    refine ⟨hmap true, hmap false, fun a ha b hb hab => ?_⟩
    obtain ⟨t, ht, rfl⟩ := List.mem_map.mp ha
    obtain ⟨u, hu, rfl⟩ := List.mem_map.mp hb
    obtain ⟨s, -, rfl⟩ := List.mem_map.mp ht
    obtain ⟨s', -, rfl⟩ := List.mem_map.mp hu
    exact absurd (Prod.mk.inj hab).2 (show ¬ netMessageGrant = netMessageSummary by decide)
  exact hall.sublist (List.filter_sublist.map _)

/-! ### The ring -/

/-- The place of the turn at hand. -/
def Replica.turnIndex (r : Replica) : Nat :=
  (if r.sendGrant then 0 else r.catalog.length) + r.cursor

/-- The turns from the one at hand on. -/
def Replica.ring (r : Replica) : List Turn := (turns r.catalog).rotate r.turnIndex

theorem Replica.length_ring (r : Replica) : r.ring.length = 2 * r.catalog.length := by
  rw [Replica.ring, List.length_rotate, length_turns]

theorem Replica.ring_of_same {r r' : Replica} (hcatalog : r'.catalog = r.catalog)
    (hcursor : r'.cursor = r.cursor) (hgrant : r'.sendGrant = r.sendGrant) : r'.ring = r.ring := by
  unfold Replica.ring Replica.turnIndex
  rw [hcatalog, hcursor, hgrant]

theorem Replica.ring_advance (r : Replica) : r.advance.ring = r.ring.rotate 1 := by
  unfold Replica.ring
  rw [List.rotate_rotate]
  unfold Replica.advance
  split_ifs with hend
  · -- past the last scope the other half of the turns begins
    cases hgrant : r.sendGrant with
    | true =>
      unfold Replica.turnIndex
      dsimp only
      rw [hgrant, if_neg (by decide), if_pos rfl, ← hend]
      congr 1
      omega
    | false =>
      have hlength : r.turnIndex + 1 = (turns r.catalog).length := by
        unfold Replica.turnIndex
        rw [hgrant, if_neg Bool.false_ne_true, length_turns]
        omega
      rw [hlength, List.rotate_length]
      exact List.rotate_zero _
  · rfl

theorem Replica.head_ring {r : Replica} (h : r.cursor < r.catalog.length) :
    r.ring.head? = some (r.catalog[r.cursor], r.sendGrant) := by
  have hindex : r.turnIndex < (turns r.catalog).length := by
    unfold Replica.turnIndex
    rw [length_turns]
    split_ifs <;> omega
  unfold Replica.ring
  rw [List.head?_rotate hindex]
  unfold Replica.turnIndex turns
  cases r.sendGrant with
  | true =>
    rw [if_pos rfl, Nat.zero_add, List.getElem?_append_left (by rwa [List.length_map]),
      List.getElem?_map, List.getElem?_eq_getElem h]
    rfl
  | false =>
    rw [if_neg Bool.false_ne_true, List.getElem?_append_right (by rw [List.length_map]; omega),
      List.length_map, Nat.add_sub_cancel_left, List.getElem?_map, List.getElem?_eq_getElem h]
    rfl

theorem Replica.ring_eq_cons {r : Replica} (h : r.cursor < r.catalog.length) :
    ∃ rest, r.ring = (r.catalog[r.cursor], r.sendGrant) :: rest ∧
      r.advance.ring = rest ++ [(r.catalog[r.cursor], r.sendGrant)] := by
  obtain ⟨rest, hring⟩ := List.head?_eq_some_iff.mp (Replica.head_ring h)
  refine ⟨rest, hring, ?_⟩
  rw [Replica.ring_advance, hring, List.rotate_cons_succ, List.rotate_zero]

/-! ### Serving -/

section Serve

variable {crypto : Crypto} {m : ObjectMap} {readable : ObjectId → Bool}

/-- **The loop** of `replica_next_packet` serves the ring, where every state can be read. -/
theorem nextPacketLoop_serve (hm : m.requiresRecovery = false) (hread : ∀ id, readable id = true) :
    ∀ {tries : Nat} {r : Replica}, r.cursor < r.catalog.length →
      (∀ s ∈ r.catalog, ∃ state, StoredAs m s state) →
      (nextPacketLoop crypto m readable true tries r).1.map packetPair =
          (serve Turn.due tries r.ring).1.map Turn.pair ∧
        (nextPacketLoop crypto m readable true tries r).2.ring = (serve Turn.due tries r.ring).2
  | 0, _, _, _ => ⟨rfl, rfl⟩
  | tries + 1, r, hcursor, hstored => by
    obtain ⟨rest, hring, hadvance⟩ := Replica.ring_eq_cons hcursor
    obtain ⟨state, hstate⟩ := hstored _ (List.getElem_mem hcursor)
    have hnext := @nextPacketLoop_serve hm hread tries r.advance
    rw [(advance_fields r).1] at hnext
    specialize hnext (Replica.advance_cursor hcursor) hstored
    rw [nextPacketLoop, List.getElem?_eq_getElem hcursor, hring]
    rw [hadvance] at hnext
    generalize r.catalog[r.cursor] = scope at *
    dsimp only
    rw [serve]
    cases hgrant : r.sendGrant with
    | true =>
      rw [hgrant] at hnext hadvance
      by_cases hdue : scope.owned ≠ 0 ∧ (scope.rights ≠ 0 ∨ scope.epoch > 1)
      · rw [if_pos ⟨rfl, hdue⟩, if_pos rfl, if_pos (show Turn.due (scope, true) = true from
          decide_eq_true hdue)]
        refine ⟨congrArg some (Prod.ext ?_ rfl), hadvance⟩
        have hid := idAt_messageHeader scope netMessageGrant []
        rwa [List.append_nil] at hid
      · rw [if_neg fun h => hdue h.2, if_neg fun h => Bool.false_ne_true h.1,
          if_neg (show ¬ Turn.due (scope, true) = true from fun h => hdue (of_decide_eq_true h))]
        exact hnext
    | false =>
      rw [hgrant] at hnext hadvance
      rw [if_neg fun h => Bool.false_ne_true h.1]
      by_cases hdue : scope.rights ≠ 0
      · rw [if_pos ⟨rfl, hdue⟩, hstate.load hm (hread _)]
        dsimp only
        rw [netCrdtEncode_of_valid hstate.valid]
        dsimp only
        rw [if_pos rfl, if_pos (show Turn.due (scope, false) = true from decide_eq_true hdue)]
        refine ⟨congrArg some (Prod.ext ?_ rfl), hadvance⟩
        change idAt (summaryBody crypto scope state state.bytes) 8 = scope.id
        unfold summaryBody
        rw [List.append_assoc, List.append_assoc]
        exact idAt_messageHeader scope netMessageSummary _
      · rw [if_neg fun h => hdue h.2,
          if_neg (show ¬ Turn.due (scope, false) = true from fun h => hdue (of_decide_eq_true h))]
        exact hnext

variable {localKey peerKey : Block 32} {r : Replica}

/-- **A call** of `replica_next_packet` serves the ring. -/
theorem replicaNextPacket_serve (h : InService crypto localKey peerKey m r)
    (hr : r.halted = false) (hm : m.requiresRecovery = false) (hread : ∀ id, readable id = true) :
    (replicaNextPacket crypto r m readable true true).1.map packetPair =
        (serve Turn.due (2 * r.catalog.length) r.ring).1.map Turn.pair ∧
      (replicaNextPacket crypto r m readable true true).2.ring =
        (serve Turn.due (2 * r.catalog.length) r.ring).2 := by
  unfold replicaNextPacket
  dsimp only
  rw [checked_of_healthy hr hm]
  by_cases hempty : r.catalog.length = 0
  · rw [if_pos (Or.inr (Or.inr hempty)), hempty]
    exact ⟨rfl, rfl⟩
  · rw [if_neg (by rw [hr]; simpa using hempty)]
    exact nextPacketLoop_serve hm hread (h.cursor_lt fun hnil => hempty (by rw [hnil]; rfl))
      (h.stored hr hm)

end Serve

/-! ### Stretches without a change of the catalog -/

section Steady

variable (crypto : Crypto) (localKey peerKey : Block 32)

/-- A replica with the catalog is open, and neither it nor the store has failed. -/
def ReplicaNode.Serving (c : ReplicaCatalog) (n : ReplicaNode) : Prop :=
  n.store.requiresRecovery = false ∧ ∃ r, n.replica = some r ∧ r.halted = false ∧ r.catalog = c

/-- The replica is not opened anew, and what is sent is read and sealed. -/
def NodeAction.Works : NodeAction → Prop
  | .openReplica _ _ => False
  | .nextPacket readable active sealOk => (∀ id, readable id = true) ∧ active = true ∧ sealOk = true
  | _ => True

/-- The actions work, and the catalog stays the same all along. -/
def Steady (c : ReplicaCatalog) : ReplicaNode → List NodeAction → Prop
  | n, [] => n.Serving c
  | n, action :: actions =>
    n.Serving c ∧ action.Works ∧ Steady c (nodeStep crypto localKey peerKey n action).1 actions

/-- The results of the calls of `replica_next_packet` among the actions. -/
def gossip : ReplicaNode → List NodeAction → List (Option Packet)
  | _, [] => []
  | n, .nextPacket readable active sealOk :: actions =>
    (nodeStep crypto localKey peerKey n (.nextPacket readable active sealOk)).2 ::
      gossip (nodeStep crypto localKey peerKey n (.nextPacket readable active sealOk)).1 actions
  | n, action :: actions => gossip (nodeStep crypto localKey peerKey n action).1 actions

variable {crypto localKey peerKey} {c : ReplicaCatalog} {n : ReplicaNode} {r r' : Replica}

theorem Steady.serving {actions : List NodeAction}
    (h : Steady crypto localKey peerKey c n actions) : n.Serving c := by
  cases actions with
  | nil => exact h
  | cons action actions => exact h.1

/-- An action that sends nothing leaves the turn at hand alone. -/
theorem nodeStep_turn (h : n.InService crypto localKey peerKey) {action : NodeAction}
    (hworks : action.Works)
    (hsends : ∀ readable active sealOk, action ≠ .nextPacket readable active sealOk)
    (hr : n.replica = some r)
    (hr' : (nodeStep crypto localKey peerKey n action).1.replica = some r') : TurnKept r r' := by
  unfold nodeStep at hr'
  rw [hr] at hr'
  cases action with
  | openReplica readable fate => exact hworks.elim
  | crash => cases hr'
  | nextPacket readable active sealOk => exact absurd rfl (hsends readable active sealOk)
  | create sequence kind fate =>
    exact Option.some.inj hr' ▸ ((h r hr).create sequence kind fate).2
  | share id rights fate => exact Option.some.inj hr' ▸ ((h r hr).share id rights fate).2
  | mutate id operation readable fate =>
    exact Option.some.inj hr' ▸ ((h r hr).mutate id operation readable fate).2
  | receive delivered readable fate =>
    exact Option.some.inj hr' ▸ ((h r hr).receive delivered.packet readable fate).2

theorem gossip_cons {action : NodeAction}
    (hsends : ∀ readable active sealOk, action ≠ .nextPacket readable active sealOk)
    (actions : List NodeAction) : gossip crypto localKey peerKey n (action :: actions) =
      gossip crypto localKey peerKey (nodeStep crypto localKey peerKey n action).1 actions := by
  cases action with
  | nextPacket readable active sealOk => exact absurd rfl (hsends readable active sealOk)
  | _ => rfl

/-- **While the catalog stays the same** the calls serve its ring one after the other, whatever else
the node does between them. -/
theorem gossip_serves : ∀ {actions : List NodeAction} {n : ReplicaNode} {r : Replica},
    n.InService crypto localKey peerKey → Steady crypto localKey peerKey c n actions →
    n.replica = some r →
      (gossip crypto localKey peerKey n actions).map (Option.map packetPair) =
        (serves Turn.due (2 * c.length) (gossip crypto localKey peerKey n actions).length
          r.ring).map (Option.map Turn.pair)
  | [], _, _, _, _, _ => rfl
  | action :: actions, n, r, hservice, hsteady, hr => by
    obtain ⟨⟨hm, r0, hr0, hhalted, hcatalog⟩, hworks, hrest⟩ := hsteady
    obtain rfl : r = r0 := Option.some.inj (hr.symm.trans hr0)
    have hservice' := hservice.step action
    obtain ⟨-, r', hr', -, hcatalog'⟩ := hrest.serving
    have hnext := gossip_serves hservice' hrest hr'
    by_cases hsends : ∃ readable active sealOk, action = .nextPacket readable active sealOk
    · obtain ⟨readable, active, sealOk, rfl⟩ := hsends
      obtain ⟨hread, rfl, rfl⟩ := hworks
      obtain ⟨hpair, hring⟩ := replicaNextPacket_serve (hservice r hr) hhalted hm hread
      rw [hcatalog] at hpair hring
      unfold nodeStep at hr' hnext
      rw [hr] at hr' hnext
      obtain rfl := Option.some.inj hr'
      dsimp only at hnext
      rw [hring] at hnext
      rw [gossip, nodeStep, hr]
      dsimp only
      rw [List.map_cons, List.length_cons, serves, List.map_cons, hpair, hnext]
    · have hsends' : ∀ readable active sealOk, action ≠ .nextPacket readable active sealOk :=
        fun readable active sealOk heq => hsends ⟨readable, active, sealOk, heq⟩
      rcases nodeStep_turn hservice hworks hsends' hr hr' with ⟨heq, hcursor, hgrant⟩ | ⟨hne, -⟩
      · rw [gossip_cons hsends', hnext, Replica.ring_of_same heq hcursor hgrant]
      · exact absurd (hcatalog'.trans hcatalog.symm) hne

/-- **Gossip is fair.**  However a node came to its catalog and its cursor, the cursor stays in the
catalog; a call that can read and seal sends nothing only if there is nothing to send; and while the
catalog stays the same, as many calls as there are pairs to send of send each of them once. -/
theorem gossip_fair {start n : ReplicaNode} (hclosed : start.replica = none)
    {actions : List NodeAction} (hn : nodeRun crypto localKey peerKey start actions = n)
    {r : Replica} (hr : n.replica = some r) : (r.catalog ≠ [] → ∀ k,
        (Replica.advance^[k] r).cursor < (Replica.advance^[k] r).catalog.length) ∧
      (∀ readable, n.Serving r.catalog → (∀ id, readable id = true) →
        (replicaNextPacket crypto r n.store readable true true).1 = none →
        eligiblePairs r.catalog = []) ∧
      (eligiblePairs r.catalog).Nodup ∧
      ∀ window, Steady crypto localKey peerKey r.catalog n window →
        (gossip crypto localKey peerKey n window).length = (eligiblePairs r.catalog).length →
        ((gossip crypto localKey peerKey n window).map (Option.map packetPair)).Perm
          ((eligiblePairs r.catalog).map some) := by
  have hservice : n.InService crypto localKey peerKey :=
    hn ▸ ReplicaNode.InService.run (fun r0 hr0 => by rw [hclosed] at hr0; cases hr0) actions
  have hopen := hservice r hr
  refine ⟨fun hne k => ?_, fun readable hserving hread hnone => ?_,
    eligiblePairs_nodup hopen.catalog_ok, fun window hsteady hlength => ?_⟩
  · obtain ⟨hcatalog, -, -, hcursor⟩ := r.advance_iterate k
    rw [hcatalog]
    exact hcursor (hopen.cursor_lt hne)
  · obtain ⟨hm, r0, hr0, hhalted, -⟩ := hserving
    obtain rfl : r = r0 := Option.some.inj (hr.symm.trans hr0)
    obtain ⟨hpair, -⟩ := replicaNextPacket_serve hopen hhalted hm hread
    rw [hnone] at hpair
    have hqueue := serve_none r.length_ring.le (Option.map_eq_none_iff.mp hpair.symm)
    have hperm : (eligiblePairs r.catalog).Perm ((r.ring.filter Turn.due).map Turn.pair) :=
      ((((turns r.catalog).rotate_perm r.turnIndex).symm).filter _).map _
    rw [hqueue] at hperm
    exact hperm.eq_nil
  · have hperm : (r.ring.filter Turn.due).Perm ((turns r.catalog).filter Turn.due) :=
      ((turns r.catalog).rotate_perm r.turnIndex).filter _
    have hcount : (gossip crypto localKey peerKey n window).length =
        (r.ring.filter Turn.due).length := by
      rw [hlength, eligiblePairs, List.length_map, hperm.length_eq]
    rw [gossip_serves hservice hsteady hr, hcount, serves_eq r.length_ring.le, List.map_map,
      eligiblePairs, List.map_map]
    exact hperm.map _

end Steady

/-! ### A run -/

theorem ReplicaNode.Serving.of_eq {n : ReplicaNode} {c : ReplicaCatalog}
    (hm : n.store.requiresRecovery = false)
    (h : (n.replica.map fun r => (r.halted, r.catalog)) = some (false, c)) : n.Serving c := by
  obtain ⟨r, hr, heq⟩ := Option.map_eq_some_iff.mp h
  exact ⟨hm, r, hr, (Prod.mk.inj heq).1, (Prod.mk.inj heq).2⟩

/-- The left node after some actions, from an empty store. -/
def leftRun (actions : List NodeAction) : ReplicaNode :=
  nodeRun mirrorCrypto (pairKey .left) (pairKey .right) ⟨ObjectMap.empty, none, fun _ => []⟩ actions

/-- The node opens its replica, creates a register and shares it. -/
def shareActions : List NodeAction :=
  [.openReplica (fun _ => true) .commit, .create 1 netCrdtLww .commit, .share sharedId 3 .commit]

set_option maxRecDepth 100000 in
theorem leftRun_serving : ∀ calls ∈ [0, 1, 2], (leftRun (shareActions ++
    List.replicate calls (.nextPacket (fun _ => true) true true))).Serving [sharedScope 1] := by
  have hsteps : ∀ calls ∈ [0, 1, 2],
      (leftRun (shareActions ++ List.replicate calls (.nextPacket (fun _ => true) true
        true))).store.requiresRecovery = false ∧
      ((leftRun (shareActions ++ List.replicate calls (.nextPacket (fun _ => true) true
        true))).replica.map fun r => (r.halted, r.catalog)) = some (false, [sharedScope 1]) := by
    decide +kernel
  exact fun calls hcalls => .of_eq (hsteps calls hcalls).1 (hsteps calls hcalls).2

/-- Two calls send the grant and the summary of the scope. -/
theorem gossip_fair_shared :
    ((gossip mirrorCrypto (pairKey .left) (pairKey .right) (leftRun shareActions)
      (List.replicate 2 (.nextPacket (fun _ => true) true true))).map (Option.map packetPair)).Perm
        [some (sharedId, netMessageGrant), some (sharedId, netMessageSummary)] := by
  obtain ⟨-, r, hr, -, hcatalog⟩ := leftRun_serving 0 (by decide)
  have hfair := (gossip_fair rfl (by rfl) hr).2.2.2
  rw [hcatalog] at hfair
  have hpairs : eligiblePairs [sharedScope 1] =
      [(sharedId, netMessageGrant), (sharedId, netMessageSummary)] := by decide
  rw [hpairs] at hfair
  refine hfair (List.replicate 2 (.nextPacket (fun _ => true) true true)) ?_ ?_
  swap
  · simp only [List.replicate, gossip, List.length_cons, List.length_nil]
  have hworks : NodeAction.Works (.nextPacket (fun _ => true) true true) :=
    ⟨fun _ => rfl, rfl, rfl⟩
  exact ⟨leftRun_serving 0 (by decide), hworks, leftRun_serving 1 (by decide), hworks,
    leftRun_serving 2 (by decide)⟩

end Jani
