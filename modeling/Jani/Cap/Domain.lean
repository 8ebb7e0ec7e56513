import Jani.Cap.Derivation
import Jani.Cap.Provenance
import Jani.Wasm.Component

/-!
# Capability domains (`domain.c`)

A domain holds the components that run on one store, together with the lineage of their capabilities
across components and the provenance ledger.  Handlers run inside a transaction: `begin` keeps
copies of everything the transaction may change, `commit` writes what was changed in one batch of
the store, and `abort` puts the copies back.  Flags remember which tables and states were changed.

A pointer to a component is its place in the set.  The linear memory of an instance is not part of
`struct component`, so the copies do not restore it.
-/

namespace Jani

structure CapabilityDomain where
  store : ObjectMap
  components : ComponentSet
  lineage : CapabilityDerivationTable
  provenance : ProvenanceLedger
  saved : ComponentSet
  savedLineage : CapabilityDerivationTable
  savedProvenance : ProvenanceLedger
  tablesDirty : Fin 4 → Bool
  statesDirty : Fin 4 → Bool
  lineageDirty : Bool
  provenanceDirty : Bool
  active : Bool
  halted : Bool
  writes : List ObjectStorePutRequest
deriving DecidableEq

namespace CapabilityDomain

/-- The domain with the component at a place replaced. -/
def setComponent (d : CapabilityDomain) (i : Fin 4) (c : Component) : CapabilityDomain :=
  { d with components := Function.update d.components i (some c) }

end CapabilityDomain

/-- The capability in a slot of a component, as other components refer to it. -/
def reference (c : Component) (slot : UInt32) : CapabilityRef :=
  ⟨c.rootId, slot, capabilityTableGeneration c.capabilityTable slot⟩

def capabilityDomainResolve (d : CapabilityDomain) (ref : CapabilityRef) : Option Capability :=
  if !capabilityRefIsValid ref then none
  else match (componentSetFind d.components ref.componentId).bind d.components with
    | none => none
    | some c =>
      if componentIsFenced d.store c.rootId ∨
          capabilityTableGeneration c.capabilityTable ref.slot ≠ ref.generation then none
      else capabilityTableGet c.capabilityTable ref.slot

/-! ### The lineage against the tables -/

/-- The first loop of `graph_matches`: both ends of a derivation are in use, and the parent covers
the child. -/
def edgeMatches (d : CapabilityDomain) (edge : CapabilityDerivation) : Bool :=
  match capabilityDomainResolve d edge.parent, capabilityDomainResolve d edge.child with
  | some p, some c =>
    capabilityAllows p capRightGrant && objectIdEqual p.object c.object &&
      (p.rights &&& c.rights = c.rights)
  | _, _ => false

/-- The second loop of `graph_matches`, for one slot: a parent link within the table is a recorded
derivation, and a recorded derivation within the component is a parent link. -/
def slotMatches (d : CapabilityDomain) (c : Component) (s : Slot) : Bool :=
  let p := c.capabilityTable.parents s
  let found := capabilityDerivationParent d.lineage (reference c s.word)
  (p = capSlotNone || found = some (reference c p)) &&
    (match found with
    | none => true
    | some parent => !objectIdEqual parent.componentId c.rootId || p = parent.slot)

def componentMatches (d : CapabilityDomain) : Option Component → Bool
  | none => true
  | some c => capabilityTableIsValid c.capabilityTable && (List.finRange 16).all (slotMatches d c)

def graphMatches (d : CapabilityDomain) : Bool :=
  d.lineage.all (edgeMatches d) &&
    (List.finRange 4).all fun i => componentMatches d (d.components i)

/-! ### Opening a domain -/

/-- The derivations that the parent links of one table stand for. -/
def localDerivations (c : Component) : List CapabilityDerivation :=
  (List.finRange 16).filterMap fun s =>
    let p := c.capabilityTable.parents s
    if p = capSlotNone then none else some ⟨reference c p, reference c s.word⟩

def addDerivations (table : CapabilityDerivationTable) :
    List CapabilityDerivation → Option CapabilityDerivationTable
  | [] => some table
  | record :: records =>
    (capabilityDerivationAdd table record.parent record.child).bind fun table =>
      addDerivations table records

/-- The lineage of components that have local ancestry only. -/
def importLineage (components : ComponentSet) (table : CapabilityDerivationTable) :
    List (Fin 4) → Option CapabilityDerivationTable
  | [] => some table
  | i :: rest => match components i with
    | none => importLineage components table rest
    | some c =>
      if !capabilityTableIsValid c.capabilityTable then none
      else (addDerivations table (localDerivations c)).bind fun table =>
        importLineage components table rest

/-- A domain without an open transaction. -/
def CapabilityDomain.fresh (store : ObjectMap) (components : ComponentSet)
    (lineage : CapabilityDerivationTable) (provenance : ProvenanceLedger) : CapabilityDomain where
  store := store
  components := components
  lineage := lineage
  provenance := provenance
  saved := fun _ => none
  savedLineage := []
  savedProvenance := ProvenanceLedger.zero
  tablesDirty := fun _ => false
  statesDirty := fun _ => false
  lineageDirty := false
  provenanceDirty := false
  active := false
  halted := false
  writes := []

/-- The lineage a domain starts with, and the store after it was stored the first time. -/
def openLineage (store : ObjectMap) (components : ComponentSet) (readable : ObjectId → Bool)
    (fate : CommitFate) : Option CapabilityDerivationTable × ObjectMap :=
  if (store.find lineageId).isSome then (capabilityLineageLoad store readable, store)
  else match importLineage components [] (List.finRange 4) with
    | none => (none, store)
    | some table => match capabilityLineageEncode table with
      | none => (none, store)
      | some bytes => match store.putMany [capabilityLineageRequest bytes] fate with
        | (.committed, store) => (some table, store)
        | (_, store) => (none, store)

def capabilityDomainOpen (store : ObjectMap) (components : ComponentSet)
    (readable : ObjectId → Bool) (fate : CommitFate) : Option CapabilityDomain × ObjectMap :=
  if store.requiresRecovery then (none, store)
  else match openLineage store components readable fate with
    | (none, store) => (none, store)
    | (some lineage, store) =>
      let d := CapabilityDomain.fresh store components lineage ProvenanceLedger.zero
      if !graphMatches d then (none, store)
      else if (store.find provenanceId).isSome then
        match provenanceLoad store readable with
        | none => (none, store)
        | some provenance => (some { d with provenance := provenance }, store)
      else (some d, store)

/-! ### Transactions -/

def capabilityDomainBegin (d : CapabilityDomain) : Option CapabilityDomain :=
  if d.active ∨ d.halted ∨ d.store.requiresRecovery then none
  else some
    { d with
      saved := d.components
      savedLineage := d.lineage
      savedProvenance := d.provenance
      provenanceDirty := false
      tablesDirty := fun _ => false
      statesDirty := fun _ => false
      lineageDirty := false
      writes := []
      active := true }

/-- The component as it was saved, in the memory its instance has now. -/
def restoreComponent : Option Component → Option Component → Option Component
  | some c, some saved => some { saved with memory := c.memory }
  | c, _ => c

def capabilityDomainAbort (d : CapabilityDomain) : CapabilityDomain :=
  if !d.active then d
  else
    { d with
      components := fun i => restoreComponent (d.components i) (d.saved i)
      lineage := d.savedLineage
      provenance := d.savedProvenance
      writes := []
      active := false }

def capabilityDomainStateChanged (d : CapabilityDomain) (i : Fin 4) : CapabilityDomain :=
  if d.active then { d with statesDirty := Function.update d.statesDirty i true } else d

/-- The staged writes with one more, in the place of an earlier one of the same object. -/
def stageWrite (request : ObjectStorePutRequest) :
    List ObjectStorePutRequest → List ObjectStorePutRequest
  | [] => [request]
  | r :: writes =>
    if objectIdEqual r.id request.id then request :: writes else r :: stageWrite request writes

def capabilityDomainWrite (d : CapabilityDomain) (request : ObjectStorePutRequest) :
    Option CapabilityDomain :=
  if !d.active ∨ request.payload.length = 0 then none
  else
    let writes := stageWrite request d.writes
    if writes.length > objectStorePutBatchMax then none else some { d with writes := writes }

/-- The object as the transaction sees it. -/
def capabilityDomainRead (d : CapabilityDomain) (readable : ObjectId → Bool) (id : ObjectId) :
    Option StoredObject :=
  if d.halted then none
  else match (if d.active then d.writes.find? fun r => objectIdEqual r.id id else none) with
    | some r => some ⟨r.typeId, r.creatorId, ⟨0, 0⟩, 0, r.payload⟩
    | none => d.store.get readable id

/-- The put of a changed capability table. -/
def tableRequests (d : CapabilityDomain) (i : Fin 4) (c : Component) :
    Option (List ObjectStorePutRequest) :=
  if c.capabilitiesDirty ∨ d.tablesDirty i then
    (componentCaptableEncode c).map fun bytes => [captableRequest c bytes]
  else some []

/-- The put of a changed instance state. -/
def instanceRequests (d : CapabilityDomain) (i : Fin 4) (c : Component) :
    Option (List ObjectStorePutRequest) :=
  if d.statesDirty i then
    (instanceStateSerialize c).map fun bytes => [instanceStateRequest c bytes]
  else some []

def componentRequests (d : CapabilityDomain) (i : Fin 4) : Option (List ObjectStorePutRequest) :=
  match d.components i with
  | none => some []
  | some c => (tableRequests d i c).bind fun tables =>
      (instanceRequests d i c).map fun states => tables ++ states

def lineageRequests (d : CapabilityDomain) : Option (List ObjectStorePutRequest) :=
  if d.lineageDirty then
    (capabilityLineageEncode d.lineage).map fun bytes => [capabilityLineageRequest bytes]
  else some []

def provenanceRequests (d : CapabilityDomain) : Option (List ObjectStorePutRequest) :=
  if d.provenanceDirty then
    (provenanceEncode d.provenance).map fun bytes => [provenanceRequest bytes]
  else some []

/-- The results of several steps one after the other. -/
def concatAll : List (Option (List ObjectStorePutRequest)) → Option (List ObjectStorePutRequest)
  | [] => some []
  | step :: steps => step.bind fun requests => (concatAll steps).map fun rest => requests ++ rest

/-- The puts a transaction needs: its writes, the changed tables and states, the lineage and the
ledger. -/
def stagedRequests (d : CapabilityDomain) : Option (List ObjectStorePutRequest) :=
  concatAll ([some d.writes] ++ (List.finRange 4).map (componentRequests d) ++
    [lineageRequests d, provenanceRequests d])

def capabilityDomainCommit (d : CapabilityDomain) (fate : CommitFate) :
    ObjectStoreBatchResult × CapabilityDomain :=
  if !d.active then (.rejected, d)
  else
    let (result, store) :=
      if !graphMatches d then (.rejected, d.store)
      else match stagedRequests d with
        | none => (.rejected, d.store)
        | some requests =>
          if requests.length > objectStorePutBatchMax then (.rejected, d.store)
          else if requests.length = 0 then (.committed, d.store)
          else d.store.putMany requests fate
    let d := { d with store := store }
    if result = .committed then
      (result, { d with
        components := fun i => (d.components i).map fun c => { c with capabilitiesDirty := false }
        writes := []
        active := false })
    else
      let d := capabilityDomainAbort d
      (result, { d with halted := d.halted || result = .recoveryRequired })

/-! ### Operations inside a transaction -/

/-- The slot count after a slot was filled. -/
def raiseCount (count : UInt32) (slot : Slot) : UInt32 :=
  if slot.word ≥ count then slot.word + 1 else count

def capabilityDomainDerive (d : CapabilityDomain) (i : Fin 4) (slot rights badge : UInt32) :
    Int32 × CapabilityDomain :=
  match d.components i with
  | none => (janiEinval, d)
  | some owner =>
    if !d.active then (janiEinval, d)
    else match capabilityTableDerive owner.capabilityTable slot rights badge with
      | none => (janiEperm, d)
      | some (child, staged) =>
        let childRef : CapabilityRef := ⟨owner.rootId, child.word, staged.generations child⟩
        match capabilityDerivationAdd d.lineage (reference owner slot) childRef with
        | none => (janiEnospc, d)
        | some graph =>
          (child.word.toInt32,
            { d.setComponent i { owner with
                capabilityTable := staged
                capabilityCount := raiseCount owner.capabilityCount child } with
              lineage := graph
              lineageDirty := true
              tablesDirty := Function.update d.tablesDirty i true })

/-- What a message carries: the staged table of the receiver, the lineage, and the filled slot. -/
structure Attachment where
  table : CapabilityTable
  graph : CapabilityDerivationTable
  slot : Slot

/-- The part of `capability_domain_send` that attaches a capability, with its error. -/
def attachCapability (d : CapabilityDomain) (readable : ObjectId → Bool)
    (sender receiver : Component)
    (same : Bool) (source rights badge : UInt32) : Except Int32 Attachment :=
  match capabilityTableGet sender.capabilityTable source with
  | none => .error janiEperm
  | some parent => match capabilityDerive parent rights badge with
    | none => .error janiEperm
    | some capability =>
      if (capabilityDomainRead d readable parent.object).isNone then .error janiEnoent
      else match capabilityTableInsertRoot receiver.capabilityTable capability with
        | none => .error janiEnospc
        | some (child, staged) =>
          let staged := if same then
            { staged with parents := Function.update staged.parents child source } else staged
          let childRef : CapabilityRef := ⟨receiver.rootId, child.word, staged.generations child⟩
          match capabilityDerivationAdd d.lineage (reference sender source) childRef with
          | none => .error janiEnospc
          | some graph => .ok ⟨staged, graph, child⟩

def capabilityDomainSend (d : CapabilityDomain) (readable : ObjectId → Bool) (i : Fin 4)
    (target : UInt32) (payload : List UInt8) (source : Int32) (rights badge : UInt32) :
    Int32 × CapabilityDomain :=
  match d.components i with
  | none => (janiEinval, d)
  | some sender =>
    if !d.active ∨ payload.length > 4096 ∨ source < -1 then (janiEinval, d)
    else match capabilityTableGet sender.capabilityTable target with
      | none => (janiEperm, d)
      | some destination =>
        if !capabilityAllows destination capRightSend then (janiEperm, d)
        else match componentSetFind d.components destination.object with
          | none => (janiEnoent, d)
          | some r => match d.components r with
            | none => (janiEnoent, d)
            | some receiver =>
              if receiver.exited then (janiEnoent, d)
              else if source = -1 then
                if rights ≠ 0 ∨ badge ≠ 0 then (janiEinval, d)
                else match componentMailboxPush receiver.mailbox payload capSlotNone with
                  | none => (janiEnospc, d)
                  | some mailbox =>
                    (0, capabilityDomainStateChanged
                      (d.setComponent r { receiver with mailbox := mailbox }) r)
              else match attachCapability d readable sender receiver (i = r) source.toUInt32 rights
                  badge with
                | .error code => (code, d)
                | .ok attachment =>
                  match componentMailboxPush receiver.mailbox payload attachment.slot.word with
                  | none => (janiEnospc, d)
                  | some mailbox =>
                    (0, capabilityDomainStateChanged
                      { d.setComponent r { receiver with
                          mailbox := mailbox
                          capabilityTable := attachment.table
                          capabilityCount :=
                            raiseCount receiver.capabilityCount attachment.slot } with
                        tablesDirty := Function.update d.tablesDirty r true
                        lineage := attachment.graph
                        lineageDirty := true } r)

/-- One step of the last loop of `capability_domain_revoke`. -/
def clearReference (d : CapabilityDomain) (ref : CapabilityRef) : CapabilityDomain :=
  match componentSetFind d.components ref.componentId, slotIndex ref.slot with
  | some i, some s => match d.components i with
    | none => d
    | some c =>
      let stripped := stripAttachment c.mailbox ref.slot
      let table := c.capabilityTable.clear fun current => current = s
      let d := d.setComponent i { c with
        mailbox := stripped.2
        capabilityTable := table
        capabilityCount := trimCount table c.capabilityCount.toNat }
      let d := if stripped.1 then capabilityDomainStateChanged d i else d
      { d with tablesDirty := Function.update d.tablesDirty i true }
  | _, _ => d

/-- Whether a capability that is to be revoked is in use, by a component with a valid mailbox. -/
def revocable (d : CapabilityDomain) (ref : CapabilityRef) : Bool :=
  (capabilityDomainResolve d ref).isSome &&
    match (componentSetFind d.components ref.componentId).bind d.components with
    | none => false
    | some c => componentMailboxValidate c.mailbox

def capabilityDomainRevoke (d : CapabilityDomain) (i : Fin 4) (slot : UInt32) :
    Int32 × CapabilityDomain :=
  match d.components i with
  | none => (janiEinval, d)
  | some owner =>
    if !d.active ∨ (capabilityTableGet owner.capabilityTable slot).isNone then (janiEinval, d)
    else
      let root := reference owner slot
      match capabilityDerivationRemoveSubtree d.lineage root capDerivationMax with
      | none => (janiEinval, d)
      | some (descendants, graph) =>
        let removed := root :: descendants
        -- the incoming edge goes too, so that nothing dangles when the slot is used again
        let graph := graph.eraseP fun record => record.child = root
        if !removed.all (revocable d) then (janiEinval, d)
        else (0, { removed.foldl clearReference d with lineage := graph, lineageDirty := true })

end Jani
