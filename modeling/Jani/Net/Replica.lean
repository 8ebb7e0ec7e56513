import Jani.Lib.Crypto
import Jani.Net.Crdt
import Jani.Obj.ObjectMap

/-!
# Replicas (`replica.c`, `replica_validate.zig`)

Two nodes share replicated values.  Each keeps a *catalog* of the values it knows, its scopes: the
owner of a value, the rights of the other node, and an epoch that grows with every change of the
rights.  The owner announces a scope with a *grant*; both send *summaries* of what they hold, and
answer a summary that differs from their own state with an *update*.

The functions take what the session opens and return what they hand to it to be sealed.  The store
is an `ObjectMap`; `readable` and `fate` say how the device behaves during the call.
-/

namespace Jani

def replicaObjectsMax : Nat := 8

def replicaCatalogBytes : Nat := 400

def replicaRead : UInt32 := 1

def replicaWrite : UInt32 := 2

def replicaMetaId : ObjectId := ⟨0x4A414E49354E4554, 0⟩

def replicaTypeBase : UInt64 := 0x5000

def netMessageSummary : UInt32 := 1

def netMessageUpdate : UInt32 := 2

def netMessageGrant : UInt32 := 3

structure ReplicaScope where
  id : ObjectId
  epoch : UInt64
  kind : UInt32
  rights : UInt32
  owned : UInt32
  reserved : UInt32
deriving DecidableEq, Repr

/-- The scopes in use, in order. -/
abbrev ReplicaCatalog := List ReplicaScope

structure ReplicaMessage where
  id : ObjectId
  epoch : UInt64
  kind : UInt32
  rights : UInt32
  vector : Fin 2 → UInt64
  digest : List UInt8

structure Replica where
  localKey : Block 32
  peerKey : Block 32
  catalog : ReplicaCatalog
  localNamespace : UInt64
  peerNamespace : UInt64
  localNode : UInt32
  cursor : Nat
  sendGrant : Bool
  halted : Bool

/-- The results `1`, `0` and `-1`. -/
inductive ReplicaResult where
  | accepted
  | rejected
  | remount
deriving DecidableEq, Repr

/-! ### The catalog -/

def scopeValid (s : ReplicaScope) : Bool :=
  s.id.high ≥ 0x8000000000000000 ∧ s.id.low ≠ 0 ∧ s.epoch ≠ 0 ∧ s.kind ≥ 1 ∧ s.kind ≤ 2 ∧
    s.rights ≤ 3 ∧ s.owned ≤ 1 ∧ s.reserved = 0

/-- The loop over the scopes in use, after the scopes `prior`. -/
def scopesValid : (prior : List ReplicaScope) → List ReplicaScope → Bool
  | _, [] => true
  | prior, s :: scopes =>
    if !scopeValid s then false
    else if ∃ p ∈ prior, objectIdEqual s.id p.id then false
    else scopesValid (prior ++ [s]) scopes

def catalogValid (c : ReplicaCatalog) : Bool :=
  if c.length > replicaObjectsMax then false else scopesValid [] c

/-- The bytes of `"JC5A"`. -/
def replicaCatalogMagic : List UInt8 := [0x4A, 0x43, 0x35, 0x41]

def zeroScope : ReplicaScope := ⟨⟨0, 0⟩, 0, 0, 0, 0, 0⟩

def ReplicaScope.bytes (s : ReplicaScope) : List UInt8 :=
  leId s.id ++ (le64 s.epoch ++ (le32 s.kind ++ (le32 s.rights ++ (le32 s.owned ++ le32 0))))

def ReplicaScope.ofBytes (bytes : List UInt8) : ReplicaScope :=
  ⟨idAt bytes 0, u64At bytes 16, u32At bytes 24, u32At bytes 28, u32At bytes 32, u32At bytes 36⟩

def catalogBytes (localKey peerKey : Block 32) (c : ReplicaCatalog) : List UInt8 :=
  replicaCatalogMagic ++ [1, 0, 0, 0] ++ localKey.bytes ++ peerKey.bytes ++
    le32 (UInt32.ofNat c.length) ++ le32 0 ++
      (c ++ List.replicate (replicaObjectsMax - c.length) zeroScope).flatMap ReplicaScope.bytes

def replicaCatalogEncode (localKey peerKey : Block 32) (c : ReplicaCatalog) : Option (List UInt8) :=
  if !catalogValid c ∨ localKey = peerKey then none else some (catalogBytes localKey peerKey c)

def replicaCatalogDecode (bytes : List UInt8) (localKey peerKey : Block 32) :
    Option ReplicaCatalog :=
  if bytes.length ≠ replicaCatalogBytes then none
  else if bytes.take 4 ≠ replicaCatalogMagic ∨ bytes.getD 4 0 ≠ 1 ∨
      (bytes.drop 8).take 32 ≠ localKey.bytes ∨ (bytes.drop 40).take 32 ≠ peerKey.bytes then none
  else if (bytes.drop 5).take 3 ≠ [0, 0, 0] then none
  else
    let count := (u32At bytes 72).toNat
    let scopes := (List.range replicaObjectsMax).map fun i =>
      ReplicaScope.ofBytes (bytes.drop (80 + 40 * i))
    -- the part of `catalog_valid` about the unused tail
    if count > replicaObjectsMax ∨ u32At bytes 76 ≠ 0 ∨
      (∃ s ∈ scopes.drop count, s ≠ zeroScope) then
      none
    else if catalogValid (scopes.take count) then some (scopes.take count) else none

/-! ### Messages -/

/-- The bytes of `"JR5O"`. -/
def replicaMessageMagic : List UInt8 := [0x4A, 0x52, 0x35, 0x4F]

def messageHeader (s : ReplicaScope) (kind : UInt32) : List UInt8 :=
  replicaMessageMagic ++
    [1, kind.toUInt8, s.kind.toUInt8, if kind = netMessageGrant then s.rights.toUInt8 else 0] ++
      leId s.id ++ le64 s.epoch

/-- The length of a message body of the kind. -/
def messageLength (kind : UInt32) : Option Nat :=
  if kind = 1 then some 80 else if kind = 2 then some 712 else if kind = 3 then some 32 else none

def replicaMessageDecode (b : List UInt8) (packetKind : UInt32) : Option ReplicaMessage :=
  if messageLength packetKind ≠ some b.length then none
  else if b.take 4 ≠ replicaMessageMagic ∨ b.getD 4 0 ≠ 1 ∨
      (b.getD 5 0).toUInt32 ≠ packetKind ∨ b.getD 6 0 < 1 ∨ b.getD 6 0 > 2 ∨ b.getD 7 0 > 3 ∨
      (packetKind ≠ 3 ∧ b.getD 7 0 ≠ 0) then none
  else
    let id := idAt b 8
    let epoch := u64At b 24
    if id.high < 0x8000000000000000 ∨ id.low = 0 ∨ epoch = 0 then none
    else some
      { id := id
        epoch := epoch
        kind := (b.getD 6 0).toUInt32
        rights := (b.getD 7 0).toUInt32
        vector := if packetKind = 1 then ![u64At b 32, u64At b 40] else fun _ => 0
        digest := if packetKind = 1 then (b.drop 48).take 32 else List.replicate 32 0 }

/-! ### Keys -/

/-- The bytes of `"JANI5-ID"`. -/
def namespaceLabel : List UInt8 := [0x4A, 0x41, 0x4E, 0x49, 0x35, 0x2D, 0x49, 0x44]

def namespaceFor (crypto : Crypto) (key : Block 32) : UInt64 :=
  UInt64.ofNat (ofLeBytes ((crypto.blake2b 32 (namespaceLabel ++ key.bytes)).take 8)) |||
    0x8000000000000000

def keyLess : List UInt8 → List UInt8 → Bool
  | a :: left, b :: right => if a ≠ b then a < b else keyLess left right
  | _, _ => false

/-! ### State -/

namespace Replica

def failed (r : Replica) : ReplicaResult := if r.halted then .remount else .rejected

/-- The replica after `healthy`, which halts it if the store has to be mounted again. -/
def checked (r : Replica) (m : ObjectMap) : Replica :=
  if r.halted then r else { r with halted := m.requiresRecovery }

def findScope (r : Replica) (id : ObjectId) : Option ReplicaScope :=
  r.catalog.find? fun s => objectIdEqual s.id id

end Replica

def loadState (m : ObjectMap) (readable : ObjectId → Bool) (scope : ReplicaScope) :
    Option NetCrdt :=
  match m.get readable scope.id with
  | none => none
  | some object =>
    if object.typeId.high ≠ 0 ∨ object.typeId.low ≠ replicaTypeBase + scope.kind.toUInt64 then none
    else
      match netCrdtDecode object.payload with
      | none => none
      | some state => if state.kind ≠ scope.kind then none else some state

/-- The scopes that the two catalogs begin with alike. -/
def commonScopes : ReplicaCatalog → ReplicaCatalog → Nat
  | a :: left, b :: right => if a = b then commonScopes left right + 1 else 0
  | _, _ => 0

/-- The put of a catalog. -/
def catalogRequest (r : Replica) (payload : List UInt8) : ObjectStorePutRequest where
  id := replicaMetaId
  typeId := ⟨0, replicaTypeBase⟩
  creatorId := ⟨r.localNamespace, 1⟩
  modifierId := ⟨r.localNamespace, 1⟩
  logicalTimestamp := 0
  payload := payload

/-- The put of the state of a scope. -/
def stateRequest (r : Replica) (scope : ReplicaScope) (state : NetCrdt) (payload : List UInt8) :
    ObjectStorePutRequest where
  id := scope.id
  typeId := ⟨0, replicaTypeBase + scope.kind.toUInt64⟩
  creatorId := ⟨scope.id.high, 1⟩
  modifierId := ⟨r.localNamespace, 1⟩
  logicalTimestamp := state.timestamp
  payload := payload

def catalogRequests (r : Replica) : Option ReplicaCatalog → Option (List ObjectStorePutRequest)
  | none => some []
  | some catalog =>
    (replicaCatalogEncode r.localKey r.peerKey catalog).map fun payload =>
      [catalogRequest r payload]

def stateRequests (r : Replica) :
    Option (ReplicaScope × NetCrdt) → Option (List ObjectStorePutRequest)
  | none => some []
  | some (scope, state) =>
    (netCrdtEncode state).map fun payload => [stateRequest r scope state payload]

/-- The batch that `publish` commits. -/
def publishRequests (r : Replica) (catalog : Option ReplicaCatalog)
    (state : Option (ReplicaScope × NetCrdt)) : Option (List ObjectStorePutRequest) :=
  match catalogRequests r catalog, stateRequests r state with
  | some first, some second => some (first ++ second)
  | _, _ => none

/-- The replica once a catalog is committed: a changed scope is announced next. -/
def Replica.adopt (r : Replica) (catalog : ReplicaCatalog) : Replica :=
  let changed := commonScopes catalog r.catalog
  if changed < catalog.length then
    { r with catalog := catalog, cursor := changed, sendGrant := true }
  else { r with catalog := catalog }

def publish (r : Replica) (m : ObjectMap) (catalog : Option ReplicaCatalog)
    (state : Option (ReplicaScope × NetCrdt)) (fate : CommitFate) :
    ReplicaResult × Replica × ObjectMap :=
  match publishRequests r catalog state with
  | none => (.rejected, r, m)
  | some requests =>
    match m.putMany requests fate with
    | (.recoveryRequired, m) => (.remount, { r with halted := true }, m)
    | (.rejected, m) => (.rejected, r, m)
    | (.committed, m) =>
      match catalog with
      | none => (.accepted, r, m)
      | some catalog => (.accepted, r.adopt catalog, m)

/-! ### Opening -/

/-- The loop of `replica_open` over the scopes of the stored catalog. -/
def scopesLoad (m : ObjectMap) (readable : ObjectId → Bool) (localNamespace peerNamespace : UInt64)
    (catalog : ReplicaCatalog) : Bool :=
  catalog.all fun s =>
    s.id.high = (if s.owned ≠ 0 then localNamespace else peerNamespace) ∧
      (loadState m readable s).isSome

def replicaOpen (crypto : Crypto) (localKey peerKey : Block 32) (m : ObjectMap)
    (readable : ObjectId → Bool) (fate : CommitFate) : ReplicaResult × Option Replica × ObjectMap :=
  if m.requiresRecovery then (.rejected, none, m)
  else
    let next : Replica :=
      { localKey := localKey
        peerKey := peerKey
        catalog := []
        localNamespace := namespaceFor crypto localKey
        peerNamespace := namespaceFor crypto peerKey
        localNode := if keyLess localKey.bytes peerKey.bytes then 0 else 1
        cursor := 0
        sendGrant := true
        halted := false }
    if next.localNamespace = next.peerNamespace then (.rejected, none, m)
    else if (m.find replicaMetaId).isSome then
      match m.get readable replicaMetaId with
      | none => (.rejected, none, m)
      | some object =>
        if object.typeId ≠ ⟨0, replicaTypeBase⟩ then (.rejected, none, m)
        else
          match replicaCatalogDecode object.payload localKey peerKey with
          | none => (.rejected, none, m)
          | some catalog =>
            if scopesLoad m readable next.localNamespace next.peerNamespace catalog then
              (.accepted, some { next with catalog := catalog }, m)
            else (.rejected, none, m)
    else
      match publish next m (some []) none fate with
      | (.accepted, next, m) => (.accepted, some next, m)
      | (result, _, m) => (result, none, m)

/-! ### Local operations -/

def replicaCreate (r : Replica) (m : ObjectMap) (sequence : UInt64) (kind : UInt32)
    (fate : CommitFate) : ReplicaResult × Replica × ObjectMap :=
  let r := r.checked m
  if r.halted then (r.failed, r, m)
  else if sequence = 0 ∨ r.catalog.length = replicaObjectsMax then (.rejected, r, m)
  else
    let scope : ReplicaScope := ⟨⟨r.localNamespace, sequence⟩, 1, kind, 0, 1, 0⟩
    if (m.find scope.id).isSome then (.rejected, r, m)
    else
      match netCrdtInit kind with
      | none => (.rejected, r, m)
      | some state => publish r m (some (r.catalog ++ [scope])) (some (scope, state)) fate

/-- The catalog with the epoch and rights of a scope changed. -/
def setScope (id : ObjectId) (epoch : UInt64) (rights : UInt32) (c : ReplicaCatalog) :
    ReplicaCatalog :=
  c.map fun s => if objectIdEqual s.id id then { s with epoch := epoch, rights := rights } else s

def replicaShare (r : Replica) (m : ObjectMap) (id : ObjectId) (rights : UInt32)
    (fate : CommitFate) : ReplicaResult × Replica × ObjectMap :=
  let r := r.checked m
  if r.halted then (r.failed, r, m)
  else
    match r.findScope id with
    | none => (.rejected, r, m)
    | some scope =>
      if scope.owned = 0 ∨ rights > 3 then (.rejected, r, m)
      else if scope.rights = rights then (.accepted, r, m)
      else if scope.epoch = 0xFFFFFFFFFFFFFFFF then (.rejected, r, m)
      else publish r m (some (setScope id (scope.epoch + 1) rights r.catalog)) none fate

/-- The operations of `mutate`. -/
inductive ReplicaOperation where
  | set (value : List UInt8)
  | add (item : UInt64)
  | remove (item : UInt64)
deriving DecidableEq, Repr

def ReplicaOperation.apply (state : NetCrdt) (node : UInt32) : ReplicaOperation → Option NetCrdt
  | .set value => netCrdtSet state node value
  | .add item => netCrdtAdd state node item
  | .remove item => netCrdtRemove state node item

def mutate (r : Replica) (m : ObjectMap) (id : ObjectId) (operation : ReplicaOperation)
    (readable : ObjectId → Bool) (fate : CommitFate) : ReplicaResult × Replica × ObjectMap :=
  let r := r.checked m
  if r.halted then (r.failed, r, m)
  else
    match r.findScope id with
    | none => (.rejected, r, m)
    | some scope =>
      if scope.owned = 0 ∧ scope.rights &&& replicaWrite = 0 then (.rejected, r, m)
      else
        match loadState m readable scope with
        | none => (.rejected, r, m)
        | some state =>
          match operation.apply state r.localNode with
          | none => (.rejected, r, m)
          | some state => publish r m none (some (scope, state)) fate

/-! ### Packets -/

def canSend (s : ReplicaScope) : Bool :=
  s.rights &&& (if s.owned ≠ 0 then replicaRead else replicaWrite) ≠ 0

def canReceive (s : ReplicaScope) : Bool :=
  s.rights &&& (if s.owned ≠ 0 then replicaWrite else replicaRead) ≠ 0

/-- A message for the session: its kind and body. -/
abbrev Packet := UInt32 × List UInt8

def Replica.advance (r : Replica) : Replica :=
  if r.cursor + 1 = r.catalog.length then { r with cursor := 0, sendGrant := !r.sendGrant }
  else { r with cursor := r.cursor + 1 }

def summaryBody (crypto : Crypto) (scope : ReplicaScope) (state : NetCrdt) (bytes : List UInt8) :
    List UInt8 :=
  messageHeader scope netMessageSummary ++ le64 (state.vector 0) ++ le64 (state.vector 1) ++
    crypto.blake2b 32 bytes

/-- The loop of `replica_next_packet`; `sealOk` tells whether the session seals the packet. -/
def nextPacketLoop (crypto : Crypto) (m : ObjectMap) (readable : ObjectId → Bool) (sealOk : Bool) :
    (tries : Nat) → Replica → Option Packet × Replica
  | 0, r => (none, r)
  | tries + 1, r =>
    match r.catalog[r.cursor]? with
    | none => (none, r)
    | some scope =>
      if r.sendGrant ∧ scope.owned ≠ 0 ∧ (scope.rights ≠ 0 ∨ scope.epoch > 1) then
        if sealOk then
          (some (netMessageGrant, messageHeader scope netMessageGrant), r.advance)
        else (none, r)
      else if !r.sendGrant ∧ scope.rights ≠ 0 then
        match loadState m readable scope with
        | none => (none, r)
        | some state =>
          match netCrdtEncode state with
          | none => (none, r)
          | some bytes =>
            if sealOk then
              (some (netMessageSummary, summaryBody crypto scope state bytes), r.advance)
            else (none, r)
      else nextPacketLoop crypto m readable sealOk tries r.advance

/-- `active` tells whether the session is established. -/
def replicaNextPacket (crypto : Crypto) (r : Replica) (m : ObjectMap)
    (readable : ObjectId → Bool) (active sealOk : Bool) : Option Packet × Replica :=
  let r := r.checked m
  if r.halted ∨ !active ∨ r.catalog.length = 0 then (none, r)
  else nextPacketLoop crypto m readable sealOk (2 * r.catalog.length) r

def acceptGrant (r : Replica) (m : ObjectMap) (message : ReplicaMessage) (fate : CommitFate) :
    ReplicaResult × Replica × ObjectMap :=
  if message.id.high ≠ r.peerNamespace then (.rejected, r, m)
  else
    match r.findScope message.id with
    | some scope =>
      if scope.owned ≠ 0 ∨ scope.kind ≠ message.kind ∨ message.epoch < scope.epoch then
        (.rejected, r, m)
      else if message.epoch = scope.epoch then
        (if scope.rights = message.rights then .accepted else .rejected, r, m)
      else
        publish r m (some (setScope message.id message.epoch message.rights r.catalog)) none fate
    | none =>
      if message.rights = 0 then (.accepted, r, m)
      else if r.catalog.length = replicaObjectsMax ∨ (m.find message.id).isSome then
        (.rejected, r, m)
      else
        let added : ReplicaScope :=
          ⟨message.id, message.epoch, message.kind, message.rights, 0, 0⟩
        match netCrdtInit added.kind with
        | none => (.rejected, r, m)
        | some empty => publish r m (some (r.catalog ++ [added])) (some (added, empty)) fate

/-- The update of `replica_receive`. -/
def receiveUpdate (r : Replica) (m : ObjectMap) (scope : ReplicaScope) (state : NetCrdt)
    (bytes : List UInt8) (body : List UInt8) (fate : CommitFate) :
    ReplicaResult × Replica × ObjectMap :=
  match netCrdtDecode (body.drop 32) with
  | none => (.rejected, r, m)
  | some remote =>
    if remote.kind ≠ state.kind then (.rejected, r, m)
    else
      match netCrdtMerge state remote with
      | none => (.rejected, r, m)
      | some merged =>
        match netCrdtEncode merged with
        | none => (.rejected, r, m)
        | some next =>
          if bytes = next then (.accepted, r, m)
          else publish r m none (some (scope, merged)) fate

/-- The reply to a summary, if the state of the peer differs and may be sent. -/
def summaryReply (crypto : Crypto) (scope : ReplicaScope) (state : NetCrdt) (bytes : List UInt8)
    (message : ReplicaMessage) : Option Packet :=
  if !canSend scope ∨ (message.vector 0 = state.vector 0 ∧ message.vector 1 = state.vector 1 ∧
      message.digest = crypto.blake2b 32 bytes) then none
  else some (netMessageUpdate, messageHeader scope netMessageUpdate ++ bytes)

/-- `opened` is what the session makes of the packet. -/
def replicaReceive (crypto : Crypto) (r : Replica) (m : ObjectMap) (opened : Option Packet)
    (readable : ObjectId → Bool) (fate : CommitFate) :
    ReplicaResult × Replica × ObjectMap × Option Packet :=
  let r := r.checked m
  if r.halted then (r.failed, r, m, none)
  else
    match opened with
    | none => (.rejected, r, m, none)
    | some (kind, body) =>
      match replicaMessageDecode body kind with
      | none => (.rejected, r, m, none)
      | some message =>
        if kind = netMessageGrant then
          let (result, r, m) := acceptGrant r m message fate
          (result, r, m, none)
        else
          match r.findScope message.id with
          | none => (.rejected, r, m, none)
          | some scope =>
            if scope.kind ≠ message.kind ∨ scope.epoch ≠ message.epoch ∨
                (if kind = netMessageUpdate then !canReceive scope else scope.rights = 0) then
              (.rejected, r, m, none)
            else
              match loadState m readable scope with
              | none => (.rejected, r, m, none)
              | some state =>
                match netCrdtEncode state with
                | none => (.rejected, r, m, none)
                | some bytes =>
                  if kind = netMessageUpdate then
                    let (result, r, m) := receiveUpdate r m scope state bytes body fate
                    (result, r, m, none)
                  else (.accepted, r, m, summaryReply crypto scope state bytes message)

end Jani
