import Jani.Obj.ObjectMap
import Jani.Wasm.Mailbox

/-!
# Components (`component.c`, `component_set.c`, `instance_state.c`, `mailbox_validate.zig`)

A component lives in four stored objects: its module, its capability table, its instance state, and
a root record that names the other three.

The interpreter instance of a component appears as its linear memory.  The interpreter itself is
`WasmRuntime`: which modules it accepts, the memory a fresh instance has, and how far it lets a
memory grow.
-/

namespace Jani

/-! ### Identifiers -/

def componentSequenceIdHigh : UInt64 := 2

def componentFenceIdHigh : UInt64 := 0x4a414e49464e4345

def componentTypeModule : ObjectId := ⟨0, 3⟩

def componentTypeCaptable : ObjectId := ⟨0, 4⟩

def componentTypeInstanceState : ObjectId := ⟨0, 5⟩

/-! ### Results of syscalls -/

def janiEinval : Int32 := -1

def janiEperm : Int32 := -2

def janiEnospc : Int32 := -3

def janiErange : Int32 := -5

def janiEnoent : Int32 := -6

/-! ### Components in memory -/

structure ComponentMetrics where
  invocations : UInt64
  cycles : UInt64
  messagesSent : UInt64
deriving DecidableEq

structure Component where
  rootId : ObjectId
  moduleId : ObjectId
  captableId : ObjectId
  stateId : ObjectId
  logicalTime : UInt64
  timerDeadline : UInt64
  timerArmed : Bool
  mailbox : List UInt8
  capabilityTable : CapabilityTable
  capabilityCount : UInt32
  nextObjectSequence : UInt64
  capabilitiesDirty : Bool
  exited : Bool
  exitCode : Int32
  metrics : ComponentMetrics
  memory : List UInt8
deriving DecidableEq

def componentCapabilityInsert (c : Component) (object : ObjectId) (rights badge : UInt32) :
    Option (Slot × Component) :=
  if !capabilityTableIsValid c.capabilityTable then none
  else match capabilityTableFind c.capabilityTable object with
    | some slot =>
      let previous := c.capabilityTable.slots slot
      let capability := { previous with rights := previous.rights ||| rights }
      let table :=
        { c.capabilityTable with slots := Function.update c.capabilityTable.slots slot capability }
      if !capabilityIsValid capability ∨ !capabilityTableIsValid table then none
      else some (slot, { c with capabilityTable := table, capabilitiesDirty := true })
    | none => match capabilityTableInsertRoot c.capabilityTable ⟨object, rights, badge⟩ with
      | none => none
      | some (slot, table) =>
        some (slot, { c with
          capabilityTable := table
          capabilityCount := if slot.word ≥ c.capabilityCount then slot.word + 1
            else c.capabilityCount
          capabilitiesDirty := true })

def componentCapabilityDerive (c : Component) (parentSlot childRights childBadge : UInt32) :
    Option (Slot × Component) :=
  if !capabilityTableIsValid c.capabilityTable ∨ parentSlot ≥ c.capabilityCount then none
  else match capabilityTableDerive c.capabilityTable parentSlot childRights childBadge with
    | none => none
    | some (slot, table) =>
      some (slot, { c with
        capabilityTable := table
        capabilityCount := if slot.word ≥ c.capabilityCount then slot.word + 1
          else c.capabilityCount
        capabilitiesDirty := true })

/-- The count without the unusable slots at its end. -/
def trimCount (t : CapabilityTable) : Nat → UInt32
  | 0 => 0
  | count + 1 =>
    if (capabilityTableGet t (UInt32.ofNat count)).isSome then UInt32.ofNat (count + 1)
    else trimCount t count

def componentCapabilityRevoke (c : Component) (slot : UInt32) : Option Component :=
  if !capabilityTableIsValid c.capabilityTable ∨ slot ≥ c.capabilityCount then none
  else match capabilityTableRevoke c.capabilityTable slot with
    | none => none
    | some table =>
      some { c with
        capabilityTable := table
        capabilityCount := trimCount table c.capabilityCount.toNat
        capabilitiesDirty := true }

/-! ### The stored capability table -/

def componentCaptableMagic : UInt64 := 0x4A414E495F434150

structure ComponentCaptableHeader where
  magic : UInt64
  formatVersion : UInt32
  slotCount : UInt32
  nextObjectSequence : UInt64
  payloadCrc32c : UInt32
  reserved : UInt32

def captableHeaderLayout : Layout ComponentCaptableHeader :=
  (Layout.word64.pair (Layout.word32.pair (Layout.word32.pair (Layout.word64.pair
    (Layout.word32.pair Layout.word32))))).map
    ⟨fun h => (h.magic, h.formatVersion, h.slotCount, h.nextObjectSequence, h.payloadCrc32c,
      h.reserved),
      fun p => ⟨p.1, p.2.1, p.2.2.1, p.2.2.2.1, p.2.2.2.2.1, p.2.2.2.2.2⟩, fun _ => rfl,
      fun _ => rfl⟩

def captableSlotsLayout : Layout (Slot → Capability) := capabilityLayout.array 16

def captableWordsLayout : Layout (Slot → UInt32) := Layout.word32.array 16

/-- The three arrays of a table, as the current format stores them. -/
def captableLayout : Layout CapabilityTable :=
  (captableSlotsLayout.pair (captableWordsLayout.pair captableWordsLayout)).map
    ⟨fun t => (t.slots, t.parents, t.generations), fun p => ⟨p.1, p.2.1, p.2.2⟩, fun _ => rfl,
      fun _ => rfl⟩

/-- `component_capability_table_valid` -/
def componentCapabilityTableValid (t : CapabilityTable) (slotCount : UInt32) : Bool :=
  if !capabilityTableIsValid t then false
  else ∀ i : Slot, i.val ≥ slotCount.toNat → (t.at? i).isNone

def captableBytes (t : CapabilityTable) (slotCount : UInt32) (nextObjectSequence : UInt64) :
    List UInt8 :=
  let parents := fun slot =>
    if objectIdIsZero (t.slots slot).object then capSlotNone else t.parents slot
  let image := captableLayout.write { t with parents := parents }
  captableHeaderLayout.write
    ⟨componentCaptableMagic, 3, slotCount, nextObjectSequence, objectCrc32c image, 0⟩ ++ image

def componentCaptableEncode (c : Component) : Option (List UInt8) :=
  if c.capabilityCount > 16 ∨
      !componentCapabilityTableValid c.capabilityTable c.capabilityCount then none
  else some (captableBytes c.capabilityTable c.capabilityCount c.nextObjectSequence)

/-- The put of the stored table. -/
def captableRequest (c : Component) (bytes : List UInt8) : ObjectStorePutRequest where
  id := c.captableId
  typeId := componentTypeCaptable
  creatorId := c.rootId
  modifierId := c.rootId
  logicalTimestamp := c.logicalTime
  payload := bytes

/-- The generations an older table is given. -/
def importedGenerations (slots : Slot → Capability) : Slot → UInt32 :=
  fun slot => if objectIdIsZero (slots slot).object then 0 else 1

/-- The table in a stored payload: the current format has three arrays, version 2 two of them and
version 1 the first only. -/
def captableTable (payload : List UInt8) : CapabilityTable :=
  let version := (captableHeaderLayout.read payload).formatVersion
  let slots := captableSlotsLayout.read (payload.drop 32)
  { slots := slots
    parents := if version ≠ 1 then captableWordsLayout.read (payload.drop 416)
      else fun _ => capSlotNone
    generations := if version = 3 then captableWordsLayout.read (payload.drop 480)
      else importedGenerations slots }

/-- The checks of `component_captable_read` on a stored payload, and the table, slot count and next
object sequence it holds. -/
def captableDecode (payload : List UInt8) : Option (CapabilityTable × UInt32 × UInt64) :=
  let header := captableHeaderLayout.read payload
  if payload.length < 32 then none
  else if header.magic ≠ componentCaptableMagic ∨ header.reserved ≠ 0 ∨ header.slotCount > 16 then
    none
  else if (header.formatVersion = 1 ∧ payload.length = 416) ∨
      (header.formatVersion = 2 ∧ payload.length = 480) ∨
      (header.formatVersion = 3 ∧ payload.length = 544) then
    if objectCrc32c (payload.drop 32) ≠ header.payloadCrc32c then none
    else if !componentCapabilityTableValid (captableTable payload) header.slotCount then none
    else some (captableTable payload, header.slotCount, header.nextObjectSequence)
  else none

/-- `component_captable_read` -/
def componentCaptableRead (store : ObjectMap) (readable : ObjectId → Bool) (c : Component) :
    Option Component :=
  match store.get readable c.captableId with
  | none => none
  | some object =>
    (captableDecode object.payload).map fun (table, slotCount, nextObjectSequence) =>
      { c with
        capabilityTable := table
        capabilityCount := slotCount
        nextObjectSequence := nextObjectSequence
        capabilitiesDirty := false }

/-! ### The stored instance state -/

def instanceStateMagic : UInt64 := 0x4A414E495F535441

structure InstanceStateHeader where
  magic : UInt64
  formatVersion : UInt32
  headerSize : UInt32
  logicalTime : UInt64
  timerDeadline : UInt64
  timerArmed : UInt32
  mailboxUsed : UInt32
  memorySize : UInt64
  payloadCrc32c : UInt32
  reserved : UInt32
  padding : UInt64

def instanceStateHeaderLayout : Layout InstanceStateHeader :=
  (Layout.word64.pair (Layout.word32.pair (Layout.word32.pair (Layout.word64.pair
    (Layout.word64.pair (Layout.word32.pair (Layout.word32.pair (Layout.word64.pair
    (Layout.word32.pair (Layout.word32.pair Layout.word64)))))))))).map
    ⟨fun h => (h.magic, h.formatVersion, h.headerSize, h.logicalTime, h.timerDeadline,
      h.timerArmed, h.mailboxUsed, h.memorySize, h.payloadCrc32c, h.reserved, h.padding),
      fun p => ⟨p.1, p.2.1, p.2.2.1, p.2.2.2.1, p.2.2.2.2.1, p.2.2.2.2.2.1, p.2.2.2.2.2.2.1,
        p.2.2.2.2.2.2.2.1, p.2.2.2.2.2.2.2.2.1, p.2.2.2.2.2.2.2.2.2.1, p.2.2.2.2.2.2.2.2.2.2⟩,
      fun _ => rfl, fun _ => rfl⟩

def instanceStateSerialize (c : Component) : Option (List UInt8) :=
  if c.mailbox.length > componentMailboxBytes ∨
      c.memory.length > 2 ^ 64 - 1 - 64 - c.mailbox.length then none
  else
    let payload := c.mailbox ++ c.memory
    some (instanceStateHeaderLayout.write
      { magic := instanceStateMagic
        formatVersion := 1
        headerSize := 64
        logicalTime := c.logicalTime
        timerDeadline := c.timerDeadline
        timerArmed := if c.timerArmed then 1 else 0
        mailboxUsed := UInt32.ofNat c.mailbox.length
        memorySize := UInt64.ofNat c.memory.length
        payloadCrc32c := objectCrc32c payload
        reserved := 0
        padding := 0 } ++ payload)

def instanceStateBytesValidate (bytes : List UInt8) : Bool :=
  let header := instanceStateHeaderLayout.read bytes
  if bytes.length < 64 then false
  else if header.magic ≠ instanceStateMagic ∨ header.formatVersion ≠ 1 ∨ header.headerSize ≠ 64 ∨
      header.timerArmed > 1 ∨ header.reserved ≠ 0 ∨ header.padding ≠ 0 then false
  else
    let mailbox := header.mailboxUsed.toNat
    if mailbox > 4096 ∨ mailbox > bytes.length - 64 ∨
        header.memorySize.toNat ≠ bytes.length - 64 - mailbox then false
    else if !componentMailboxValidate ((bytes.drop 64).take mailbox) ∨
        objectCrc32c (bytes.drop 64) ≠ header.payloadCrc32c then false
    else true

/-- The size of the memory a valid state holds. -/
def savedMemorySize (bytes : List UInt8) : Nat :=
  (instanceStateHeaderLayout.read bytes).memorySize.toNat

/-- `instance_state_deserialize` into an instance whose memory has the given size. -/
def instanceStateDeserialize (c : Component) (memorySize : Nat) (bytes : List UInt8) :
    Option Component :=
  let header := instanceStateHeaderLayout.read bytes
  if !instanceStateBytesValidate bytes then none
  else if savedMemorySize bytes > memorySize then none
  else
    let mailbox := header.mailboxUsed.toNat
    let saved := (bytes.drop (64 + mailbox)).take (savedMemorySize bytes)
    some { c with
      memory := saved ++ List.replicate (memorySize - savedMemorySize bytes) 0
      mailbox := (bytes.drop 64).take mailbox
      logicalTime := header.logicalTime
      timerDeadline := header.timerDeadline
      timerArmed := header.timerArmed ≠ 0 }

/-- `instance_state_deserialize` as a program that changes the component: the checks, and then the
writes one after the other. -/
def instanceStateDeserializeInto (memorySize : Nat) (bytes : List UInt8) :
    StateM Component Bool := do
  if !instanceStateBytesValidate bytes then
    return false
  if savedMemorySize bytes > memorySize then
    return false
  let header := instanceStateHeaderLayout.read bytes
  let mailbox := header.mailboxUsed.toNat
  let saved := (bytes.drop (64 + mailbox)).take (savedMemorySize bytes)
  modify fun c => { c with
    memory := saved ++ List.replicate (memorySize - savedMemorySize bytes) 0 }
  modify fun c => { c with mailbox := (bytes.drop 64).take mailbox }
  modify fun c => { c with logicalTime := header.logicalTime }
  modify fun c => { c with timerDeadline := header.timerDeadline }
  modify fun c => { c with timerArmed := header.timerArmed ≠ 0 }
  return true

/-- The put of the stored state. -/
def instanceStateRequest (c : Component) (bytes : List UInt8) : ObjectStorePutRequest where
  id := c.stateId
  typeId := componentTypeInstanceState
  creatorId := c.rootId
  modifierId := c.rootId
  logicalTimestamp := c.logicalTime
  payload := bytes

/-! ### The root record -/

/-- The objects a root record names. -/
structure RootIds where
  moduleId : ObjectId
  captableId : ObjectId
  stateId : ObjectId
deriving DecidableEq, Repr

/-! ### Fences and fresh instances -/

def fenceId (root : ObjectId) : ObjectId := ⟨componentFenceIdHigh, root.low⟩

def componentIsFenced (store : ObjectMap) (root : ObjectId) : Bool :=
  if store.requiresRecovery then true
  else root.high = componentSequenceIdHigh ∧ (store.find (fenceId root)).isSome

/-- The interpreter: the memory of a fresh instance of a module, and the size of a memory of some
size that is made to hold a number of bytes. -/
structure WasmRuntime where
  create : List UInt8 → Option (List UInt8)
  grow : Nat → Nat → Option Nat

/-- A component before its objects are read. -/
def Component.blank (rootId : ObjectId) (ids : RootIds) : Component where
  rootId := rootId
  moduleId := ids.moduleId
  captableId := ids.captableId
  stateId := ids.stateId
  logicalTime := 0
  timerDeadline := 0
  timerArmed := false
  mailbox := []
  capabilityTable := CapabilityTable.init
  capabilityCount := 0
  nextObjectSequence := 0
  capabilitiesDirty := false
  exited := false
  exitCode := 0
  metrics := ⟨0, 0, 0⟩
  memory := []

/-! ### Component sets -/

abbrev ComponentSet := Fin 4 → Option Component

/-- The place of the component with the given root. -/
def componentSetFind (set : ComponentSet) (rootId : ObjectId) : Option (Fin 4) :=
  if objectIdIsZero rootId then none
  else (List.finRange 4).find? fun i => match set i with
    | none => false
    | some c => objectIdEqual c.rootId rootId

def componentSetAdd (set : ComponentSet) (c : Component) : Option ComponentSet :=
  if objectIdIsZero c.rootId then none
  else if (componentSetFind set c.rootId).isSome then none
  else match (List.finRange 4).find? fun i => (set i).isNone with
    | none => none
    | some i => some (Function.update set i (some c))

end Jani
