import Jani.Lib.Forest
import Jani.Lib.Layout
import Jani.Obj.ObjectId
import Mathlib.Data.Fintype.Pi

/-!
# Capabilities and capability tables (`capability.c`, `cap_table.c`)

A capability names an object and the rights on it.  A component holds its capabilities in a table
of sixteen slots.  A slot remembers from which slot of the same table its capability was derived,
and its *generation*: how often it was filled, so that a slot and a generation together name one
capability for good.

An empty slot is one whose object is zero.  The null pointer that `capability_table_get` returns
for a slot without a usable capability is `none`.
-/

namespace Jani

/-! ### Capabilities -/

def capRightRead : UInt32 := 0x01

def capRightWrite : UInt32 := 0x02

def capRightSend : UInt32 := 0x04

def capRightGrant : UInt32 := 0x08

def capRightAll : UInt32 := capRightRead ||| capRightWrite ||| capRightSend ||| capRightGrant

@[ext]
structure Capability where
  object : ObjectId
  rights : UInt32
  badge : UInt32
deriving DecidableEq, Repr, Inhabited

/-- The contents of an empty slot. -/
def Capability.zero : Capability := ⟨⟨0, 0⟩, 0, 0⟩

def objectIdLayout : Layout ObjectId :=
  (Layout.word64.pair Layout.word64).map
    ⟨fun id => (id.high, id.low), fun p => ⟨p.1, p.2⟩, fun _ => rfl, fun _ => rfl⟩

def capabilityLayout : Layout Capability :=
  (objectIdLayout.pair (Layout.word32.pair Layout.word32)).map
    ⟨fun c => (c.object, c.rights, c.badge), fun p => ⟨p.1, p.2.1, p.2.2⟩, fun _ => rfl,
      fun _ => rfl⟩

def capabilityIsValid (capability : Capability) : Bool :=
  if objectIdIsZero capability.object then false
  else if capability.rights = 0 then false
  else if capability.rights &&& ~~~capRightAll ≠ 0 then false
  else true

def capabilityAllows (capability : Capability) (requiredRights : UInt32) : Bool :=
  if !capabilityIsValid capability then false
  else if requiredRights = 0 ∨ requiredRights &&& ~~~capRightAll ≠ 0 then false
  else capability.rights &&& requiredRights = requiredRights

def capabilityDerive (parent : Capability) (childRights childBadge : UInt32) : Option Capability :=
  if !capabilityIsValid parent then none
  else if !capabilityAllows parent capRightGrant then none
  else if childRights = 0 ∨ childRights &&& ~~~capRightAll ≠ 0 then none
  else if childRights &&& parent.rights ≠ childRights then none
  else some ⟨parent.object, childRights, childBadge⟩

/-! ### Slots -/

abbrev Slot := Fin 16

def capSlotNone : UInt32 := 0xFFFFFFFF

/-- The slot a 32-bit index names, if it is below `CAP_TABLE_SLOTS`. -/
def slotIndex (slot : UInt32) : Option Slot :=
  if h : slot.toNat < 16 then some ⟨slot.toNat, h⟩ else none

/-- The 32-bit index of a slot. -/
def Slot.word (i : Slot) : UInt32 := UInt32.ofNat i.val

@[ext]
structure CapabilityTable where
  slots : Slot → Capability
  parents : Slot → UInt32
  generations : Slot → UInt32
deriving DecidableEq

namespace CapabilityTable

def init : CapabilityTable := ⟨fun _ => Capability.zero, fun _ => capSlotNone, fun _ => 0⟩

/-- The capability in a slot, if it is usable. -/
def at? (t : CapabilityTable) (i : Slot) : Option Capability :=
  if capabilityIsValid (t.slots i) ∧ t.generations i ≠ 0 then some (t.slots i) else none

/-- The slot from which the capability in a slot was derived, if it is a slot. -/
def parent? (t : CapabilityTable) (i : Slot) : Option Slot := slotIndex (t.parents i)

/-- The table with a capability written into a slot. -/
def set (t : CapabilityTable) (i : Slot) (capability : Capability) (parent : UInt32) :
    CapabilityTable :=
  { t with
    slots := Function.update t.slots i capability
    parents := Function.update t.parents i parent }

/-- The table with the given slots emptied; their generations stay. -/
def clear (t : CapabilityTable) (revoked : Slot → Bool) : CapabilityTable :=
  { t with
    slots := fun i => if revoked i then Capability.zero else t.slots i
    parents := fun i => if revoked i then capSlotNone else t.parents i }

end CapabilityTable

/-- The first empty slot whose generation can still grow, with its generation raised. -/
def capabilityTableClaimSlot (t : CapabilityTable) : Option (Slot × CapabilityTable) :=
  match (List.finRange 16).find? fun i =>
      objectIdIsZero (t.slots i).object && (t.generations i ≠ 0xFFFFFFFF) with
  | none => none
  | some i =>
    some (i, { t with generations := Function.update t.generations i (t.generations i + 1) })

def capabilityTableInsertRoot (t : CapabilityTable) (capability : Capability) :
    Option (Slot × CapabilityTable) :=
  if !capabilityIsValid capability then none
  else match capabilityTableClaimSlot t with
    | none => none
    | some (i, t) => some (i, t.set i capability capSlotNone)

def capabilityTableGet (t : CapabilityTable) (slot : UInt32) : Option Capability :=
  (slotIndex slot).bind t.at?

def capabilityTableGeneration (t : CapabilityTable) (slot : UInt32) : UInt32 :=
  match slotIndex slot with
  | none => 0
  | some i => if (t.at? i).isSome then t.generations i else 0

def capabilityTableDerive (t : CapabilityTable) (parentSlot childRights childBadge : UInt32) :
    Option (Slot × CapabilityTable) :=
  match (capabilityTableGet t parentSlot).bind fun parent =>
      capabilityDerive parent childRights childBadge with
  | none => none
  | some child => match capabilityTableClaimSlot t with
    | none => none
    | some (i, t) => some (i, t.set i child parentSlot)

/-- The links of the table, from parents to children, in the order of the children. -/
def CapabilityTable.links (t : CapabilityTable) : List (Slot × Slot) :=
  (List.finRange 16).filterMap fun child => (t.parent? child).map fun parent => (parent, child)

def capabilityTableRevoke (t : CapabilityTable) (slot : UInt32) : Option CapabilityTable :=
  match slotIndex slot with
  | none => none
  | some i =>
    if (t.at? i).isNone then none
    else
      let revoked := spread (fun _ => false) t.links (t.links.length + 1) [i]
      some (t.clear fun current => revoked.contains current)

def capabilityTableFind (t : CapabilityTable) (object : ObjectId) : Option Slot :=
  if objectIdIsZero object then none
  else (List.finRange 16).find? fun i => match t.at? i with
    | none => false
    | some capability => objectIdEqual capability.object object

/-! ### Validity of a table -/

/-- What a parent has to be for a derived capability. -/
def capabilityCovers (parent child : Capability) : Bool :=
  capabilityIsValid parent && objectIdEqual child.object parent.object &&
    capabilityAllows parent capRightGrant && (child.rights &&& parent.rights = child.rights)

/-- The walk from a slot to the root it was derived from; it gives up after `depth` slots. -/
def ancestorsValid (t : CapabilityTable) : Nat → Slot → Bool
  | 0, _ => false
  | depth + 1, current =>
    if t.parents current = capSlotNone then true
    else match t.parent? current with
      | none => false
      | some parentSlot => match t.at? current, t.at? parentSlot with
        | some child, some parent =>
          if capabilityCovers parent child then ancestorsValid t depth parentSlot else false
        | _, _ => false

def capabilityTableIsValid (t : CapabilityTable) : Bool :=
  (List.finRange 16).all fun i =>
    if objectIdIsZero (t.slots i).object then
      (t.slots i).rights = 0 ∧ (t.slots i).badge = 0 ∧ t.parents i = capSlotNone
    else if !capabilityIsValid (t.slots i) ∨ t.generations i = 0 then false
    else ancestorsValid t 16 i

end Jani
