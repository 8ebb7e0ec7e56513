import Jani.Cap.CapTable
import Jani.Obj.ObjectMap

/-!
# Derivations between capabilities (`derivation.c`, `lineage.c`, `lineage_validate.zig`)

A capability is named across components by its owner, its slot and the generation of the slot.  The
derivation table records which capability was derived from which, up to 64 derivations.  It is kept
in the store as the *lineage* object.

The array of records is the list of the records in use; the unused tail, which is zero, appears in
the stored bytes only.
-/

namespace Jani

def capDerivationMax : Nat := 64

structure CapabilityRef where
  componentId : ObjectId
  slot : UInt32
  generation : UInt32
deriving DecidableEq, Repr, Inhabited

structure CapabilityDerivation where
  parent : CapabilityRef
  child : CapabilityRef
deriving DecidableEq, Repr, Inhabited

abbrev CapabilityDerivationTable := List CapabilityDerivation

def capabilityRefIsValid (reference : CapabilityRef) : Bool :=
  !objectIdIsZero reference.componentId && (slotIndex reference.slot).isSome &&
    (reference.generation ≠ 0)

/-- The record whose child is the given capability. -/
def findChildRecord (table : CapabilityDerivationTable) (child : CapabilityRef) :
    Option CapabilityDerivation :=
  table.find? fun record => record.child = child

/-- The walk from a capability up to a root; it fails if it meets `child` or takes `depth` steps. -/
def walkAvoids (table : CapabilityDerivationTable) (child : CapabilityRef) :
    Nat → CapabilityRef → Bool
  | 0, _ => false
  | depth + 1, current =>
    if current = child then false
    else match findChildRecord table current with
      | none => true
      | some record => walkAvoids table child depth record.parent

def capabilityDerivationTableIsValid (table : CapabilityDerivationTable) : Bool :=
  table.length ≤ capDerivationMax ∧
    (∀ record ∈ table, capabilityRefIsValid record.parent ∧ capabilityRefIsValid record.child ∧
      record.parent ≠ record.child ∧ walkAvoids table record.child table.length record.parent) ∧
    (table.map (·.child)).Nodup

def capabilityDerivationAdd (table : CapabilityDerivationTable) (parent child : CapabilityRef) :
    Option CapabilityDerivationTable :=
  if !capabilityDerivationTableIsValid table ∨ !capabilityRefIsValid parent ∨
      !capabilityRefIsValid child ∨ parent = child ∨ table.length = capDerivationMax ∨
      (findChildRecord table child).isSome then none
  else if !capabilityDerivationTableIsValid (table ++ [⟨parent, child⟩]) then none
  else some (table ++ [⟨parent, child⟩])

def capabilityDerivationParent (table : CapabilityDerivationTable) (child : CapabilityRef) :
    Option CapabilityRef :=
  if !capabilityRefIsValid child ∨ !capabilityDerivationTableIsValid table then none
  else (findChildRecord table child).map (·.parent)

/-- The derivations as edges. -/
def derivationEdges (table : CapabilityDerivationTable) : List (CapabilityRef × CapabilityRef) :=
  table.map fun record => (record.parent, record.child)

/-- The descendants `capability_derivation_remove_subtree` collects. -/
def derivationDescendants (table : CapabilityDerivationTable) (root : CapabilityRef) :
    List CapabilityRef :=
  spread (fun reference => reference = root) (derivationEdges table)
    ((derivationEdges table).length + 1) []

/-- The descendants of `root`, and the table without the records of these descendants. -/
def capabilityDerivationRemoveSubtree (table : CapabilityDerivationTable) (root : CapabilityRef)
    (capacity : Nat) : Option (List CapabilityRef × CapabilityDerivationTable) :=
  if !capabilityDerivationTableIsValid table ∨ !capabilityRefIsValid root then none
  else
    let descendants := derivationDescendants table root
    if descendants.length > capacity then none
    else some (descendants, table.filter fun record => record.child ∉ descendants)

/-! ### The lineage object -/

def capabilityRefLayout : Layout CapabilityRef :=
  (objectIdLayout.pair (Layout.word32.pair Layout.word32)).map
    ⟨fun r => (r.componentId, r.slot, r.generation), fun p => ⟨p.1, p.2.1, p.2.2⟩, fun _ => rfl,
      fun _ => rfl⟩

def capabilityDerivationLayout : Layout CapabilityDerivation :=
  (capabilityRefLayout.pair capabilityRefLayout).map
    ⟨fun d => (d.parent, d.child), fun p => ⟨p.1, p.2⟩, fun _ => rfl, fun _ => rfl⟩

def capLineageMagic : UInt64 := 0x4A414E494C494E31

structure LineageHeader where
  magic : UInt64
  version : UInt32
  count : UInt32
  crc : UInt32
  reserved : UInt32

def lineageHeaderLayout : Layout LineageHeader :=
  (Layout.word64.pair (Layout.word32.pair (Layout.word32.pair
    (Layout.word32.pair Layout.word32)))).map
    ⟨fun h => (h.magic, h.version, h.count, h.crc, h.reserved),
      fun p => ⟨p.1, p.2.1, p.2.2.1, p.2.2.2.1, p.2.2.2.2⟩, fun _ => rfl, fun _ => rfl⟩

def lineageRecordsLayout : Layout (Fin 64 → CapabilityDerivation) :=
  capabilityDerivationLayout.array 64

def CapabilityRef.zero : CapabilityRef := ⟨⟨0, 0⟩, 0, 0⟩

/-- The array of records with its unused tail. -/
def lineageRecords (table : CapabilityDerivationTable) : Fin 64 → CapabilityDerivation :=
  fun i => table.getD i ⟨CapabilityRef.zero, CapabilityRef.zero⟩

def capabilityLineageEncode (table : CapabilityDerivationTable) : Option (List UInt8) :=
  if !capabilityDerivationTableIsValid table then none
  else
    let records := lineageRecordsLayout.write (lineageRecords table)
    some (lineageHeaderLayout.write
      ⟨capLineageMagic, 1, UInt32.ofNat table.length, objectCrc32c records, 0⟩ ++ records)

/-- The records in use of a stored lineage. -/
def lineageTable (bytes : List UInt8) : CapabilityDerivationTable :=
  (List.ofFn (lineageRecordsLayout.read (bytes.drop 24))).take
    (lineageHeaderLayout.read bytes).count.toNat

/-! The validator of `lineage_validate.zig` works on the bytes: a reference is a slice of 24 bytes,
and references are compared as slices. -/

def lineageValidRef (bytes : List UInt8) : Bool :=
  (u64At bytes 0 ≠ 0 ∨ u64At bytes 8 ≠ 0) ∧ u32At bytes 16 < 16 ∧ u32At bytes 20 ≠ 0

def lineageParent (bytes : List UInt8) (index : Nat) : List UInt8 :=
  (bytes.drop (24 + index * 48)).take 24

def lineageChild (bytes : List UInt8) (index : Nat) : List UInt8 :=
  (bytes.drop (24 + index * 48 + 24)).take 24

/-- The `while` loop over `depth`, with the number of rounds that are left. -/
def lineageWalk (bytes : List UInt8) (count : Nat) (child : List UInt8) : Nat → List UInt8 → Bool
  | 0, _ => false
  | depth + 1, current =>
    if current = child then false
    else match (List.range count).find? fun other => current = lineageChild bytes other with
      | none => true
      | some other => lineageWalk bytes count child depth (lineageParent bytes other)

/-- What the loop over the records checks for one record. -/
def lineageRecordIsValid (bytes : List UInt8) (count index : Nat) : Bool :=
  let p := lineageParent bytes index
  let c := lineageChild bytes index
  lineageValidRef p && lineageValidRef c && (p ≠ c) &&
    (List.range index).all (fun other => c ≠ lineageChild bytes other) &&
    lineageWalk bytes count c count p

def capabilityLineageValidate (bytes : List UInt8) : Bool :=
  if bytes.length ≠ 3096 then false
  else if u64At bytes 0 ≠ capLineageMagic ∨ u32At bytes 8 ≠ 1 ∨ u32At bytes 20 ≠ 0 then false
  else
    let count := (u32At bytes 12).toNat
    if count > capDerivationMax then false
    else if objectCrc32c (bytes.drop 24) ≠ u32At bytes 16 then false
    else if (bytes.drop (24 + count * 48)).any (· ≠ 0) then false
    else (List.range count).all (lineageRecordIsValid bytes count)

def capabilityLineageDecode (bytes : List UInt8) : Option CapabilityDerivationTable :=
  if !capabilityLineageValidate bytes then none else some (lineageTable bytes)

def lineageId : ObjectId := ⟨4, 0⟩

def lineageType : ObjectId := ⟨0, 7⟩

def capabilityLineageLoad (store : ObjectMap) (readable : ObjectId → Bool) :
    Option CapabilityDerivationTable :=
  match store.get readable lineageId with
  | none => none
  | some object =>
    if !objectIdEqual object.typeId lineageType then none
    else capabilityLineageDecode object.payload

def capabilityLineageRequest (bytes : List UInt8) : ObjectStorePutRequest where
  id := lineageId
  typeId := lineageType
  creatorId := ⟨0, 0⟩
  modifierId := ⟨0, 0⟩
  logicalTimestamp := 0
  payload := bytes

end Jani
