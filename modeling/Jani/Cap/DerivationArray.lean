import Jani.Cap.Derivation

/-!
# The derivation table in memory (`derivation.c`)

`struct capability_derivation_table` is an array of 64 records and the number of those in use.  The
functions here run the loops of the source over this array: the search for a record, the walk up to
a root, the append with its roll-back, and the compaction in place that removes a subtree.  The
records in use (`DerivationArray.used`) are the table of `Jani.Cap.Derivation`.
-/

namespace Jani

structure DerivationArray where
  records : Fin 64 → CapabilityDerivation
  count : UInt32

def capabilityRefIsZero (reference : CapabilityRef) : Bool :=
  objectIdIsZero reference.componentId && (reference.slot = 0) && (reference.generation = 0)

def derivationIsZero (derivation : CapabilityDerivation) : Bool :=
  capabilityRefIsZero derivation.parent && capabilityRefIsZero derivation.child

def CapabilityDerivation.zero : CapabilityDerivation := ⟨CapabilityRef.zero, CapabilityRef.zero⟩

/-- The array with the record at an index replaced. -/
def setRecord (records : Fin 64 → CapabilityDerivation) (index : Nat)
    (record : CapabilityDerivation) : Fin 64 → CapabilityDerivation :=
  fun i => if i.val = index then record else records i

namespace DerivationArray

def init : DerivationArray := ⟨fun _ => .zero, 0⟩

/-- The indices that a loop over the records in use takes. -/
def indices (table : DerivationArray) : List (Fin 64) :=
  (List.finRange 64).take table.count.toNat

/-- The records in use. -/
def used (table : DerivationArray) : CapabilityDerivationTable :=
  table.indices.map table.records

def findChildRecord (table : DerivationArray) (child : CapabilityRef) : Option (Fin 64) :=
  table.indices.find? fun index => (table.records index).child = child

/-- The loop over `depth`, with the number of rounds that are left. -/
def walkAvoids (table : DerivationArray) (child : CapabilityRef) : Nat → CapabilityRef → Bool
  | 0, _ => false
  | depth + 1, current =>
    if current = child then false
    else match table.findChildRecord current with
      | none => true
      | some index => walkAvoids table child depth (table.records index).parent

/-- What the last loop of `capability_derivation_table_is_valid` checks for one record. -/
def recordIsValid (table : DerivationArray) (index : Fin 64) : Bool :=
  let record := table.records index
  capabilityRefIsValid record.parent ∧ capabilityRefIsValid record.child ∧
    record.parent ≠ record.child ∧
    (∀ other < index, (table.records other).child ≠ record.child) ∧
    table.walkAvoids record.child table.count.toNat record.parent

def isValid (table : DerivationArray) : Bool :=
  table.count.toNat ≤ capDerivationMax ∧
    (∀ index : Fin 64, table.count.toNat ≤ index → derivationIsZero (table.records index)) ∧
    ∀ index ∈ table.indices, table.recordIsValid index

/-- `capability_derivation_add`: the answer and the table afterwards. -/
def add (table : DerivationArray) (parent child : CapabilityRef) : Bool × DerivationArray :=
  if !table.isValid ∨ !capabilityRefIsValid parent ∨ !capabilityRefIsValid child ∨
      parent = child ∨ table.count.toNat = capDerivationMax ∨
      (table.findChildRecord child).isSome then (false, table)
  else
    let appended : DerivationArray :=
      ⟨setRecord table.records table.count.toNat ⟨parent, child⟩, table.count + 1⟩
    if !appended.isValid then
      (false, ⟨setRecord appended.records table.count.toNat .zero, appended.count - 1⟩)
    else (true, appended)

/-- One round of the compaction: the array and `write_index`. -/
def compactStep (descendants : List CapabilityRef)
    (state : (Fin 64 → CapabilityDerivation) × Nat) (readIndex : Fin 64) :
    (Fin 64 → CapabilityDerivation) × Nat :=
  if (state.1 readIndex).child ∈ descendants then state
  else
    (if state.2 ≠ readIndex.val then setRecord state.1 state.2 (state.1 readIndex) else state.1,
      state.2 + 1)

/-- `capability_derivation_remove_subtree`: the descendants written to `descendants_out`, or
`none` when the call fails, and the table afterwards. -/
def removeSubtree (table : DerivationArray) (root : CapabilityRef) (capacity : Nat) :
    Option (List CapabilityRef) × DerivationArray :=
  if !table.isValid ∨ !capabilityRefIsValid root then (none, table)
  else
    let descendants := derivationDescendants table.used root
    if descendants.length > capacity then (none, table)
    else
      let compacted := table.indices.foldl (compactStep descendants) (table.records, 0)
      (some descendants,
        ⟨fun index => if compacted.2 ≤ index ∧ index < table.count.toNat then .zero
          else compacted.1 index, UInt32.ofNat compacted.2⟩)

/-! ### The lineage object -/

/-- `capability_lineage_encode`. -/
def lineageEncode (table : DerivationArray) (capacity : Nat) : Option (List UInt8) :=
  if capacity < 3096 ∨ !table.isValid then none
  else
    let records := lineageRecordsLayout.write table.records
    some (lineageHeaderLayout.write ⟨capLineageMagic, 1, table.count, objectCrc32c records, 0⟩ ++
      records)

/-- The count and the records of a stored lineage. -/
def ofLineage (bytes : List UInt8) : DerivationArray :=
  ⟨lineageRecordsLayout.read (bytes.drop 24), (lineageHeaderLayout.read bytes).count⟩

/-- `capability_lineage_decode`. -/
def lineageDecode (bytes : List UInt8) : Option DerivationArray :=
  if !capabilityLineageValidate bytes then none else some (ofLineage bytes)

end DerivationArray

end Jani
