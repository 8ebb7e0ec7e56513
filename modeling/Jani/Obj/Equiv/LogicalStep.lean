import Jani.Obj.Equiv.Logical

/-!
# What the operations are for

The effect of each operation on the logical state of a store: a put replaces the objects it
names, a delete removes one, a snapshot keeps the current objects and a rollback brings them
back.  `StoreOp.Effect` states it for every operation and every result; an operation that fails
leaves the logical state as it was.

The effects say nothing about where on the device an object is put.  They are what the model of
the code is shown to do in `Equiv.Atomic`.
-/

namespace Jani

namespace LogicalState

/-- The entry of an object. -/
def find (L : LogicalState) (id : ObjectId) : Option (ObjectTableEntry × List Sector) :=
  L.objects.find? fun o => o.1.id = id

/-- The version that the next put of an object gets. -/
def nextVersion (L : LogicalState) (id : ObjectId) : UInt64 :=
  match L.find id with
  | none => 1
  | some o => o.1.version + 1

/-- The state without the snapshot in the slot. -/
def discardSlot (L : LogicalState) (slot : Fin objectStoreSnapshotLimit) : LogicalState :=
  { L with
    snapshots := Function.update L.snapshots slot ⟨0, 0, 0⟩
    snapshotObjects := Function.update L.snapshotObjects slot [] }

/-- The state without the snapshot. -/
def discard (L : LogicalState) (snapshotId : UInt64) : LogicalState :=
  match findSnapshot L.snapshots snapshotId with
  | none => L
  | some slot => L.discardSlot slot

/-- The state without its oldest snapshot. -/
def discardOldest (L : LogicalState) : LogicalState :=
  if (scanSnapshots L.snapshots).2 = 0 then L else L.discard (scanSnapshots L.snapshots).2

end LogicalState

/-- What a put checks of a request, apart from the size of the buffer. -/
structure ObjectStorePutRequest.Valid (r : ObjectStorePutRequest) : Prop where
  id_ne : r.id ≠ ⟨0, 0⟩
  typeId_ne : r.typeId ≠ ⟨0, 0⟩
  size : objectHeaderSize + r.payload.length < 2 ^ 64

/-- A committed put: the objects it names have their new version, the others are as before. -/
structure PutEffect (requests : List ObjectStorePutRequest) (L L' : LogicalState) : Prop where
  valid : ∀ r ∈ requests, r.Valid
  generation : L'.generation = L.generation + 1
  snapshots : L'.snapshots = L.snapshots
  snapshotObjects : L'.snapshotObjects = L.snapshotObjects
  written : ∀ r ∈ requests, L.nextVersion r.id ≠ 0 ∧ ∃ firstSector,
    (⟨r.id, L.nextVersion r.id, firstSector,
        UInt64.ofNat (sectorsFor (objectHeaderSize + r.payload.length))⟩,
      objectSectors (putBytes r (L.nextVersion r.id))) ∈ L'.objects
  kept : ∀ o, (∀ r ∈ requests, o.1.id ≠ r.id) → (o ∈ L'.objects ↔ o ∈ L.objects)

/-- A delete that succeeded. -/
structure DeleteEffect (id : ObjectId) (L L' : LogicalState) : Prop where
  generation : L'.generation = L.generation + 1
  snapshots : L'.snapshots = L.snapshots
  snapshotObjects : L'.snapshotObjects = L.snapshotObjects
  objects : ∀ o, o ∈ L'.objects ↔ o ∈ L.objects ∧ o.1.id ≠ id

/-- A snapshot was taken: a free slot holds the current objects, under the number of the new
generation. -/
structure CreateEffect (snapshotId : UInt64) (L L' : LogicalState) : Prop where
  generation : L'.generation = L.generation + 1
  id_eq : snapshotId = L'.generation
  objects : L'.objects = L.objects
  slot : ∃ slot tableSector tableCount, (L.snapshots slot).id = 0 ∧
    L'.snapshots = Function.update L.snapshots slot ⟨snapshotId, tableSector, tableCount⟩ ∧
    L'.snapshotObjects = Function.update L.snapshotObjects slot L.objects

/-- A rollback: the objects of the snapshot are the current ones. -/
structure RollbackEffect (snapshotId : UInt64) (L L' : LogicalState) : Prop where
  generation : L'.generation = L.generation + 1
  snapshots : L'.snapshots = L.snapshots
  snapshotObjects : L'.snapshotObjects = L.snapshotObjects
  slot : ∃ slot, snapshotId ≠ 0 ∧ (L.snapshots slot).id = snapshotId ∧
    L'.objects = L.snapshotObjects slot

/-- The effect of an operation, by its result. -/
def StoreOp.Effect : StoreOp → StoreResult → LogicalState → LogicalState → Prop
  | .putMany requests, .batch .committed, L, L' => PutEffect requests L L'
  | .delete id, .flag true, L, L' => DeleteEffect id L L'
  | .snapshotCreate, .snapshot (some snapshotId), L, L' => CreateEffect snapshotId L L'
  | .snapshotRollback snapshotId, .flag true, L, L' => RollbackEffect snapshotId L L'
  | .snapshotRollback snapshotId, .flag false, L, L' => L' = L ∧
    (snapshotId = 0 ∨ ∀ slot, (L.snapshots slot).id ≠ snapshotId)
  | .snapshotDiscard snapshotId, .flag true, L, L' => L' = L.discard snapshotId
  | .snapshotPrune keep, .flag true, L, L' =>
    L' = LogicalState.discardOldest^[(scanSnapshots L.snapshots).1 - keep] L
  | _, _, L, L' => L' = L

/-- **Inversion**: what an operation may have done to the logical state. -/
theorem StoreOp.effect_cases {op : StoreOp} {r : StoreResult} {L L' : LogicalState}
    (h : op.Effect r L L') : L' = L ∨
      (∃ requests, op = .putMany requests ∧ r = .batch .committed ∧ PutEffect requests L L') ∨
      (∃ id, op = .delete id ∧ r = .flag true ∧ DeleteEffect id L L') ∨
      (∃ snapshotId, op = .snapshotCreate ∧ r = .snapshot (some snapshotId) ∧
        CreateEffect snapshotId L L') ∨
      (∃ snapshotId, op = .snapshotRollback snapshotId ∧ r = .flag true ∧
        RollbackEffect snapshotId L L') ∨
      (∃ snapshotId, op = .snapshotDiscard snapshotId ∧ r = .flag true ∧
        L' = L.discard snapshotId) ∨
      (∃ keep, op = .snapshotPrune keep ∧ r = .flag true ∧
        L' = LogicalState.discardOldest^[(scanSnapshots L.snapshots).1 - keep] L) := by
  unfold StoreOp.Effect at h
  split at h
  · exact Or.inr (Or.inl ⟨_, rfl, rfl, h⟩)
  · exact Or.inr (Or.inr (Or.inl ⟨_, rfl, rfl, h⟩))
  · exact Or.inr (Or.inr (Or.inr (Or.inl ⟨_, rfl, rfl, h⟩)))
  · exact Or.inr (Or.inr (Or.inr (Or.inr (Or.inl ⟨_, rfl, rfl, h⟩))))
  · exact Or.inl h.1
  · exact Or.inr (Or.inr (Or.inr (Or.inr (Or.inr (Or.inl ⟨_, rfl, rfl, h⟩)))))
  · exact Or.inr (Or.inr (Or.inr (Or.inr (Or.inr (Or.inr ⟨_, rfl, rfl, h⟩)))))
  · exact Or.inl h

/-- The states in which a power cut may leave the store: that before the operation, that after it,
and for a prune those between its discards. -/
def StoreOp.Cut (op : StoreOp) (L L' M : LogicalState) : Prop :=
  M = L ∨ M = L' ∨ ∃ keep discards, op = .snapshotPrune keep ∧
    discards ≤ (scanSnapshots L.snapshots).1 - keep ∧ M = LogicalState.discardOldest^[discards] L

/-- How many superblocks an operation writes at most. -/
def StoreOp.superblockWrites (snapshots : Snapshots) : StoreOp → Nat
  | .putMany _ => 2
  | .get _ => 0
  | .delete _ => 2
  | .snapshotCreate => 1
  | .snapshotRollback _ => 1
  | .snapshotDiscard _ => 1
  | .collect => 0
  | .snapshotPrune keep => (scanSnapshots snapshots).1 - keep

end Jani
