import Jani.Cap.CapTable
import Jani.Obj.ObjectMap

/-!
# The provenance ledger (`provenance.c`, `provenance_validate.zig`)

The ledger remembers the last eight uses of a capability on each of up to 32 objects: which
component used it when, for what, and with which result.  It is kept in the store as the
*provenance* object.
-/

namespace Jani

structure ProvenanceEvent where
  component : ObjectId
  logicalTime : UInt64
  operation : UInt32
  result : Int32
deriving DecidableEq

def ProvenanceEvent.zero : ProvenanceEvent := ⟨⟨0, 0⟩, 0, 0, 0⟩

/-- The uses of one object, as a ring of events; `next` is the place of the next event. -/
structure ProvenanceBucket where
  object : ObjectId
  count : UInt32
  next : UInt32
  events : Fin 8 → ProvenanceEvent
deriving DecidableEq

def ProvenanceBucket.zero : ProvenanceBucket := ⟨⟨0, 0⟩, 0, 0, fun _ => ProvenanceEvent.zero⟩

abbrev ProvenanceLedger := Fin 32 → ProvenanceBucket

def ProvenanceLedger.zero : ProvenanceLedger := fun _ => ProvenanceBucket.zero

/-! ### The provenance object -/

def provenanceEventLayout : Layout ProvenanceEvent :=
  (objectIdLayout.pair (Layout.word64.pair (Layout.word32.pair Layout.word32))).map
    ⟨fun e => (e.component, e.logicalTime, e.operation, e.result.toUInt32),
      fun p => ⟨p.1, p.2.1, p.2.2.1, p.2.2.2.toInt32⟩, fun _ => rfl, fun _ => rfl⟩

def provenanceBucketLayout : Layout ProvenanceBucket :=
  (objectIdLayout.pair (Layout.word32.pair (Layout.word32.pair
    (provenanceEventLayout.array 8)))).map
    ⟨fun b => (b.object, b.count, b.next, b.events), fun p => ⟨p.1, p.2.1, p.2.2.1, p.2.2.2⟩,
      fun _ => rfl, fun _ => rfl⟩

def provenanceLedgerLayout : Layout ProvenanceLedger := provenanceBucketLayout.array 32

def provenanceMagic : UInt64 := 0x4A414E4950525631

structure ProvenanceHeader where
  magic : UInt64
  version : UInt32
  zero : UInt32
  crc : UInt32
  reserved : UInt32

def provenanceHeaderLayout : Layout ProvenanceHeader :=
  (Layout.word64.pair (Layout.word32.pair (Layout.word32.pair
    (Layout.word32.pair Layout.word32)))).map
    ⟨fun h => (h.magic, h.version, h.zero, h.crc, h.reserved),
      fun p => ⟨p.1, p.2.1, p.2.2.1, p.2.2.2.1, p.2.2.2.2⟩, fun _ => rfl, fun _ => rfl⟩

def provenanceEventValid (bucket : ProvenanceBucket) (j : Fin 8) : Bool :=
  if j.val ≥ bucket.count.toNat then bucket.events j = ProvenanceEvent.zero
  else !objectIdIsZero (bucket.events j).component && ((bucket.events j).operation ≥ 1) &&
    ((bucket.events j).operation ≤ 6)

def provenanceBucketValid (ledger : ProvenanceLedger) (i : Fin 32) : Bool :=
  let bucket := ledger i
  if objectIdIsZero bucket.object then bucket = ProvenanceBucket.zero
  else if bucket.count = 0 ∨ bucket.count > 8 ∨ bucket.next ≥ 8 ∨
      (bucket.count < 8 ∧ bucket.next ≠ bucket.count) then false
  else if ∃ j < i, (ledger j).object = bucket.object then false
  else ∀ j, provenanceEventValid bucket j

def provenanceValidate (bytes : List UInt8) : Bool :=
  let header := provenanceHeaderLayout.read bytes
  if bytes.length ≠ 8984 then false
  else if header.magic ≠ provenanceMagic ∨ header.version ≠ 1 ∨ header.zero ≠ 0 ∨
      header.reserved ≠ 0 ∨ objectCrc32c (bytes.drop 24) ≠ header.crc then false
  else ∀ i, provenanceBucketValid (provenanceLedgerLayout.read (bytes.drop 24)) i

def provenanceEncode (ledger : ProvenanceLedger) : Option (List UInt8) :=
  let image := provenanceLedgerLayout.write ledger
  let bytes := provenanceHeaderLayout.write ⟨provenanceMagic, 1, 0, objectCrc32c image, 0⟩ ++ image
  if provenanceValidate bytes then some bytes else none

def provenanceId : ObjectId := ⟨5, 0⟩

def provenanceType : ObjectId := ⟨0, 8⟩

def provenanceLoad (store : ObjectMap) (readable : ObjectId → Bool) : Option ProvenanceLedger :=
  match store.get readable provenanceId with
  | none => none
  | some object =>
    if !objectIdEqual object.typeId provenanceType ∨ !provenanceValidate object.payload then none
    else some (provenanceLedgerLayout.read (object.payload.drop 24))

def provenanceRequest (bytes : List UInt8) : ObjectStorePutRequest where
  id := provenanceId
  typeId := provenanceType
  creatorId := ⟨0, 0⟩
  modifierId := ⟨0, 0⟩
  logicalTimestamp := 0
  payload := bytes

end Jani
