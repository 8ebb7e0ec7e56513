import Jani.Obj.Operations

/-!
# The store as its users see it

The kernel above the object store knows a table of objects by identifier, and that a batch of puts
takes place as a whole or not at all.  `ObjectMap` is that view.  How a batch ends is up to the
device: `CommitFate` says whether it is committed, rejected, or *torn*, after which the store wants
to be mounted again and only then tells whether the batch took place.  A power cut during a batch
is a torn batch followed by a mount.

That the store of `Operations` is such a map is shown in `Equiv.Refinement`.
-/

namespace Jani

/-- An object as `object_store_get` returns it: what its header tells about it, and its bytes. -/
structure StoredObject where
  typeId : ObjectId
  creatorId : ObjectId
  modifierId : ObjectId
  logicalTimestamp : UInt64
  payload : List UInt8
deriving DecidableEq, Repr

def ObjectStorePutRequest.object (r : ObjectStorePutRequest) : StoredObject :=
  ⟨r.typeId, r.creatorId, r.modifierId, r.logicalTimestamp, r.payload⟩

/-- How the device lets a commit end. -/
inductive CommitFate where
  | commit
  | reject
  | tear (applied : Bool)
deriving DecidableEq, Repr

structure ObjectMap where
  entries : List (ObjectId × StoredObject)
  requiresRecovery : Bool
deriving DecidableEq, Repr

namespace ObjectMap

def empty : ObjectMap := ⟨[], false⟩

/-- The object with the identifier, if the table has one (`object_table_find`). -/
def find (m : ObjectMap) (id : ObjectId) : Option StoredObject :=
  (m.entries.find? fun e => e.1 = id).map Prod.snd

/-- `object_store_get`, where `readable` tells whether the device reads the object. -/
def get (m : ObjectMap) (readable : ObjectId → Bool) (id : ObjectId) : Option StoredObject :=
  if m.requiresRecovery ∨ !readable id then none else m.find id

/-- The table with one object written. -/
def upsert (id : ObjectId) (object : StoredObject) :
    List (ObjectId × StoredObject) → List (ObjectId × StoredObject)
  | [] => [(id, object)]
  | e :: entries => if e.1 = id then (id, object) :: entries else e :: upsert id object entries

/-- The table with the objects of a batch written. -/
def write (m : ObjectMap) (requests : List ObjectStorePutRequest) : ObjectMap :=
  { m with entries := requests.foldl (fun entries r => upsert r.id r.object entries) m.entries }

/-- What a batch needs to be considered at all. -/
def batchOk (m : ObjectMap) (requests : List ObjectStorePutRequest) : Bool :=
  requests.length ≠ 0 ∧ requests.length ≤ objectStorePutBatchMax ∧ ¬ m.requiresRecovery ∧
    (∀ r ∈ requests, r.id ≠ ⟨0, 0⟩ ∧ r.typeId ≠ ⟨0, 0⟩) ∧ (requests.map (·.id)).Nodup

/-- A commit of the table `next`, as the device lets it end. -/
def settle (m next : ObjectMap) : CommitFate → ObjectStoreBatchResult × ObjectMap
  | .commit => (.committed, next)
  | .reject => (.rejected, m)
  | .tear applied => (.recoveryRequired,
    { if applied then next else m with requiresRecovery := true })

/-- `object_store_put_many` -/
def putMany (m : ObjectMap) (requests : List ObjectStorePutRequest) (fate : CommitFate) :
    ObjectStoreBatchResult × ObjectMap :=
  if m.batchOk requests then m.settle (m.write requests) fate else (.rejected, m)

/-- The store after a mount. -/
def remount (m : ObjectMap) : ObjectMap := { m with requiresRecovery := false }

/-! ### Reading what was written -/

theorem get_eq_some {m : ObjectMap} {readable : ObjectId → Bool} {id : ObjectId} {o : StoredObject}
    (h : m.get readable id = some o) : m.find id = some o := by
  unfold get at h
  split_ifs at h
  exact h

theorem get_of_readable {m : ObjectMap} {readable : ObjectId → Bool} {id : ObjectId}
    (hm : m.requiresRecovery = false) (hread : readable id = true) :
    m.get readable id = m.find id := by
  unfold get
  rw [if_neg]
  simp [hm, hread]

theorem find?_upsert (id : ObjectId) (object : StoredObject) (id' : ObjectId) :
    ∀ entries : List (ObjectId × StoredObject),
      ((upsert id object entries).find? fun e => e.1 = id').map Prod.snd =
        if id' = id then some object else (entries.find? fun e => e.1 = id').map Prod.snd
  | [] => by
    rw [upsert, List.find?_cons, List.find?_nil]
    by_cases h : id' = id
    · simp [h]
    · simp [h, Ne.symm h]
  | e :: entries => by
    have ih := find?_upsert id object id' entries
    rw [upsert]
    by_cases he : e.1 = id
    · rw [if_pos he, List.find?_cons, List.find?_cons]
      by_cases h : id' = id
      · simp [h]
      · have hne : ¬ id = id' := fun heq => h heq.symm
        simp [h, hne, he]
    · rw [if_neg he, List.find?_cons, List.find?_cons]
      by_cases h : e.1 = id'
      · have hne : ¬ id' = id := fun heq => he (h.trans heq)
        simp [h, hne]
      · simp only [h, decide_false]
        exact ih

theorem find_write_cons (m : ObjectMap) (r : ObjectStorePutRequest)
    (requests : List ObjectStorePutRequest) (id : ObjectId) : (m.write (r :: requests)).find id =
      (({ m with entries := upsert r.id r.object m.entries } : ObjectMap).write requests).find id :=
  rfl

theorem find_write_of_notMem : ∀ (requests : List ObjectStorePutRequest) (m : ObjectMap)
    {id : ObjectId}, (∀ r ∈ requests, r.id ≠ id) → (m.write requests).find id = m.find id
  | [], _, _, _ => rfl
  | r :: requests, m, id, h => by
    obtain ⟨hr, hrest⟩ := List.forall_mem_cons.mp h
    rw [find_write_cons, find_write_of_notMem requests _ hrest]
    exact (find?_upsert r.id r.object id m.entries).trans (if_neg (Ne.symm hr))

/-- An object of the batch is the one written, as the batch has one of each identifier. -/
theorem find_write_of_mem : ∀ (requests : List ObjectStorePutRequest) (m : ObjectMap),
    (requests.map (·.id)).Nodup → ∀ r ∈ requests, (m.write requests).find r.id = some r.object
  | [], _, _, r, hr => absurd hr List.not_mem_nil
  | r' :: requests, m, hnodup, r, hr => by
    obtain ⟨hnot, hrest⟩ := List.nodup_cons.mp hnodup
    rw [find_write_cons]
    rcases List.mem_cons.mp hr with rfl | hr
    · rw [find_write_of_notMem requests _ fun r' hr' heq =>
        hnot (List.mem_map.mpr ⟨r', hr', heq⟩)]
      exact (find?_upsert r.id r.object r.id m.entries).trans (if_pos rfl)
    · exact find_write_of_mem requests _ hrest r hr

/-! ### How a commit ends -/

theorem batchOk_iff {m : ObjectMap} {requests : List ObjectStorePutRequest} :
    m.batchOk requests = true ↔ requests.length ≠ 0 ∧ requests.length ≤ objectStorePutBatchMax ∧
      m.requiresRecovery = false ∧ (∀ r ∈ requests, r.id ≠ ⟨0, 0⟩ ∧ r.typeId ≠ ⟨0, 0⟩) ∧
      (requests.map (·.id)).Nodup := by
  unfold batchOk
  rw [decide_eq_true_eq, Bool.not_eq_true]

theorem find_congr {m m' : ObjectMap} (h : m'.entries = m.entries) (id : ObjectId) :
    m'.find id = m.find id := by
  unfold find
  rw [h]

end ObjectMap

end Jani
