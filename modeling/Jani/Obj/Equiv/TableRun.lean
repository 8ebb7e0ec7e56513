import Jani.Obj.Equiv.DiskFormat
import Jani.Obj.Equiv.ObjectTable

/-!
# Sequences of calls on an object table

An empty table and any sequence of upserts and removals, with the results of the calls as history.
`lastBinding` reads the map off the history: the entry that was upserted last and not removed since.

The search of the table answers as the history says (`TableInv.find_eq`), and the history decides
which call succeeds; for one call on a sorted table this is `objectTableUpsert_isSome_iff` and
`objectTableRemove_isSome_iff`.  `objectTable_is_map` puts the parts together for whole sequences.
-/

namespace Jani

open ObjectTable

/-! ### When a call succeeds -/

/-- The entry at the position of the bisection is the one with the identifier, if there is one. -/
theorem lookup_position {entries : List ObjectTableEntry} (hs : Sorted entries) (id : ObjectId) :
    lookup entries id =
      (entries[objectTablePosition entries id entries.length 0 entries.length]?).filter
        fun e => e.id = id := by
  obtain ⟨-, hlo, hhi⟩ := objectTablePosition_split hs id
  generalize objectTablePosition entries id entries.length 0 entries.length = p at *
  -- an entry with the identifier is not before the position
  have hmem : ∀ e ∈ entries, e.id = id → e ∈ entries.drop p := by
    intro e he hid
    rw [← List.take_append_drop p entries, List.mem_append] at he
    refine he.resolve_left fun he => ?_
    have := hlo e he
    rw [hid] at this
    exact lt_irrefl _ this
  cases hget : entries[p]? with
  | none =>
    rw [Option.filter_none, lookup_eq_none_iff]
    intro e he hid
    have := hmem e he hid
    rw [List.drop_eq_nil_of_le (List.getElem?_eq_none_iff.mp hget)] at this
    cases this
  | some e =>
    have he : e ∈ entries := List.mem_of_getElem? hget
    by_cases hid : e.id = id
    · rw [Option.filter_some, if_pos (decide_eq_true hid)]
      exact (lookup_eq_some_iff hs).mpr ⟨he, hid⟩
    · rw [Option.filter_some, if_neg (by simpa using hid), lookup_eq_none_iff]
      intro a ha haid
      -- the entries from the position on start with `e`, whose identifier is larger
      obtain ⟨i, hi⟩ := List.mem_iff_getElem?.mp (hmem a ha haid)
      rw [List.getElem?_drop] at hi
      have hle := hs.le_of_le (Nat.le_add_right p i) hget hi
      have hge := hhi e (List.mem_iff_getElem?.mpr ⟨0, by rw [List.getElem?_drop]; exact hget⟩)
      rw [haid] at hle
      exact hid (ObjectId.key_injective (le_antisymm hle hge))

/-- **An upsert succeeds** with a larger version for an object of the table, and with room for
another object. -/
theorem objectTableUpsert_isSome_iff {table : ObjectTable} (hs : Sorted table.entries)
    (hcap : table.count ≤ table.capacity.toNat) (entry : ObjectTableEntry) :
    (objectTableUpsert table entry).isSome = true ↔ entry.Valid ∧
      match lookup table.entries entry.id with
      | some old => old.version < entry.version
      | none => table.count < table.capacity.toNat := by
  have hlookup := lookup_position hs entry.id
  unfold objectTableUpsert
  by_cases hvalid : entry.Valid
  · obtain ⟨hid, hversion, hfirst, hcount⟩ := id hvalid
    rw [if_neg (by
      rw [objectIdIsZero_iff]
      rintro (h | h | h | h | h)
      · omega
      · exact hid h
      · exact hversion h
      · exact hfirst h
      · exact hcount h)]
    rw [hlookup, iff_true_intro hvalid, true_and]
    dsimp only [count]
    generalize objectTablePosition table.entries entry.id table.entries.length 0
      table.entries.length = p
    have hinsert : (objectTableInsertAt table p entry).isSome = true ↔
        table.entries.length < table.capacity.toNat := by
      unfold objectTableInsertAt
      unfold count at hcap ⊢
      split_ifs with hfull
      · simp only [Option.isSome_none, Bool.false_eq_true, false_iff]
        omega
      · simp only [Option.isSome_some, true_iff]
        omega
    cases hget : table.entries[p]? with
    | none => exact hinsert
    | some existing =>
      dsimp only
      rw [Option.filter_some]
      by_cases heq : existing.id = entry.id
      · rw [if_pos ((objectIdEqual_iff _ _).mpr heq), if_pos (decide_eq_true heq)]
        dsimp only
        split_ifs with hle
        · simp only [Option.isSome_none, Bool.false_eq_true, false_iff]
          exact UInt64.not_lt.mpr hle
        · simp only [Option.isSome_some, true_iff]
          exact UInt64.not_le.mp hle
      · rw [if_neg (by rw [objectIdEqual_iff]; exact heq), if_neg (by simpa using heq)]
        exact hinsert
  · rw [if_pos]
    · simp [hvalid]
    · rw [objectIdIsZero_iff]
      unfold ObjectTableEntry.Valid at hvalid
      tauto

/-- **A removal succeeds** for the objects of the table. -/
theorem objectTableRemove_isSome_iff {table : ObjectTable} (hs : Sorted table.entries)
    (hcap : table.count ≤ table.capacity.toNat) {id : ObjectId} (hid : id ≠ ⟨0, 0⟩) :
    (objectTableRemove table id).isSome = true ↔ (lookup table.entries id).isSome = true := by
  have hlookup := lookup_position hs id
  unfold objectTableRemove
  rw [if_neg (by
    rw [not_or, objectIdIsZero_iff]
    exact ⟨by omega, hid⟩), hlookup]
  dsimp only [count]
  generalize objectTablePosition table.entries id table.entries.length 0
    table.entries.length = p
  cases table.entries[p]? with
  | none => rfl
  | some existing =>
    dsimp only
    rw [Option.filter_some]
    by_cases heq : existing.id = id
    · rw [if_pos ((objectIdEqual_iff _ _).mpr heq), if_pos (decide_eq_true heq)]
      simp
    · rw [if_neg (by rw [objectIdEqual_iff]; exact heq), if_neg (by simpa using heq)]
      rfl

/-! ### Sequences of calls -/

/-- A call that may change a table. -/
inductive TableCall where
  | upsert (entry : ObjectTableEntry)
  | remove (id : ObjectId)

/-- The table after the call, if it returns 1. -/
def TableCall.apply (table : ObjectTable) : TableCall → Option ObjectTable
  | .upsert entry => objectTableUpsert table entry
  | .remove id => objectTableRemove table id

/-- The calls made so far with their results, the last one first. -/
abbrev TableHistory := List (TableCall × Bool)

/-- The entry of the object that was upserted last and not removed since. -/
def lastBinding (id : ObjectId) : TableHistory → Option ObjectTableEntry
  | [] => none
  | (.upsert entry, true) :: history =>
    if entry.id = id then some entry else lastBinding id history
  | (.remove removed, true) :: history => if removed = id then none else lastBinding id history
  | (_, false) :: history => lastBinding id history

/-- One call; one that returns 0 leaves the table as it is. -/
def tableStep (s : ObjectTable × TableHistory) (call : TableCall) : ObjectTable × TableHistory :=
  ((call.apply s.1).getD s.1, (call, (call.apply s.1).isSome) :: s.2)

/-- An empty table and a sequence of calls. -/
def tableRun (capacity : UInt64) (calls : List TableCall) : ObjectTable × TableHistory :=
  calls.foldl tableStep (objectTableInit capacity, [])

/-- What holds of a table and its history. -/
structure TableInv (capacity : UInt64) (s : ObjectTable × TableHistory) : Prop where
  sorted : Sorted s.1.entries
  capacity_eq : s.1.capacity = capacity
  count_le : s.1.count ≤ capacity.toNat
  id_ne : ∀ e ∈ s.1.entries, e.id ≠ ⟨0, 0⟩
  lookup_eq : ∀ id, lookup s.1.entries id = lastBinding id s.2

theorem TableInv.init (capacity : UInt64) : TableInv capacity (objectTableInit capacity, []) :=
  ⟨List.Pairwise.nil, rfl, Nat.zero_le _, fun _ h => absurd h List.not_mem_nil, fun _ => rfl⟩

section Step

variable {capacity : UInt64} {s : ObjectTable × TableHistory}

theorem TableInv.find_eq (h : TableInv capacity s) (id : ObjectId) :
    objectTableFind s.1 id = lastBinding id s.2 := by
  have hcap : s.1.count ≤ s.1.capacity.toNat := by
    rw [h.capacity_eq]
    exact h.count_le
  by_cases hid : id = ⟨0, 0⟩
  · rw [← h.lookup_eq, objectTableFind, if_pos (Or.inr ((objectIdIsZero_iff _).mpr hid)), eq_comm,
      lookup_eq_none_iff]
    exact fun e he heq => h.id_ne e he (heq.trans hid)
  · rw [objectTableFind_eq h.sorted hcap hid, h.lookup_eq]

theorem TableInv.upsert (h : TableInv capacity s) {entry : ObjectTableEntry} {table : ObjectTable}
    (hcall : objectTableUpsert s.1 entry = some table) :
    TableInv capacity (table, (.upsert entry, true) :: s.2) := by
  obtain ⟨l, old, r, hshape⟩ := objectTableUpsert_shape h.sorted hcall
  obtain ⟨hsorted, hcapacity, hcount, hmem⟩ := objectTableUpsert_spec h.sorted hcall
  rw [h.capacity_eq] at hcapacity hcount
  refine ⟨hsorted, hcapacity, hcount, ?_, ?_⟩
  · intro e he
    rcases (hmem e).mp he with rfl | ⟨he, -⟩
    · exact hshape.id_ne
    · exact h.id_ne e he
  · intro id
    rw [lastBinding]
    split_ifs with hid
    · exact (lookup_eq_some_iff hsorted).mpr ⟨(hmem entry).mpr (Or.inl rfl), hid⟩
    · rw [← h.lookup_eq]
      ext e
      rw [lookup_eq_some_iff hsorted, lookup_eq_some_iff h.sorted, hmem]
      constructor
      · rintro ⟨rfl | ⟨he, -⟩, heid⟩
        · exact absurd heid hid
        · exact ⟨he, heid⟩
      · rintro ⟨he, rfl⟩
        exact ⟨Or.inr ⟨he, Ne.symm hid⟩, rfl⟩

theorem TableInv.remove (h : TableInv capacity s) {id : ObjectId} {table : ObjectTable}
    (hcall : objectTableRemove s.1 id = some table) :
    TableInv capacity (table, (.remove id, true) :: s.2) := by
  obtain ⟨hsorted, hcapacity, hcount, -, hmem⟩ := objectTableRemove_spec h.sorted hcall
  have hle := h.count_le
  refine ⟨hsorted, hcapacity.trans h.capacity_eq, by dsimp only; omega, ?_, ?_⟩
  · exact fun e he => h.id_ne e ((hmem e).mp he).1
  · intro id'
    rw [lastBinding]
    split_ifs with hid
    · rw [lookup_eq_none_iff]
      exact fun e he => hid ▸ ((hmem e).mp he).2
    · rw [← h.lookup_eq]
      ext e
      rw [lookup_eq_some_iff hsorted, lookup_eq_some_iff h.sorted, hmem]
      constructor
      · rintro ⟨⟨he, -⟩, heid⟩
        exact ⟨he, heid⟩
      · rintro ⟨he, rfl⟩
        exact ⟨⟨he, Ne.symm hid⟩, rfl⟩

/-- **Step**: every call keeps the table and its history in agreement. -/
theorem TableInv.step (h : TableInv capacity s) (call : TableCall) :
    TableInv capacity (tableStep s call) := by
  unfold tableStep
  cases hcall : call.apply s.1 with
  | none =>
    refine ⟨h.sorted, h.capacity_eq, h.count_le, h.id_ne, fun id => ?_⟩
    cases call <;> exact h.lookup_eq id
  | some table =>
    cases call with
    | upsert entry => exact h.upsert hcall
    | remove id => exact h.remove hcall

end Step

/-- **Run**: so does every sequence of calls. -/
theorem tableInv_run (capacity : UInt64) (calls : List TableCall) :
    TableInv capacity (tableRun capacity calls) := by
  unfold tableRun
  induction calls using List.reverseRecOn with
  | nil => exact TableInv.init capacity
  | append_singleton calls call ih =>
    rw [List.foldl_append]
    exact ih.step call

/-- **The object table is a finite map.**  After any sequence of calls on an empty table, its
identifiers are strictly ascending and the search finds the entry that was upserted last and not
removed since.  The next upsert succeeds if no field of the entry is zero and, for an object of the
table, its version is larger, for another object, the table is not full; a removal succeeds for the
objects of the table; and a call that fails leaves the table and its map as they are. -/
theorem objectTable_is_map (capacity : UInt64) (calls : List TableCall) :
    let s := tableRun capacity calls
    Sorted s.1.entries ∧
    (∀ id, objectTableFind s.1 id = lastBinding id s.2) ∧
    (∀ entry old, lastBinding entry.id s.2 = some old →
      ((objectTableUpsert s.1 entry).isSome = true ↔
        entry.Valid ∧ old.version < entry.version)) ∧
    (∀ entry, lastBinding entry.id s.2 = none →
      ((objectTableUpsert s.1 entry).isSome = true ↔
        s.1.count < capacity.toNat ∧ entry.Valid)) ∧
    (∀ id, (objectTableRemove s.1 id).isSome = true ↔ (lastBinding id s.2).isSome = true) ∧
    ∀ call : TableCall, call.apply s.1 = none → (tableStep s call).1 = s.1 ∧
      ∀ id, lastBinding id (tableStep s call).2 = lastBinding id s.2 := by
  intro s
  have h : TableInv capacity s := tableInv_run capacity calls
  have hcap : s.1.count ≤ s.1.capacity.toNat := by
    rw [h.capacity_eq]
    exact h.count_le
  have hupsert := objectTableUpsert_isSome_iff h.sorted hcap
  refine ⟨h.sorted, h.find_eq, ?_, ?_, ?_, ?_⟩
  · intro entry old hold
    have := hupsert entry
    rwa [h.lookup_eq, hold] at this
  · intro entry hnone
    have := hupsert entry
    rwa [h.lookup_eq, hnone, h.capacity_eq, and_comm] at this
  · intro id
    rw [← h.lookup_eq]
    by_cases hid : id = ⟨0, 0⟩
    · have hlookup : lookup s.1.entries id = none :=
        lookup_eq_none_iff.mpr fun e he heq => h.id_ne e he (heq.trans hid)
      rw [hlookup, objectTableRemove, if_pos (Or.inr ((objectIdIsZero_iff _).mpr hid))]
      rfl
    · exact objectTableRemove_isSome_iff h.sorted hcap hid
  · intro call hfail
    refine ⟨by rw [tableStep, hfail, Option.getD_none], fun id => ?_⟩
    rw [tableStep, hfail]
    cases call <;> rfl

end Jani
