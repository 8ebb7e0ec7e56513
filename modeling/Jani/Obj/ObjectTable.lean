import Jani.Obj.ObjectId

/-!
# The object table (`object_table.c`)

A table is an array of entries sorted by identifier; `entries` is its live part, `count` long.
`objectTableFind`, `objectTableUpsert` and `objectTableRemove` search it by bisection; the loops
carry the number of iterations left, and `count` iterations are always enough since each one
shortens the interval.
-/

namespace Jani

structure ObjectTableEntry where
  id : ObjectId
  version : UInt64
  firstSector : UInt64
  sectorCount : UInt64
deriving DecidableEq, Repr, Inhabited

structure ObjectTable where
  entries : List ObjectTableEntry
  capacity : UInt64
deriving DecidableEq, Repr

namespace ObjectTable

/-- `table->count` -/
def count (table : ObjectTable) : Nat := table.entries.length

end ObjectTable

def objectTableInit (capacity : UInt64) : ObjectTable := ⟨[], capacity⟩

/-- The bisection of `object_table_find`, which stops at a hit. -/
def objectTableFindLoop (entries : List ObjectTableEntry) (id : ObjectId) :
    Nat → Nat → Nat → Option ObjectTableEntry
  | 0, _, _ => none
  | fuel + 1, left, right =>
    if left < right then
      let middle := left + (right - left) / 2
      match entries[middle]? with
      | none => none
      | some e =>
        match objectIdCompare e.id id with
        | .lt => objectTableFindLoop entries id fuel (middle + 1) right
        | .gt => objectTableFindLoop entries id fuel left middle
        | .eq => some e
    else none

def objectTableFind (table : ObjectTable) (id : ObjectId) : Option ObjectTableEntry :=
  if table.count > table.capacity.toNat ∨ objectIdIsZero id then none
  else objectTableFindLoop table.entries id table.count 0 table.count

/-- The bisection of `object_table_upsert` and `object_table_remove`: the first position whose
identifier is not below `id`. -/
def objectTablePosition (entries : List ObjectTableEntry) (id : ObjectId) : Nat → Nat → Nat → Nat
  | 0, left, _ => left
  | fuel + 1, left, right =>
    if left < right then
      let middle := left + (right - left) / 2
      match entries[middle]? with
      | none => left
      | some e =>
        match objectIdCompare e.id id with
        | .lt => objectTablePosition entries id fuel (middle + 1) right
        | _ => objectTablePosition entries id fuel left middle
    else left

/-- The end of `object_table_upsert`: the entries from `position` on move up by one. -/
def objectTableInsertAt (table : ObjectTable) (position : Nat) (entry : ObjectTableEntry) :
    Option ObjectTable :=
  if table.count = table.capacity.toNat then none
  else some { table with
    entries := table.entries.take position ++ entry :: table.entries.drop position }

/-- `none` stands for the result `0`, on which the table is unchanged. -/
def objectTableUpsert (table : ObjectTable) (entry : ObjectTableEntry) : Option ObjectTable :=
  if table.count > table.capacity.toNat ∨ objectIdIsZero entry.id ∨ entry.version = 0 ∨
      entry.firstSector = 0 ∨ entry.sectorCount = 0 then none
  else
    let position := objectTablePosition table.entries entry.id table.count 0 table.count
    match table.entries[position]? with
    | some existing =>
      if objectIdEqual existing.id entry.id then
        if entry.version ≤ existing.version then none
        else some { table with entries := table.entries.set position entry }
      else objectTableInsertAt table position entry
    | none => objectTableInsertAt table position entry

def objectTableRemove (table : ObjectTable) (id : ObjectId) : Option ObjectTable :=
  if table.count > table.capacity.toNat ∨ objectIdIsZero id then none
  else
    let position := objectTablePosition table.entries id table.count 0 table.count
    match table.entries[position]? with
    | some existing =>
      if objectIdEqual existing.id id then
        some { table with
          entries := table.entries.take position ++ table.entries.drop (position + 1) }
      else none
    | none => none

end Jani
