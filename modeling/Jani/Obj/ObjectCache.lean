import Jani.Lib.Bytes
import Jani.Obj.ObjectId

/-!
# The object cache (`object_store.c`)

Recently used object bodies are kept in an arena, packed from its start; a slot names the body
of one version of one object.  Removing a slot closes the hole it leaves.
-/

namespace Jani

def objectStoreCacheSlots : Nat := 16

structure ObjectCacheSlot where
  id : ObjectId
  version : UInt64
  offset : Nat
  length : Nat
  lastAccess : UInt64
deriving DecidableEq, Repr, Inhabited

/-- The cache fields of `struct object_store`; `slots` is the live part of `cache_slots`, and
`arena_capacity` is the length of `arena`. -/
structure ObjectCache where
  arena : List UInt8
  arenaUsed : Nat
  slots : List ObjectCacheSlot
  clock : UInt64
deriving DecidableEq, Repr

def cacheRemoveSlot (cache : ObjectCache) (index : Nat) : ObjectCache :=
  match cache.slots[index]? with
  | none => cache
  | some hole =>
    let moved := cache.slots.map fun slot =>
      if slot.offset > hole.offset then { slot with offset := slot.offset - hole.length } else slot
    { cache with
      arena := moveDown cache.arena hole.offset (hole.offset + hole.length)
        (cache.arenaUsed - (hole.offset + hole.length))
      arenaUsed := cache.arenaUsed - hole.length
      -- the last slot takes the place of the removed one
      slots := (moved.set index (moved.getLastD default)).dropLast }

/-- The loop of `cache_evict_lru`: the first slot with the smallest `last_access`, from
position `i` on. -/
def cacheVictim (slots : List ObjectCacheSlot) : Nat → Nat → Nat → Nat
  | 0, _, victim => victim
  | fuel + 1, i, victim =>
    if (slots.getD i default).lastAccess < (slots.getD victim default).lastAccess then
      cacheVictim slots fuel (i + 1) i
    else cacheVictim slots fuel (i + 1) victim

def cacheEvictLru (cache : ObjectCache) : ObjectCache :=
  if cache.slots.length = 0 then cache
  else cacheRemoveSlot cache (cacheVictim cache.slots (cache.slots.length - 1) 1 0)

/-- The position of the slot. -/
def cacheFind (cache : ObjectCache) (id : ObjectId) (version : UInt64) : Option Nat :=
  cache.slots.findIdx? fun slot => slot.version = version && objectIdEqual slot.id id

/-- A `while` loop around `cache_evict_lru`, of at most `fuel` iterations. -/
def cacheEvictWhile (p : ObjectCache → Bool) : Nat → ObjectCache → ObjectCache
  | 0, cache => cache
  | fuel + 1, cache => if p cache then cacheEvictWhile p fuel (cacheEvictLru cache) else cache

/-- The cache without the first slot of the object, if it has one. -/
def cacheRemoveObject (cache : ObjectCache) (id : ObjectId) : ObjectCache :=
  match cache.slots.findIdx? fun slot => objectIdEqual slot.id id with
  | none => cache
  | some index => cacheRemoveSlot cache index

/-- The space of a body in the arena: its length rounded up to the alignment of a header. -/
def cacheSpan (length : Nat) : Nat := (length + 7) / 8 * 8

/-- The offset of the new body in the arena; `none` is the result `NULL`. -/
def cacheInsert (cache : ObjectCache) (id : ObjectId) (version : UInt64) (bytes : List UInt8) :
    Option Nat × ObjectCache :=
  let span := cacheSpan bytes.length
  if bytes.length = 0 ∨ span > cache.arena.length then (none, cache)
  else
    let cache := cacheRemoveObject cache id
    -- each iteration frees a slot, so the number of slots bounds both loops
    let cache := cacheEvictWhile (fun c => c.slots.length ≥ objectStoreCacheSlots)
      cache.slots.length cache
    let cache := cacheEvictWhile (fun c => c.arenaUsed + span > c.arena.length)
      cache.slots.length cache
    let clock := cache.clock + 1
    (some cache.arenaUsed,
      { arena := writeAt cache.arena cache.arenaUsed bytes
        arenaUsed := cache.arenaUsed + span
        slots := cache.slots ++ [⟨id, version, cache.arenaUsed, span, clock⟩]
        clock := clock })

/-- The access of a cached body: the slot's `last_access` becomes the next clock value. -/
def cacheTouch (cache : ObjectCache) (index : Nat) : ObjectCache :=
  let clock := cache.clock + 1
  { cache with
    slots := cache.slots.modify index fun slot => { slot with lastAccess := clock }
    clock := clock }

end Jani
