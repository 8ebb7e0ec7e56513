import Jani.Obj.Equiv.Cache
import Mathlib.Algebra.BigOperators.Ring.List
import Mathlib.Data.List.GetD

/-!
# Sequences of cache operations

Insertions, lookups, removals and evictions in any order, on an arena of any size.  A `CacheLog`
beside the cache records the bytes inserted last for each object and when the object was inserted
or hit last, counting insertions and hits.

`CacheInv` relates the cache to its log: the slots are packed and aligned, each holds the bytes of
its object, and the access times are those of the log, as 64-bit words.  Each operation keeps it
(`CacheInv.step`).  Closing a hole is the one difficult case, and removals and evictions share it
(`CacheInv.close`).

A slot with the smallest access time is the one used longest ago, until the clock of the cache
wraps around: `cache_consistent` says what holds of every sequence, `cache_evicts_newest` is a
sequence of more than `2 ^ 64` accesses after which the slot used last is evicted.
-/

namespace Jani

/-! ### Operations and their log -/

inductive CacheCall where
  | insert (id : ObjectId) (version : UInt64) (bytes : List UInt8)
  | lookup (id : ObjectId) (version : UInt64)
  | remove (id : ObjectId)
  | evict

/-- The number of insertions and hits so far, the number of the last one for each object, and the
version and the bytes inserted last for it. -/
structure CacheLog where
  time : Nat
  lastUsed : ObjectId → Nat
  body : ObjectId → UInt64 × List UInt8

def CacheLog.start : CacheLog := ⟨0, fun _ => 0, fun _ => (0, [])⟩

/-- The object is inserted or hit. -/
def CacheLog.use (log : CacheLog) (id : ObjectId) : CacheLog :=
  { log with
    time := log.time + 1
    lastUsed := Function.update log.lastUsed id (log.time + 1) }

def CacheLog.insert (log : CacheLog) (id : ObjectId) (version : UInt64) (bytes : List UInt8) :
    CacheLog :=
  { log.use id with body := Function.update log.body id (version, bytes) }

def cacheStep (s : ObjectCache × CacheLog) : CacheCall → ObjectCache × CacheLog
  | .insert id version bytes =>
    match cacheInsert s.1 id version bytes with
    | (none, cache) => (cache, s.2)
    | (some _, cache) => (cache, s.2.insert id version bytes)
  | .lookup id version =>
    match cacheFind s.1 id version with
    | none => s
    | some index => (cacheTouch s.1 index, s.2.use id)
  | .remove id => (cacheRemoveObject s.1 id, s.2)
  | .evict => (cacheEvictLru s.1, s.2)

/-- A sequence of operations on an empty cache with the given arena. -/
def cacheRun (arena : List UInt8) (calls : List CacheCall) : ObjectCache × CacheLog :=
  calls.foldl cacheStep (⟨arena, 0, [], 0⟩, CacheLog.start)

/-! ### The invariant -/

/-- A slot and what the log says about its object. -/
structure SlotHolds (arena : List UInt8) (log : CacheLog) (slot : ObjectCacheSlot) : Prop where
  aligned : 8 ∣ slot.offset
  length_eq : slot.length = cacheSpan (log.body slot.id).2.length
  version_eq : slot.version = (log.body slot.id).1
  bytes_eq : (window arena slot.span).take (log.body slot.id).2.length = (log.body slot.id).2
  access_eq : slot.lastAccess = UInt64.ofNat (log.lastUsed slot.id)
  access_le : log.lastUsed slot.id ≤ log.time

structure CacheInv (capacity : Nat) (s : ObjectCache × CacheLog) : Prop where
  tiled : CacheTiled s.1
  capacity_eq : s.1.arena.length = capacity
  held : ∀ slot ∈ s.1.slots, SlotHolds s.1.arena s.2 slot
  clock_eq : s.1.clock = UInt64.ofNat s.2.time
  times : ∀ slot ∈ s.1.slots, ∀ slot' ∈ s.1.slots, slot.id ≠ slot'.id →
    s.2.lastUsed slot.id ≠ s.2.lastUsed slot'.id

theorem CacheInv.start (arena : List UInt8) :
    CacheInv arena.length (⟨arena, 0, [], 0⟩, CacheLog.start) :=
  ⟨⟨Nat.zero_le _, Packed.empty, List.Pairwise.nil⟩, rfl, fun _ h => absurd h List.not_mem_nil,
    rfl, fun _ h => absurd h List.not_mem_nil⟩

theorem cacheSpan_aligned (length : Nat) : 8 ∣ cacheSpan length := Dvd.intro_left _ rfl

@[simp]
theorem ObjectCacheSlot.length_moved (hole slot : ObjectCacheSlot) :
    (hole.moved slot).length = slot.length := by
  unfold moved
  split_ifs <;> rfl

@[simp]
theorem ObjectCacheSlot.lastAccess_moved (hole slot : ObjectCacheSlot) :
    (hole.moved slot).lastAccess = slot.lastAccess := by
  unfold moved
  split_ifs <;> rfl

theorem SlotHolds.moved {arena arena' : List UInt8} {log : CacheLog} {hole slot : ObjectCacheSlot}
    (h : SlotHolds arena log slot) (hhole : SlotHolds arena log hole)
    (hwindow : window arena' (hole.moved slot).span = window arena slot.span) :
    SlotHolds arena' log (hole.moved slot) := by
  refine ⟨?_, ?_, ?_, ?_, ?_, ?_⟩
  · unfold ObjectCacheSlot.moved
    split_ifs
    · refine Nat.dvd_sub h.aligned ?_
      rw [hhole.length_eq]
      exact cacheSpan_aligned _
    · exact h.aligned
  · rw [ObjectCacheSlot.length_moved, ObjectCacheSlot.id_moved]
    exact h.length_eq
  · rw [ObjectCacheSlot.version_moved, ObjectCacheSlot.id_moved]
    exact h.version_eq
  · rw [hwindow, ObjectCacheSlot.id_moved]
    exact h.bytes_eq
  · rw [ObjectCacheSlot.lastAccess_moved, ObjectCacheSlot.id_moved]
    exact h.access_eq
  · rw [ObjectCacheSlot.id_moved]
    exact h.access_le

section Steps

variable {capacity : Nat} {cache : ObjectCache} {log : CacheLog}

/-! ### Removals and evictions -/

/-- **Close**: removing a slot keeps the invariant. -/
theorem CacheInv.close (h : CacheInv capacity (cache, log)) {index : Nat} {hole : ObjectCacheSlot}
    (hhole : cache.slots[index]? = some hole) :
    CacheInv capacity (cacheRemoveSlot cache index, log) := by
  have hclosed := cacheRemoveSlot_closed h.tiled hhole
  generalize cacheRemoveSlot cache index = cache' at hclosed
  have hmem : ∀ slot' ∈ cache'.slots, ∃ slot ∈ cache.slots, slot'.id = slot.id ∧
      SlotHolds cache'.arena log slot' := by
    intro slot' hslot'
    obtain ⟨slot, hslot, rfl⟩ := List.mem_map.mp (hclosed.slots.mem_iff.mp hslot')
    have hold := List.mem_of_mem_eraseIdx hslot
    exact ⟨slot, hold, ObjectCacheSlot.id_moved _ _, (h.held slot hold).moved
      (h.held hole (List.mem_of_getElem? hhole)) (hclosed.window slot hslot)⟩
  refine ⟨hclosed.tiled, hclosed.length_arena.trans h.capacity_eq, ?_, ?_, ?_⟩
  · intro slot' hslot'
    obtain ⟨-, -, -, hheld⟩ := hmem slot' hslot'
    exact hheld
  · exact hclosed.clock.trans h.clock_eq
  · intro slot' hslot' slot'' hslot''
    obtain ⟨slot, hslot, hid, -⟩ := hmem slot' hslot'
    obtain ⟨other, hother, hid', -⟩ := hmem slot'' hslot''
    rw [hid, hid']
    exact h.times slot hslot other hother

theorem CacheInv.removeObject (h : CacheInv capacity (cache, log)) (id : ObjectId) :
    CacheInv capacity (cacheRemoveObject cache id, log) := by
  rcases cacheRemoveObject_cases cache id with ⟨heq, -⟩ | ⟨index, hole, hhole, -, heq⟩
  · rw [heq]
    exact h
  · rw [heq]
    exact h.close hhole

theorem CacheInv.evict (h : CacheInv capacity (cache, log)) :
    CacheInv capacity (cacheEvictLru cache, log) := by
  rcases cacheEvictLru_cases cache with ⟨heq, -⟩ | ⟨index, hole, hhole, heq⟩
  · rw [heq]
    exact h
  · rw [heq]
    exact h.close hhole

theorem id_mem_removeSlot (h : CacheTiled cache) {index : Nat} {hole : ObjectCacheSlot}
    (hhole : cache.slots[index]? = some hole) (id : ObjectId) :
    id ∈ (cacheRemoveSlot cache index).slots.map (·.id) ↔
      id ∈ cache.slots.map (·.id) ∧ id ≠ hole.id := by
  obtain ⟨hperm, hperm'⟩ := cacheRemoveSlot_perm hhole
  have hids : (hole :: cache.slots.eraseIdx index).Pairwise fun s t => s.id ≠ t.id :=
    (hperm.pairwise_iff Ne.symm).mp h.ids
  have hhole' := (List.pairwise_cons.mp hids).1
  have hmoved : ((cache.slots.eraseIdx index).map hole.moved).map (·.id) =
      (cache.slots.eraseIdx index).map (·.id) := by
    rw [List.map_map]
    exact List.map_congr_left fun slot _ => ObjectCacheSlot.id_moved hole slot
  rw [(hperm'.map (·.id)).mem_iff, hmoved, (hperm.map (·.id)).mem_iff, List.map_cons,
    List.mem_cons]
  constructor
  · intro hmem
    obtain ⟨slot, hslot, rfl⟩ := List.mem_map.mp hmem
    exact ⟨Or.inr hmem, (hhole' slot hslot).symm⟩
  · rintro ⟨heq | hmem, hne⟩
    · exact absurd heq hne
    · exact hmem

theorem id_notMem_removeObject (h : CacheTiled cache) (id : ObjectId) :
    id ∉ (cacheRemoveObject cache id).slots.map (·.id) := by
  intro hmem
  rcases cacheRemoveObject_cases cache id with ⟨heq, hids⟩ | ⟨index, hole, hhole, hid, heq⟩
  · rw [heq] at hmem
    obtain ⟨slot, hslot, hid⟩ := List.mem_map.mp hmem
    exact hids slot hslot hid
  · rw [heq, id_mem_removeSlot h hhole] at hmem
    exact hmem.2 hid.symm

/-! ### The slot that is evicted -/

theorem cacheVictim_le (slots : List ObjectCacheSlot) : ∀ fuel i victim : Nat,
    (∀ j < i, (slots.getD victim default).lastAccess ≤ (slots.getD j default).lastAccess) →
    ∀ j < i + fuel, (slots.getD (cacheVictim slots fuel i victim) default).lastAccess ≤
      (slots.getD j default).lastAccess
  | 0, _, _, hle, j, hj => hle j hj
  | fuel + 1, i, victim, hle, j, hj => by
    rw [cacheVictim]
    split_ifs with hlt
    · refine cacheVictim_le slots fuel (i + 1) i (fun k hk => ?_) j (by omega)
      rcases Nat.lt_succ_iff_lt_or_eq.mp hk with hk | rfl
      · exact UInt64.le_trans (UInt64.le_of_lt hlt) (hle k hk)
      · exact UInt64.le_refl _
    · refine cacheVictim_le slots fuel (i + 1) victim (fun k hk => ?_) j (by omega)
      rcases Nat.lt_succ_iff_lt_or_eq.mp hk with hk | rfl
      · exact hle k hk
      · exact UInt64.not_lt.mp hlt

/-- **The slot used longest ago is evicted**, as long as the clock has not wrapped around. -/
theorem CacheInv.evicts_oldest (h : CacheInv capacity (cache, log)) (hne : cache.slots ≠ [])
    (htime : log.time < 2 ^ 64) : ∃ victim ∈ cache.slots,
      (∀ slot ∈ cache.slots, slot.id ≠ victim.id →
        log.lastUsed victim.id < log.lastUsed slot.id) ∧
      ∀ id, id ∈ (cacheEvictLru cache).slots.map (·.id) ↔
        id ∈ cache.slots.map (·.id) ∧ id ≠ victim.id := by
  have hpos : cache.slots.length ≠ 0 := fun h0 => hne (List.eq_nil_of_length_eq_zero h0)
  have hvictim := cacheVictim_lt cache.slots (cache.slots.length - 1) 1 0 (by omega) (by omega)
  have hmin := cacheVictim_le cache.slots (cache.slots.length - 1) 1 0 (fun j hj => by
    rw [Nat.lt_one_iff.mp hj]
    exact UInt64.le_refl _)
  unfold cacheEvictLru
  rw [if_neg hpos]
  generalize cacheVictim cache.slots (cache.slots.length - 1) 1 0 = v at hvictim hmin
  refine ⟨cache.slots[v], List.getElem_mem hvictim, ?_,
    fun id => id_mem_removeSlot h.tiled (List.getElem?_eq_getElem hvictim) id⟩
  intro slot hslot hid
  obtain ⟨j, hj, rfl⟩ := List.mem_iff_getElem.mp hslot
  have hle := hmin j (by omega)
  rw [List.getD_eq_getElem _ _ hvictim, List.getD_eq_getElem _ _ hj] at hle
  -- the access times are the numbers of the accesses
  have haccess : ∀ slot ∈ cache.slots,
      slot.lastAccess.toNat = log.lastUsed slot.id := by
    intro slot hslot
    have hheld : SlotHolds cache.arena log slot := h.held slot hslot
    rw [hheld.access_eq, UInt64.toNat_ofNat_of_lt' (hheld.access_le.trans_lt htime)]
  rw [UInt64.le_iff_toNat_le, haccess _ (List.getElem_mem hvictim),
    haccess _ (List.getElem_mem hj)] at hle
  exact lt_of_le_of_ne hle (h.times _ (List.getElem_mem hvictim) _ (List.getElem_mem hj) hid.symm)

/-! ### Insertions and hits -/

theorem CacheLog.use_of_ne (log : CacheLog) {id id' : ObjectId} (h : id' ≠ id) :
    (log.use id).lastUsed id' = log.lastUsed id' := Function.update_of_ne h _ _

theorem CacheLog.use_self (log : CacheLog) (id : ObjectId) :
    (log.use id).lastUsed id = log.time + 1 := Function.update_self _ _ _

variable {id : ObjectId}

theorem SlotHolds.other {arena arena' : List UInt8} {slot : ObjectCacheSlot}
    {body : ObjectId → UInt64 × List UInt8} (h : SlotHolds arena log slot) (hid : slot.id ≠ id)
    (hbody : body slot.id = log.body slot.id)
    (hwindow : window arena' slot.span = window arena slot.span) :
    SlotHolds arena' { log.use id with body := body } slot := by
  refine ⟨h.aligned, ?_, ?_, ?_, ?_, ?_⟩
  · dsimp only
    rw [hbody]
    exact h.length_eq
  · dsimp only
    rw [hbody]
    exact h.version_eq
  · dsimp only
    rw [hbody, hwindow]
    exact h.bytes_eq
  · exact h.access_eq.trans (congrArg UInt64.ofNat (log.use_of_ne hid).symm)
  · exact (log.use_of_ne hid).le.trans (h.access_le.trans (Nat.le_succ _))

/-- The times of different objects stay different when one of them is used. -/
theorem CacheInv.times_use (h : CacheInv capacity (cache, log)) {slots : List ObjectCacheSlot}
    (hslots : ∀ slot ∈ slots, slot.id = id ∨ ∃ old ∈ cache.slots, old.id = slot.id) :
    ∀ slot ∈ slots, ∀ slot' ∈ slots, slot.id ≠ slot'.id →
      (log.use id).lastUsed slot.id ≠ (log.use id).lastUsed slot'.id := by
  intro slot hslot slot' hslot' hne
  have hle : ∀ s ∈ slots, s.id ≠ id → log.lastUsed s.id ≤ log.time := by
    intro s hs hid
    obtain ⟨old, hold, heq⟩ := (hslots s hs).resolve_left hid
    exact heq ▸ (h.held old hold).access_le
  by_cases hid : slot.id = id
  · have := hle slot' hslot' (hid ▸ hne.symm)
    rw [hid, log.use_self, log.use_of_ne (hid ▸ hne.symm)]
    omega
  rw [log.use_of_ne hid]
  by_cases hid' : slot'.id = id
  · have := hle slot hslot hid
    rw [hid', log.use_self]
    omega
  rw [log.use_of_ne hid']
  obtain ⟨old, hold, heq⟩ := (hslots slot hslot).resolve_left hid
  obtain ⟨old', hold', heq'⟩ := (hslots slot' hslot').resolve_left hid'
  rw [← heq, ← heq'] at hne ⊢
  exact h.times old hold old' hold' hne

theorem clock_succ {clock : UInt64} {time : Nat} (h : clock = UInt64.ofNat time) :
    clock + 1 = UInt64.ofNat (time + 1) := by
  rw [h, UInt64.ofNat_add]
  rfl

variable (h : CacheInv capacity (cache, log))

include h

/-- The used part of the arena ends at a multiple of the alignment. -/
theorem CacheInv.used_aligned : 8 ∣ cache.arenaUsed := by
  have htotal := h.tiled.packed.total
  dsimp only at htotal
  rw [← htotal]
  apply List.dvd_sum
  intro length hlength
  obtain ⟨span, hspan, rfl⟩ := List.mem_map.mp hlength
  obtain ⟨slot, hslot, rfl⟩ := List.mem_map.mp hspan
  change 8 ∣ slot.length
  rw [(h.held slot hslot).length_eq]
  exact cacheSpan_aligned _

/-- **Append**: a body that is put at the end of the arena. -/
theorem CacheInv.append (hids : ∀ slot ∈ cache.slots, slot.id ≠ id) (version : UInt64)
    {bytes : List UInt8} (hpos : bytes.length ≠ 0)
    (hroom : cache.arenaUsed + cacheSpan bytes.length ≤ cache.arena.length) :
    CacheInv capacity (cacheAppend cache id version bytes, log.insert id version bytes) := by
  have hused : cache.arenaUsed ≤ cache.arena.length := h.tiled.used_le
  have hbody : (log.insert id version bytes).body id = (version, bytes) :=
    Function.update_self _ _ _
  have htime : (log.insert id version bytes).lastUsed id = log.time + 1 := log.use_self id
  have hnew : SlotHolds (cacheAppend cache id version bytes).arena (log.insert id version bytes)
      ⟨id, version, cache.arenaUsed, cacheSpan bytes.length, cache.clock + 1⟩ := by
    refine ⟨h.used_aligned, ?_, ?_, ?_, ?_, ?_⟩
    · rw [hbody]
    · rw [hbody]
    · rw [hbody]
      change ((List.drop cache.arenaUsed (writeAt cache.arena cache.arenaUsed bytes)).take
        (cacheSpan bytes.length)).take bytes.length = bytes
      rw [drop_writeAt hused, List.take_take, Nat.min_eq_left (le_cacheSpan _),
        List.take_left' rfl]
    · rw [htime]
      exact clock_succ h.clock_eq
    · rw [htime]
      exact Nat.le_refl _
  refine ⟨CacheTiled.append hroom h.tiled hids version hpos,
    (length_arena_append hroom id version).trans h.capacity_eq, ?_, clock_succ h.clock_eq,
    h.times_use ?_⟩
  · intro slot hslot
    rcases List.mem_append.mp hslot with hold | hlast
    · exact (h.held slot hold).other (hids slot hold) (Function.update_of_ne (hids slot hold) _ _)
        (CacheTiled.window_append h.tiled hold)
    · rw [List.mem_singleton.mp hlast]
      exact hnew
  · intro slot hslot
    rcases List.mem_append.mp hslot with hold | hlast
    · exact Or.inr ⟨slot, hold, rfl⟩
    · exact Or.inl (congrArg _ (List.mem_singleton.mp hlast))

/-- **Hit**: a lookup that finds a slot. -/
theorem CacheInv.touch {version : UInt64} {index : Nat}
    (hfind : cacheFind cache id version = some index) :
    CacheInv capacity (cacheTouch cache index, log.use id) := by
  obtain ⟨hi, hhit, -⟩ := List.findIdx?_eq_some_iff_getElem.mp hfind
  simp only [Bool.and_eq_true, decide_eq_true_eq, objectIdEqual_iff] at hhit
  -- a slot afterwards: the one that was hit, or an old one of another object
  have hmem : ∀ slot' ∈ (cacheTouch cache index).slots,
      (slot' = { cache.slots[index] with lastAccess := cache.clock + 1 }) ∨
        (slot' ∈ cache.slots ∧ slot'.id ≠ id) := by
    intro slot' hslot'
    obtain ⟨j, hj, rfl⟩ := List.mem_iff_getElem.mp hslot'
    have hj' : j < cache.slots.length := by simpa [cacheTouch] using hj
    have hget : (cacheTouch cache index).slots[j] =
        if index = j then { cache.slots[j] with lastAccess := cache.clock + 1 }
        else cache.slots[j] := List.getElem_modify _ _ _ _ hj
    rw [hget]
    split_ifs with hij
    · subst hij
      exact Or.inl rfl
    · refine Or.inr ⟨List.getElem_mem hj', ?_⟩
      rw [← hhit.2]
      have hne := h.tiled.ids
      rw [List.pairwise_iff_getElem] at hne
      rcases Nat.lt_or_gt_of_ne hij with hlt | hgt
      · exact (hne index j hi hj' hlt).symm
      · exact hne j index hj' hi hgt
  have hheld : SlotHolds cache.arena log cache.slots[index] := h.held _ (List.getElem_mem hi)
  refine ⟨CacheTiled.touch h.tiled index, h.capacity_eq, ?_, clock_succ h.clock_eq,
    h.times_use ?_⟩
  · intro slot' hslot'
    rcases hmem slot' hslot' with rfl | ⟨hold, hne⟩
    · refine ⟨hheld.aligned, hheld.length_eq, hheld.version_eq, hheld.bytes_eq, ?_, ?_⟩
      · change cache.clock + 1 = UInt64.ofNat ((log.use id).lastUsed cache.slots[index].id)
        rw [hhit.2, log.use_self]
        exact clock_succ h.clock_eq
      · change (log.use id).lastUsed cache.slots[index].id ≤ log.time + 1
        rw [hhit.2, log.use_self]
    · exact (h.held slot' hold).other hne rfl rfl
  · intro slot' hslot'
    rcases hmem slot' hslot' with rfl | ⟨hold, -⟩
    · exact Or.inl hhit.2
    · exact Or.inr ⟨slot', hold, rfl⟩

/-- The loops of an insertion keep the invariant, and leave no slot of the object. -/
theorem CacheInv.makeRoom (id : ObjectId) {span : Nat} (hfits : span ≤ capacity) :
    LoopEnds slotsFull (cacheRemoveObject cache id).slots.length (cacheRemoveObject cache id) ∧
      LoopEnds (arenaFull span) (cacheFreeSlot cache id).slots.length (cacheFreeSlot cache id) ∧
      (CacheInv capacity (cacheMakeRoom cache id span, log) ∧
        id ∉ (cacheMakeRoom cache id span).slots.map (·.id)) ∧
      (cacheMakeRoom cache id span).arenaUsed + span ≤
        (cacheMakeRoom cache id span).arena.length := by
  -- the caches that the loops pass through
  refine cacheMakeRoom_spec span
    (R := fun c => CacheInv capacity (c, log) ∧ id ∉ c.slots.map (·.id)) ?_ ?_
    ⟨h.removeObject id, id_notMem_removeObject h.tiled id⟩
  · rintro c ⟨hc, hid⟩
    refine ⟨hc.evict, fun hmem => hid ?_⟩
    rcases cacheEvictLru_cases c with ⟨heq, -⟩ | ⟨index, hole, hhole, heq⟩
    · rwa [heq] at hmem
    · rw [heq] at hmem
      exact ((id_mem_removeSlot hc.tiled hhole id).mp hmem).1
  · rintro c ⟨hc, -⟩
    exact ⟨hc.tiled, hfits.trans_eq hc.capacity_eq.symm⟩

/-- **Step**: every operation keeps the invariant. -/
theorem CacheInv.step (call : CacheCall) : CacheInv capacity (cacheStep (cache, log) call) := by
  cases call with
  | insert id version bytes =>
    unfold cacheStep
    dsimp only
    by_cases hbad : bytes.length = 0 ∨ cacheSpan bytes.length > cache.arena.length
    · have hnone : cacheInsert cache id version bytes = (none, cache) := by
        unfold cacheInsert
        dsimp only
        rw [if_pos hbad]
      rw [hnone]
      exact h
    · rw [not_or, Nat.not_lt] at hbad
      rw [cacheInsert_eq cache id version hbad.1 hbad.2]
      obtain ⟨-, -, ⟨hinv, hids⟩, hroom⟩ := h.makeRoom id (hbad.2.trans_eq h.capacity_eq)
      exact hinv.append (fun slot hslot heq => hids (List.mem_map.mpr ⟨slot, hslot, heq⟩)) version
        hbad.1 hroom
  | lookup id version =>
    unfold cacheStep
    dsimp only
    cases hfind : cacheFind cache id version with
    | none => exact h
    | some index => exact h.touch hfind
  | remove id => exact h.removeObject id
  | evict => exact h.evict

end Steps

/-- **Run**: so does every sequence of operations. -/
theorem cacheInv_run (arena : List UInt8) (calls : List CacheCall) :
    CacheInv arena.length (cacheRun arena calls) := by
  unfold cacheRun
  induction calls using List.reverseRecOn with
  | nil => exact CacheInv.start arena
  | append_singleton calls call ih =>
    rw [List.foldl_append]
    exact ih.step call

/-! ### Cache consistency -/

/-- What is asked of a cache and its log. -/
structure CacheConsistent (s : ObjectCache × CacheLog) : Prop where
  tiles : ∀ p < s.1.arenaUsed, ∃ slot ∈ s.1.slots, slot.span.Holds p ∧
    ∀ slot' ∈ s.1.slots, slot'.span.Holds p → slot' = slot
  inside : ∀ slot ∈ s.1.slots, slot.offset + slot.length ≤ s.1.arenaUsed
  aligned : ∀ slot ∈ s.1.slots, 8 ∣ slot.offset ∧ 8 ∣ slot.length
  ids : s.1.slots.Pairwise fun slot slot' => slot.id ≠ slot'.id
  bytes : ∀ slot ∈ s.1.slots, slot.version = (s.2.body slot.id).1 ∧
    (s.1.arena.drop slot.offset).take (s.2.body slot.id).2.length = (s.2.body slot.id).2
  loops : ∀ id span, span ≤ s.1.arena.length →
    LoopEnds slotsFull (cacheRemoveObject s.1 id).slots.length (cacheRemoveObject s.1 id) ∧
    LoopEnds (arenaFull span) (cacheFreeSlot s.1 id).slots.length (cacheFreeSlot s.1 id)

/-- The invariant gives the abstract consistency of the cache. -/
theorem CacheInv.consistent {capacity : Nat} {cache : ObjectCache} {log : CacheLog}
    (h : CacheInv capacity (cache, log)) : CacheConsistent (cache, log) := by
  refine ⟨?_, ?_, ?_, h.tiled.ids, ?_, ?_⟩
  · intro p hp
    obtain ⟨span, hspan, hholds⟩ := h.tiled.packed.exists_holds hp
    obtain ⟨slot, hslot, rfl⟩ := List.mem_map.mp hspan
    refine ⟨slot, hslot, hholds, fun slot' hslot' hholds' => ?_⟩
    by_contra hne
    have : Std.Symm fun s t : ObjectCacheSlot => s.span.Disjoint t.span :=
      ⟨fun _ _ => Span.Disjoint.symm⟩
    have hdisjoint := (List.pairwise_map.mp h.tiled.packed.disjoint).forall hslot' hslot hne
    unfold Span.Disjoint at hdisjoint
    unfold Span.Holds at hholds hholds'
    omega
  · exact fun slot hslot => h.tiled.packed.inside _ (List.mem_map_of_mem hslot)
  · intro slot hslot
    have hheld := h.held slot hslot
    refine ⟨hheld.aligned, ?_⟩
    rw [hheld.length_eq]
    exact cacheSpan_aligned _
  · intro slot hslot
    have hheld := h.held slot hslot
    have hbytes := hheld.bytes_eq
    have hspan := le_cacheSpan (log.body slot.id).2.length
    refine ⟨hheld.version_eq, ?_⟩
    rw [window, List.take_take, Nat.min_eq_left] at hbytes
    · exact hbytes
    · change _ ≤ slot.length
      rw [hheld.length_eq]
      exact hspan
  · intro id span hspan
    have hcap := h.capacity_eq
    obtain ⟨h1, h2, -⟩ := h.makeRoom id (hcap ▸ hspan)
    exact ⟨h1, h2⟩

/-- An eviction removes the slot whose last insertion or hit is the oldest, and only that one. -/
def EvictsOldest (s : ObjectCache × CacheLog) : Prop :=
  s.1.slots ≠ [] → ∃ victim ∈ s.1.slots,
    (∀ slot ∈ s.1.slots, slot.id ≠ victim.id →
      s.2.lastUsed victim.id < s.2.lastUsed slot.id) ∧
    ∀ id, id ∈ (cacheEvictLru s.1).slots.map (·.id) ↔
      id ∈ s.1.slots.map (·.id) ∧ id ≠ victim.id

theorem foldl_evict (n : Nat) (s : ObjectCache × CacheLog) :
    (List.replicate n CacheCall.evict).foldl cacheStep s = (cacheEvictLru^[n] s.1, s.2) := by
  induction n generalizing s with
  | zero => rfl
  | succ n ih =>
    rw [List.replicate_succ, List.foldl_cons, ih, Function.iterate_succ_apply]
    rfl

/-- What an insertion does before it writes the body: a removal and some evictions. -/
theorem makeRoom_eq_run (arena : List UInt8) (calls : List CacheCall) (id : ObjectId) {span : Nat}
    (hfits : span ≤ arena.length) : ∃ n, cacheMakeRoom (cacheRun arena calls).1 id span =
      (cacheRun arena (calls ++ .remove id :: List.replicate n .evict)).1 := by
  obtain ⟨h1, h2, -⟩ := @CacheInv.makeRoom arena.length (cacheRun arena calls).1
    (cacheRun arena calls).2 (cacheInv_run arena calls) id span hfits
  obtain ⟨n1, hn1⟩ := h1.evictions
  obtain ⟨n2, hn2⟩ := h2.evictions
  refine ⟨n1 + n2, ?_⟩
  have hrun : (cacheRun arena (calls ++ .remove id :: List.replicate (n1 + n2) .evict)).1 =
      cacheEvictLru^[n1 + n2] (cacheRemoveObject (cacheRun arena calls).1 id) := by
    rw [cacheRun, List.foldl_append, List.foldl_cons, foldl_evict]
    rfl
  rw [hrun, Nat.add_comm, Function.iterate_add_apply, ← hn1]
  exact hn2

/-- **The cache is consistent.**  After every sequence of insertions, lookups, removals and
evictions, the slots tile the used part of the arena, they are aligned, at most one belongs to an
object and it holds the bytes inserted last, and the loops of an insertion end if the body fits
into the arena at all.  Such an insertion removes the slot of its object, evicts as the operation
of its own does, and appends the body.  Every eviction removes the slot used longest ago, if there
were fewer than `2 ^ 64` insertions and hits. -/
theorem cache_consistent (arena : List UInt8) (calls : List CacheCall) :
    let s := cacheRun arena calls
    CacheConsistent s ∧
    (∀ id version (bytes : List UInt8), bytes.length ≠ 0 →
      cacheSpan bytes.length ≤ arena.length → ∃ n,
        let room := cacheRun arena (calls ++ .remove id :: List.replicate n .evict)
        cacheInsert s.1 id version bytes =
          (some room.1.arenaUsed, cacheAppend room.1 id version bytes)) ∧
    (s.2.time < 2 ^ 64 → EvictsOldest s) := by
  intro s
  have h : CacheInv arena.length s := cacheInv_run arena calls
  refine ⟨CacheInv.consistent h, ?_, fun htime hne => CacheInv.evicts_oldest h hne htime⟩
  intro id version bytes hpos hfits
  obtain ⟨n, hn⟩ := makeRoom_eq_run arena calls id hfits
  refine ⟨n, ?_⟩
  rw [cacheInsert_eq s.1 id version hpos (hfits.trans_eq h.capacity_eq.symm)]
  dsimp only
  rw [← hn]

/-! ### The clock wraps around -/

/-- Two objects of eight bytes, the second one hit `k` times. -/
def twoBodies (k : Nat) : ObjectCache where
  arena := List.replicate 16 0
  arenaUsed := 16
  slots := [⟨⟨0, 1⟩, 1, 0, 8, 1⟩, ⟨⟨0, 2⟩, 1, 8, 8, UInt64.ofNat (2 + k)⟩]
  clock := UInt64.ofNat (2 + k)

/-- The state after the two insertions and `k` hits. -/
structure HitTwice (k : Nat) (s : ObjectCache × CacheLog) : Prop where
  cache : s.1 = twoBodies k
  time : s.2.time = 2 + k
  first : s.2.lastUsed ⟨0, 1⟩ = 1
  second : s.2.lastUsed ⟨0, 2⟩ = 2 + k

theorem HitTwice.hit {k : Nat} {s : ObjectCache × CacheLog} (h : HitTwice k s) :
    HitTwice (k + 1) (cacheStep s (.lookup ⟨0, 2⟩ 1)) := by
  have hfind : cacheFind (twoBodies k) ⟨0, 2⟩ 1 = some 1 := rfl
  have hstep : cacheStep s (.lookup ⟨0, 2⟩ 1) = (cacheTouch (twoBodies k) 1, s.2.use ⟨0, 2⟩) := by
    rw [cacheStep, h.cache, hfind]
  rw [hstep]
  refine ⟨?_, ?_, ?_, ?_⟩
  · have hclock : UInt64.ofNat (2 + k) + 1 = UInt64.ofNat (2 + (k + 1)) := clock_succ rfl
    unfold twoBodies
    rw [← hclock]
    rfl
  · exact congrArg (· + 1) h.time
  · exact (s.2.use_of_ne (by decide)).trans h.first
  · exact (s.2.use_self _).trans (congrArg (· + 1) h.time)

theorem HitTwice.hits {s : ObjectCache × CacheLog} (h : HitTwice 0 s) (k : Nat) :
    HitTwice k ((List.replicate k (CacheCall.lookup ⟨0, 2⟩ 1)).foldl cacheStep s) := by
  induction k with
  | zero => exact h
  | succ k ih =>
    rw [List.replicate_succ', List.foldl_append]
    exact ih.hit

theorem exists_hitTwice (k : Nat) : ∃ calls s, HitTwice k s ∧
    cacheRun (List.replicate 16 0) calls = cacheStep s (.lookup ⟨0, 1⟩ 1) := by
  have hstart : HitTwice 0 (cacheRun (List.replicate 16 0)
      [.insert ⟨0, 1⟩ 1 (List.replicate 8 0), .insert ⟨0, 2⟩ 1 (List.replicate 8 0)]) :=
    ⟨by decide, by decide, by decide, by decide⟩
  refine ⟨[.insert ⟨0, 1⟩ 1 (List.replicate 8 0), .insert ⟨0, 2⟩ 1 (List.replicate 8 0)] ++
    List.replicate k (.lookup ⟨0, 2⟩ 1) ++ [.lookup ⟨0, 1⟩ 1], _, hstart.hits k, ?_⟩
  rw [cacheRun, List.foldl_append, List.foldl_append]
  rfl

/-- **The slot used last is evicted**: two objects are inserted, the second one is hit until the
clock stands at `2 ^ 64 - 1`, and then the first one is hit.  Its access time is now zero. -/
theorem cache_evicts_newest : ∃ arena calls, ¬ EvictsOldest (cacheRun arena calls) := by
  obtain ⟨calls, s, hhits, hrun⟩ := exists_hitTwice (2 ^ 64 - 3)
  refine ⟨List.replicate 16 0, calls, ?_⟩
  have hfind : cacheFind (twoBodies (2 ^ 64 - 3)) ⟨0, 1⟩ 1 = some 0 := rfl
  have hstep : cacheStep s (.lookup ⟨0, 1⟩ 1) =
      (cacheTouch (twoBodies (2 ^ 64 - 3)) 0, s.2.use ⟨0, 1⟩) := by
    rw [cacheStep, hhits.cache, hfind]
  rw [hrun, hstep]
  intro holdest
  obtain ⟨victim, hvictim, hmin, hids⟩ := holdest (List.cons_ne_nil _ _)
  -- the second object stays, so the first one is evicted, which was used last
  have hstays : (⟨0, 2⟩ : ObjectId) ∈
      (cacheEvictLru (cacheTouch (twoBodies (2 ^ 64 - 3)) 0)).slots.map (·.id) := by decide
  have hne : (⟨0, 2⟩ : ObjectId) ≠ victim.id := ((hids _).mp hstays).2
  have hfirst : victim.id = ⟨0, 1⟩ := by
    rcases List.mem_cons.mp hvictim with rfl | hlast
    · rfl
    · rw [List.mem_singleton.mp hlast] at hne
      exact absurd rfl hne
  have hlt := hmin _ (List.mem_cons_of_mem _ List.mem_cons_self) (by rw [hfirst]; decide)
  rw [hfirst] at hlt
  change (s.2.use ⟨0, 1⟩).lastUsed ⟨0, 1⟩ < (s.2.use ⟨0, 1⟩).lastUsed ⟨0, 2⟩ at hlt
  rw [s.2.use_self, s.2.use_of_ne (by decide), hhits.time, hhits.second] at hlt
  omega

end Jani
