import Jani.Lib.PackedArena
import Jani.Obj.Operations

/-!
# The cache as a map

The slots of the cache are packed in the arena, with at most one slot for each object, and each of
them holds a whole object (`CacheOk`).  What matters of a cache is which objects it shows under
which identifier and version (`slotView`): removing and evicting slots leaves a part of them
(`Shrinks`), and an insertion replaces the slot of its object (`cacheInsert_spec`).

The second loop of an insertion evicts until the new body fits.  It ends because the arena is
empty when there is no slot left (`Packed.total`).
-/

namespace Jani

/-! ### Whole objects -/

/-- The bytes contain the payload that their header announces. -/
def Whole (bytes : List UInt8) : Prop :=
  objectHeaderSize + (ObjectHeader.ofBytes bytes).payloadSize.toNat ≤ bytes.length

variable {l bytes : List UInt8}

theorem u32At_take {off n : Nat} (h : off + 4 ≤ n) : u32At (l.take n) off = u32At l off := by
  rw [u32At, u32At, get32, get32, List.drop_take, List.take_take, Nat.min_eq_left (by omega)]

theorem u64At_take {off n : Nat} (h : off + 8 ≤ n) : u64At (l.take n) off = u64At l off := by
  rw [u64At, u64At, get64, get64, List.drop_take, List.take_take, Nat.min_eq_left (by omega)]

theorem ofBytes_take {n : Nat} (h : objectHeaderSize ≤ n) :
    ObjectHeader.ofBytes (l.take n) = ObjectHeader.ofBytes l := by
  unfold objectHeaderSize at h
  unfold ObjectHeader.ofBytes idAt
  rw [u64At_take, u32At_take, u32At_take, u64At_take, u64At_take, u64At_take, u64At_take,
    u64At_take, u64At_take, u32At_take, u32At_take, u64At_take, u64At_take, u64At_take,
    u64At_take, u64At_take, u64At_take, u64At_take] <;> omega

theorem objectViewOf_take {n : Nat} (h : Whole (l.take n)) :
    objectViewOf l = objectViewOf (l.take n) := by
  have hlen : (l.take n).length ≤ n := by
    rw [List.length_take]
    omega
  unfold Whole at h
  have hn : objectHeaderSize ≤ n := by omega
  rw [ofBytes_take hn] at h
  unfold objectViewOf
  dsimp only
  rw [ofBytes_take hn, List.drop_take, List.take_take, Nat.min_eq_left (by omega)]

theorem objectViewOf_append (h : Whole bytes) (rest : List UInt8) :
    objectViewOf (bytes ++ rest) = objectViewOf bytes := by
  have htake : (bytes ++ rest).take bytes.length = bytes := List.take_left' rfl
  rw [objectViewOf_take (n := bytes.length) (by rwa [htake]), htake]

theorem Whole.append (h : Whole bytes) (rest : List UInt8) : Whole (bytes ++ rest) := by
  have hview := congrArg ObjectView.payloadSize (objectViewOf_append h rest)
  change (ObjectHeader.ofBytes (bytes ++ rest)).payloadSize =
    (ObjectHeader.ofBytes bytes).payloadSize at hview
  unfold Whole at h ⊢
  rw [hview, List.length_append]
  omega

theorem Whole.of_validate (h : objectHeaderValidate bytes = true) : Whole bytes := by
  unfold objectHeaderValidate at h
  simp only [Bool.if_false_left, Bool.and_eq_true, Bool.not_eq_true', decide_eq_false_iff_not] at h
  obtain ⟨hlen, -, -, -, -, -, hsize, -⟩ := h
  change objectHeaderSize + (u64At bytes 56).toNat ≤ bytes.length
  omega

/-! ### The cache -/

def ObjectCacheSlot.span (slot : ObjectCacheSlot) : Span := ⟨slot.offset, slot.length⟩

/-- What a get that hits the slot returns. -/
def slotView (cache : ObjectCache) (slot : ObjectCacheSlot) : ObjectView :=
  objectViewOf (cache.arena.drop slot.offset)

structure CacheOk (cache : ObjectCache) : Prop where
  used_le : cache.arenaUsed ≤ cache.arena.length
  packed : Packed cache.arenaUsed (cache.slots.map ObjectCacheSlot.span)
  ids : cache.slots.Pairwise fun s t => s.id ≠ t.id
  whole : ∀ slot ∈ cache.slots, Whole (window cache.arena slot.span)

/-- The slots are packed, with at most one for each object. -/
structure CacheTiled (cache : ObjectCache) : Prop where
  used_le : cache.arenaUsed ≤ cache.arena.length
  packed : Packed cache.arenaUsed (cache.slots.map ObjectCacheSlot.span)
  ids : cache.slots.Pairwise fun s t => s.id ≠ t.id

variable {cache : ObjectCache}

theorem CacheOk.tiled (h : CacheOk cache) : CacheTiled cache :=
  ⟨h.used_le, h.packed, h.ids⟩

theorem CacheOk.slotView_eq (h : CacheOk cache) {slot : ObjectCacheSlot}
    (hslot : slot ∈ cache.slots) :
    slotView cache slot = objectViewOf (window cache.arena slot.span) :=
  objectViewOf_take (h.whole slot hslot)

/-- The slots of the second cache are slots of the first, with the same contents. -/
structure Shrinks (cache cache' : ObjectCache) : Prop where
  ok : CacheOk cache'
  length_arena : cache'.arena.length = cache.arena.length
  slots : ∀ slot' ∈ cache'.slots, ∃ slot ∈ cache.slots, slot'.id = slot.id ∧
    slot'.version = slot.version ∧ slotView cache' slot' = slotView cache slot

theorem Shrinks.refl (h : CacheOk cache) : Shrinks cache cache :=
  ⟨h, rfl, fun slot hslot => ⟨slot, hslot, rfl, rfl, rfl⟩⟩

theorem Shrinks.trans {cache' cache'' : ObjectCache} (h : Shrinks cache cache')
    (h' : Shrinks cache' cache'') : Shrinks cache cache'' := by
  refine ⟨h'.ok, h'.length_arena.trans h.length_arena, ?_⟩
  intro slot'' hslot''
  obtain ⟨slot', hslot', hid', hversion', hview'⟩ := h'.slots slot'' hslot''
  obtain ⟨slot, hslot, hid, hversion, hview⟩ := h.slots slot' hslot'
  exact ⟨slot, hslot, hid'.trans hid, hversion'.trans hversion, hview'.trans hview⟩

/-! ### Removing slots -/

theorem set_getLastD_dropLast_perm {α : Type} (default : α) : ∀ (l : List α) (i : Nat),
    i < l.length → ((l.set i (l.getLastD default)).dropLast).Perm (l.eraseIdx i)
  | x :: xs, 0, _ => by
    rcases List.eq_nil_or_concat' xs with rfl | ⟨ys, y, rfl⟩
    · exact List.Perm.refl _
    · have hlast : (x :: (ys ++ [y])).getLastD default = y := by
        rw [← List.cons_append, List.getLastD_concat]
      rw [List.eraseIdx_zero, List.tail_cons, List.set_cons_zero, hlast, ← List.cons_append,
        List.dropLast_concat]
      exact (List.perm_append_singleton y ys).symm
  | x :: xs, i + 1, hi => by
    have hi' : i < xs.length := by simpa using hi
    have hne : xs ≠ [] := List.ne_nil_of_length_pos (by omega)
    have hne' : xs.set i (xs.getLastD default) ≠ [] := by simpa using hne
    have hlast : (x :: xs).getLastD default = xs.getLastD default := by
      rw [List.getLastD_cons, List.getLastD_eq_getLast?, List.getLastD_eq_getLast?,
        List.getLast?_eq_some_getLast hne]
      rfl
    rw [hlast, List.set_cons_succ, List.dropLast_cons_of_ne_nil hne', List.eraseIdx_cons_succ]
    exact (set_getLastD_dropLast_perm default xs i hi').cons x

/-- A slot after the hole was closed. -/
def ObjectCacheSlot.moved (hole slot : ObjectCacheSlot) : ObjectCacheSlot :=
  if slot.offset > hole.offset then { slot with offset := slot.offset - hole.length } else slot

@[simp]
theorem ObjectCacheSlot.id_moved (hole slot : ObjectCacheSlot) :
    (hole.moved slot).id = slot.id := by
  unfold moved
  split_ifs <;> rfl

@[simp]
theorem ObjectCacheSlot.version_moved (hole slot : ObjectCacheSlot) :
    (hole.moved slot).version = slot.version := by
  unfold moved
  split_ifs <;> rfl

theorem ObjectCacheSlot.span_moved (hole slot : ObjectCacheSlot) :
    (hole.moved slot).span = hole.span.shift slot.span := by
  unfold moved Span.shift
  change (if slot.offset > hole.offset then _ else _ : ObjectCacheSlot).span =
    if slot.offset > hole.offset then _ else _
  split_ifs <;> rfl

section Remove

variable {cache : ObjectCache} {index : Nat} {hole : ObjectCacheSlot}

theorem cacheRemoveSlot_perm (hhole : cache.slots[index]? = some hole) :
    cache.slots.Perm (hole :: cache.slots.eraseIdx index) ∧
      (cacheRemoveSlot cache index).slots.Perm
        ((cache.slots.eraseIdx index).map hole.moved) := by
  obtain ⟨hi, rfl⟩ := List.getElem?_eq_some_iff.mp hhole
  refine ⟨(List.getElem_cons_eraseIdx_perm hi).symm, ?_⟩
  rw [cacheRemoveSlot, hhole, ← List.eraseIdx_map]
  exact set_getLastD_dropLast_perm default _ index (by rwa [List.length_map])

/-- What closing a hole leads to, whatever the slots hold. -/
structure Closed (cache : ObjectCache) (index : Nat) (hole : ObjectCacheSlot)
    (cache' : ObjectCache) : Prop where
  tiled : CacheTiled cache'
  length_arena : cache'.arena.length = cache.arena.length
  clock : cache'.clock = cache.clock
  slots : cache'.slots.Perm ((cache.slots.eraseIdx index).map hole.moved)
  window : ∀ slot ∈ cache.slots.eraseIdx index,
    Jani.window cache'.arena (hole.moved slot).span = Jani.window cache.arena slot.span

/-- **Close**: the other slots are packed again, with their contents. -/
theorem cacheRemoveSlot_closed (h : CacheTiled cache) (hhole : cache.slots[index]? = some hole) :
    Closed cache index hole (cacheRemoveSlot cache index) := by
  obtain ⟨hperm, hperm'⟩ := cacheRemoveSlot_perm hhole
  have harena : (cacheRemoveSlot cache index).arena = moveDown cache.arena hole.span.offset
      (hole.span.offset + hole.span.length)
      (cache.arenaUsed - (hole.span.offset + hole.span.length)) := by
    rw [cacheRemoveSlot, hhole]
    rfl
  have hused : (cacheRemoveSlot cache index).arenaUsed = cache.arenaUsed - hole.span.length := by
    rw [cacheRemoveSlot, hhole]
    rfl
  have hclock : (cacheRemoveSlot cache index).clock = cache.clock := by
    rw [cacheRemoveSlot, hhole]
  generalize cacheRemoveSlot cache index = cache' at hperm' harena hused hclock
  have hpacked : Packed cache.arenaUsed
      (hole.span :: (cache.slots.eraseIdx index).map ObjectCacheSlot.span) :=
    h.packed.perm (hperm.map ObjectCacheSlot.span)
  have hinside : hole.span.offset + hole.span.length ≤ cache.arenaUsed :=
    hpacked.inside _ List.mem_cons_self
  have hids : (hole :: cache.slots.eraseIdx index).Pairwise fun s t => s.id ≠ t.id :=
    (hperm.pairwise_iff Ne.symm).mp h.ids
  have hlen : cache'.arena.length = cache.arena.length := by
    rw [harena, length_moveDown (Nat.le_add_right _ _)]
    have := h.used_le
    omega
  refine ⟨⟨?_, ?_, ?_⟩, hlen, hclock, hperm', ?_⟩
  · rw [hused, hlen]
    exact (Nat.sub_le _ _).trans h.used_le
  · rw [hused]
    refine hpacked.remove.perm ?_
    have hspans : ((cache.slots.eraseIdx index).map ObjectCacheSlot.span).map hole.span.shift =
        ((cache.slots.eraseIdx index).map hole.moved).map ObjectCacheSlot.span := by
      rw [List.map_map, List.map_map]
      exact List.map_congr_left fun s _ => (ObjectCacheSlot.span_moved hole s).symm
    rw [hspans]
    exact hperm'.symm.map _
  · refine (hperm'.pairwise_iff Ne.symm).mpr (List.pairwise_map.mpr ?_)
    simpa using (List.pairwise_cons.mp hids).2
  · intro slot hslot
    rw [harena, ObjectCacheSlot.span_moved]
    exact window_moveDown hpacked h.used_le (List.mem_map_of_mem hslot)

/-- **Remove**: the other slots keep their contents. -/
theorem cacheRemoveSlot_spec (h : CacheOk cache) (hhole : cache.slots[index]? = some hole) :
    Shrinks cache (cacheRemoveSlot cache index) ∧
      ∀ slot ∈ (cacheRemoveSlot cache index).slots, slot.id ≠ hole.id := by
  obtain ⟨hperm, -⟩ := cacheRemoveSlot_perm hhole
  have hclosed := cacheRemoveSlot_closed h.tiled hhole
  generalize cacheRemoveSlot cache index = cache' at hclosed
  have hids : (hole :: cache.slots.eraseIdx index).Pairwise fun s t => s.id ≠ t.id :=
    (hperm.pairwise_iff Ne.symm).mp h.ids
  have hmem : ∀ slot' ∈ cache'.slots, ∃ slot ∈ cache.slots.eraseIdx index,
      slot' = hole.moved slot ∧
      window cache'.arena slot'.span = window cache.arena slot.span := by
    intro slot' hslot'
    obtain ⟨slot, hslot, rfl⟩ := List.mem_map.mp (hclosed.slots.mem_iff.mp hslot')
    exact ⟨slot, hslot, rfl, hclosed.window slot hslot⟩
  have hold : ∀ slot ∈ cache.slots.eraseIdx index, slot ∈ cache.slots := fun slot hslot =>
    hperm.mem_iff.mpr (List.mem_cons_of_mem _ hslot)
  have hok : CacheOk cache' := by
    refine ⟨hclosed.tiled.used_le, hclosed.tiled.packed, hclosed.tiled.ids, ?_⟩
    intro slot' hslot'
    obtain ⟨slot, hslot, -, hwindow⟩ := hmem slot' hslot'
    rw [hwindow]
    exact h.whole slot (hold slot hslot)
  refine ⟨⟨hok, hclosed.length_arena, ?_⟩, ?_⟩
  · intro slot' hslot'
    obtain ⟨slot, hslot, rfl, hwindow⟩ := hmem slot' hslot'
    refine ⟨slot, hold slot hslot, ObjectCacheSlot.id_moved _ _,
      ObjectCacheSlot.version_moved _ _, ?_⟩
    rw [hok.slotView_eq hslot', h.slotView_eq (hold slot hslot), hwindow]
  · intro slot' hslot'
    obtain ⟨slot, hslot, rfl, -⟩ := hmem slot' hslot'
    rw [ObjectCacheSlot.id_moved]
    exact ((List.pairwise_cons.mp hids).1 slot hslot).symm

theorem cacheRemoveObject_cases (cache : ObjectCache) (id : ObjectId) :
    (cacheRemoveObject cache id = cache ∧ ∀ slot ∈ cache.slots, slot.id ≠ id) ∨
      ∃ index hole, cache.slots[index]? = some hole ∧ hole.id = id ∧
        cacheRemoveObject cache id = cacheRemoveSlot cache index := by
  unfold cacheRemoveObject
  cases hfind : cache.slots.findIdx? fun slot => objectIdEqual slot.id id with
  | none =>
    refine Or.inl ⟨rfl, fun slot hslot heq => ?_⟩
    have := List.findIdx?_eq_none_iff.mp hfind slot hslot
    rw [(objectIdEqual_iff _ _).mpr heq] at this
    cases this
  | some index =>
    obtain ⟨hi, hid, -⟩ := List.findIdx?_eq_some_iff_getElem.mp hfind
    rw [objectIdEqual_iff] at hid
    exact Or.inr ⟨index, _, List.getElem?_eq_getElem hi, hid, rfl⟩

theorem cacheRemoveObject_spec (h : CacheOk cache) (id : ObjectId) :
    Shrinks cache (cacheRemoveObject cache id) ∧
      ∀ slot ∈ (cacheRemoveObject cache id).slots, slot.id ≠ id := by
  rcases cacheRemoveObject_cases cache id with ⟨heq, hids⟩ | ⟨index, hole, hhole, rfl, heq⟩
  · rw [heq]
    exact ⟨Shrinks.refl h, hids⟩
  · rw [heq]
    exact cacheRemoveSlot_spec h hhole

theorem cacheVictim_lt (slots : List ObjectCacheSlot) : ∀ fuel i victim : Nat,
    i + fuel ≤ slots.length → victim < slots.length → cacheVictim slots fuel i victim < slots.length
  | 0, _, _, _, hvictim => hvictim
  | fuel + 1, i, victim, hi, hvictim => by
    rw [cacheVictim]
    split_ifs
    · exact cacheVictim_lt slots fuel (i + 1) i (by omega) (by omega)
    · exact cacheVictim_lt slots fuel (i + 1) victim (by omega) hvictim

/-- **Evict**: a slot goes, if there is one. -/
theorem cacheEvictLru_cases (cache : ObjectCache) :
    (cacheEvictLru cache = cache ∧ cache.slots.length = 0) ∨
      ∃ index hole, cache.slots[index]? = some hole ∧
        cacheEvictLru cache = cacheRemoveSlot cache index := by
  unfold cacheEvictLru
  split_ifs with hempty
  · exact Or.inl ⟨rfl, hempty⟩
  · have hvictim := cacheVictim_lt cache.slots (cache.slots.length - 1) 1 0 (by omega) (by omega)
    exact Or.inr ⟨_, _, List.getElem?_eq_getElem hvictim, rfl⟩

theorem Shrinks.evict (h : CacheOk cache) : Shrinks cache (cacheEvictLru cache) := by
  rcases cacheEvictLru_cases cache with ⟨heq, -⟩ | ⟨index, hole, hhole, heq⟩
  · rw [heq]
    exact Shrinks.refl h
  · rw [heq]
    exact (cacheRemoveSlot_spec h hhole).1

theorem length_cacheEvictLru (cache : ObjectCache) :
    (cacheEvictLru cache).slots.length = cache.slots.length - 1 := by
  rcases cacheEvictLru_cases cache with ⟨heq, hempty⟩ | ⟨index, hole, hhole, heq⟩
  · rw [heq]
    omega
  · obtain ⟨hperm, hperm'⟩ := cacheRemoveSlot_perm hhole
    rw [heq, hperm'.length_eq, hperm.length_eq, List.length_map, List.length_cons]
    rfl

/-- What a loop that evicts while `p` holds comes to. -/
structure LoopEnds (p : ObjectCache → Bool) (fuel : Nat) (cache : ObjectCache) : Prop where
  done : p (cacheEvictWhile p fuel cache) = false
  enough : ∀ more, cacheEvictWhile p (fuel + more) cache = cacheEvictWhile p fuel cache
  evictions : ∃ n, cacheEvictWhile p fuel cache = cacheEvictLru^[n] cache

/-- **The eviction loops end**: with as many iterations as there are slots, the loop stops because
its condition fails, if that fails on the empty caches that evictions lead to. -/
theorem cacheEvictWhile_ends {p : ObjectCache → Bool} {R : ObjectCache → Prop}
    (hevict : ∀ cache, R cache → R (cacheEvictLru cache))
    (hempty : ∀ cache, R cache → cache.slots = [] → p cache = false) :
    ∀ (fuel : Nat) {cache : ObjectCache}, R cache → cache.slots.length ≤ fuel →
      LoopEnds p fuel cache ∧ R (cacheEvictWhile p fuel cache)
  | 0, cache, h, hfuel => by
    have hp := hempty cache h (List.eq_nil_of_length_eq_zero (Nat.le_zero.mp hfuel))
    refine ⟨⟨hp, fun more => ?_, 0, rfl⟩, h⟩
    rw [Nat.zero_add]
    cases more with
    | zero => rfl
    | succ more =>
      rw [cacheEvictWhile, cacheEvictWhile, if_neg (Bool.eq_false_iff.mp hp)]
  | fuel + 1, cache, h, hfuel => by
    have hlen := length_cacheEvictLru cache
    by_cases hcond : p cache = true
    · obtain ⟨⟨hdone, henough, n, hn⟩, hR⟩ :=
        cacheEvictWhile_ends hevict hempty fuel (hevict cache h) (by omega)
      have hstep : ∀ k, cacheEvictWhile p (k + 1) cache =
          cacheEvictWhile p k (cacheEvictLru cache) := fun k => by
        rw [cacheEvictWhile, if_pos hcond]
      refine ⟨⟨?_, fun more => ?_, n + 1, ?_⟩, ?_⟩
      · rw [hstep]
        exact hdone
      · rw [Nat.add_right_comm, hstep, hstep]
        exact henough more
      · rw [hstep, hn, Function.iterate_succ_apply]
      · rw [hstep]
        exact hR
    · have hstop : ∀ k, cacheEvictWhile p (k + 1) cache = cache := fun k => by
        rw [cacheEvictWhile, if_neg hcond]
      refine ⟨⟨?_, fun more => ?_, 0, hstop fuel⟩, ?_⟩
      · rw [hstop]
        exact Bool.eq_false_iff.mpr hcond
      · rw [Nat.add_right_comm, hstop, hstop]
      · rw [hstop]
        exact h

end Remove

/-! ### Insertion -/

theorem le_cacheSpan (length : Nat) : length ≤ cacheSpan length := by
  unfold cacheSpan
  omega

/-- A body fits in the arena. -/
def CacheFits (cache : ObjectCache) (bytes : List UInt8) : Prop :=
  cacheSpan bytes.length ≤ cache.arena.length

variable {id : ObjectId} {version : UInt64}

theorem cacheInsert_none (h : ¬ CacheFits cache bytes) :
    cacheInsert cache id version bytes = (none, cache) := by
  unfold cacheInsert
  dsimp only
  rw [if_pos (Or.inr (Nat.not_le.mp h))]

/-- What an insertion leads to. -/
structure Inserted (cache : ObjectCache) (id : ObjectId) (version : UInt64) (bytes : List UInt8)
    (offset : Nat) (cache' : ObjectCache) : Prop where
  ok : CacheOk cache'
  length_arena : cache'.arena.length = cache.arena.length
  view : objectViewOf (cache'.arena.drop offset) = objectViewOf bytes
  slots : ∀ slot' ∈ cache'.slots,
    (slot'.id = id ∧ slot'.version = version ∧ slotView cache' slot' = objectViewOf bytes) ∨
    (slot'.id ≠ id ∧ ∃ slot ∈ cache.slots, slot'.id = slot.id ∧ slot'.version = slot.version ∧
      slotView cache' slot' = slotView cache slot)

/-- The cache with a new body at the end of the arena. -/
def cacheAppend (cache : ObjectCache) (id : ObjectId) (version : UInt64) (bytes : List UInt8) :
    ObjectCache where
  arena := writeAt cache.arena cache.arenaUsed bytes
  arenaUsed := cache.arenaUsed + cacheSpan bytes.length
  slots := cache.slots ++
    [⟨id, version, cache.arenaUsed, cacheSpan bytes.length, cache.clock + 1⟩]
  clock := cache.clock + 1

section Append

variable (hroom : cache.arenaUsed + cacheSpan bytes.length ≤ cache.arena.length)
include hroom

theorem length_arena_append (id : ObjectId) (version : UInt64) :
    (cacheAppend cache id version bytes).arena.length = cache.arena.length := by
  have hspan := le_cacheSpan bytes.length
  exact length_writeAt (by omega)

theorem CacheTiled.append (h : CacheTiled cache) (hids : ∀ slot ∈ cache.slots, slot.id ≠ id)
    (version : UInt64) (hpos : bytes.length ≠ 0) :
    CacheTiled (cacheAppend cache id version bytes) := by
  have hspan := le_cacheSpan bytes.length
  refine ⟨(length_arena_append hroom id version).symm ▸ hroom, ?_, ?_⟩
  · unfold cacheAppend
    dsimp only
    rw [List.map_append]
    exact h.packed.append (by omega)
  · refine List.pairwise_append.mpr ⟨h.ids, List.pairwise_singleton _ _, ?_⟩
    intro slot hslot slot' hslot'
    rw [List.mem_singleton.mp hslot']
    exact hids slot hslot

omit hroom in
theorem CacheTiled.window_append (h : CacheTiled cache) {slot : ObjectCacheSlot}
    (hslot : slot ∈ cache.slots) : window (cacheAppend cache id version bytes).arena slot.span =
      window cache.arena slot.span :=
  window_writeAt h.used_le (h.packed.inside _ (List.mem_map_of_mem hslot))

/-- An appended object is inserted. -/
theorem Inserted.of_append (h : CacheOk cache) (hids : ∀ slot ∈ cache.slots, slot.id ≠ id)
    (version : UInt64) (hwhole : Whole bytes) :
    Inserted cache id version bytes cache.arenaUsed (cacheAppend cache id version bytes) := by
  have hpos : bytes.length ≠ 0 := by
    unfold Whole objectHeaderSize at hwhole
    omega
  have htiled := h.tiled.append hroom hids version hpos
  have hdrop : (cacheAppend cache id version bytes).arena.drop cache.arenaUsed =
      bytes ++ cache.arena.drop (cache.arenaUsed + bytes.length) := drop_writeAt h.used_le
  have hview : objectViewOf ((cacheAppend cache id version bytes).arena.drop cache.arenaUsed) =
      objectViewOf bytes := by
    rw [hdrop, objectViewOf_append hwhole]
  have hok : CacheOk (cacheAppend cache id version bytes) := by
    refine ⟨htiled.used_le, htiled.packed, htiled.ids, ?_⟩
    intro slot hslot
    rcases List.mem_append.mp hslot with hold | hnew
    · rw [h.tiled.window_append hold]
      exact h.whole slot hold
    · rw [List.mem_singleton.mp hnew]
      change Whole (((cacheAppend cache id version bytes).arena.drop cache.arenaUsed).take
        (cacheSpan bytes.length))
      rw [hdrop, List.take_append, List.take_of_length_le (le_cacheSpan _)]
      exact hwhole.append _
  refine ⟨hok, length_arena_append hroom id version, hview, ?_⟩
  intro slot hslot
  rcases List.mem_append.mp hslot with hold | hnew
  · refine Or.inr ⟨hids slot hold, slot, hold, rfl, rfl, ?_⟩
    rw [hok.slotView_eq hslot, h.slotView_eq hold, h.tiled.window_append hold]
  · left
    rw [List.mem_singleton.mp hnew]
    exact ⟨rfl, rfl, hview⟩

end Append

/-- The condition of the first loop of an insertion. -/
def slotsFull (cache : ObjectCache) : Bool := cache.slots.length ≥ objectStoreCacheSlots

/-- The condition of the second loop. -/
def arenaFull (span : Nat) (cache : ObjectCache) : Bool :=
  cache.arenaUsed + span > cache.arena.length

/-- The cache after the first loop of an insertion. -/
def cacheFreeSlot (cache : ObjectCache) (id : ObjectId) : ObjectCache :=
  cacheEvictWhile slotsFull (cacheRemoveObject cache id).slots.length (cacheRemoveObject cache id)

/-- The cache after the second one. -/
def cacheMakeRoom (cache : ObjectCache) (id : ObjectId) (span : Nat) : ObjectCache :=
  cacheEvictWhile (arenaFull span) (cacheFreeSlot cache id).slots.length (cacheFreeSlot cache id)

theorem cacheInsert_eq (cache : ObjectCache) (id : ObjectId) (version : UInt64)
    (hpos : bytes.length ≠ 0) (hfits : CacheFits cache bytes) : cacheInsert cache id version bytes =
      (some (cacheMakeRoom cache id (cacheSpan bytes.length)).arenaUsed,
        cacheAppend (cacheMakeRoom cache id (cacheSpan bytes.length)) id version bytes) := by
  unfold CacheFits at hfits
  unfold cacheInsert
  dsimp only
  rw [if_neg (by omega)]
  rfl

/-- **The loops of an insertion end**, if the body fits into the arena at all; what evictions keep
holds of what they leave, and there is room for the body. -/
theorem cacheMakeRoom_spec {R : ObjectCache → Prop} (span : Nat)
    (hevict : ∀ c, R c → R (cacheEvictLru c)) (hR : ∀ c, R c → CacheTiled c ∧ span ≤ c.arena.length)
    (hstart : R (cacheRemoveObject cache id)) :
    LoopEnds slotsFull (cacheRemoveObject cache id).slots.length (cacheRemoveObject cache id) ∧
      LoopEnds (arenaFull span) (cacheFreeSlot cache id).slots.length (cacheFreeSlot cache id) ∧
      R (cacheMakeRoom cache id span) ∧
      (cacheMakeRoom cache id span).arenaUsed + span ≤
        (cacheMakeRoom cache id span).arena.length := by
  obtain ⟨hslots, hR1⟩ := cacheEvictWhile_ends hevict (p := slotsFull)
    (fun c _ hempty => by rw [slotsFull, hempty]; rfl) _ hstart le_rfl
  obtain ⟨hroom, hR2⟩ := cacheEvictWhile_ends hevict (p := arenaFull span)
    (fun c hc hempty => by
      -- an empty cache uses nothing
      obtain ⟨htiled, hfits⟩ := hR c hc
      have hused := htiled.packed.total
      rw [hempty, List.map_nil, List.map_nil, List.sum_nil] at hused
      rw [arenaFull, decide_eq_false_iff_not]
      omega) _ hR1 le_rfl
  have hdone := hroom.done
  rw [arenaFull, decide_eq_false_iff_not, Nat.not_lt] at hdone
  exact ⟨hslots, hroom, hR2, hdone⟩

/-- **Insert**: a whole body that fits becomes the only one cached for its object; the other slots
are as before, or gone. -/
theorem cacheInsert_spec (h : CacheOk cache) (id : ObjectId) (version : UInt64)
    (hwhole : Whole bytes) (hfits : CacheFits cache bytes) :
    ∃ offset cache', cacheInsert cache id version bytes = (some offset, cache') ∧
      Inserted cache id version bytes offset cache' := by
  have hpos : bytes.length ≠ 0 := by
    unfold Whole objectHeaderSize at hwhole
    omega
  have hmem : ∀ c, Shrinks (cacheRemoveObject cache id) c → ∀ slot ∈ c.slots, slot.id ≠ id := by
    intro c hc slot hslot
    obtain ⟨slot', hslot', hid, -⟩ := hc.slots slot hslot
    rw [hid]
    exact (cacheRemoveObject_spec h id).2 slot' hslot'
  have hremove := (cacheRemoveObject_spec h id).1
  obtain ⟨-, -, hshrinks, hroom⟩ := cacheMakeRoom_spec (cacheSpan bytes.length)
    (fun c hc => hc.trans (Shrinks.evict hc.ok))
    (fun c hc => ⟨hc.ok.tiled, (hremove.trans hc).length_arena.symm ▸ hfits⟩)
    (Shrinks.refl hremove.ok)
  have hins := Inserted.of_append hroom hshrinks.ok (hmem _ hshrinks) version hwhole
  have hall := hremove.trans hshrinks
  refine ⟨_, _, cacheInsert_eq cache id version hpos hfits, hins.ok,
    hins.length_arena.trans hall.length_arena, hins.view, ?_⟩
  intro slot' hslot'
  rcases hins.slots slot' hslot' with hnew | ⟨hid, slot3, hslot3, hid3, hversion3, hview3⟩
  · exact Or.inl hnew
  · obtain ⟨slot, hslot, hid0, hversion0, hview0⟩ := hall.slots slot3 hslot3
    exact Or.inr ⟨hid, slot, hslot, hid3.trans hid0, hversion3.trans hversion0,
      hview3.trans hview0⟩

/-! ### Lookup -/

/-- What a cache depends on of a slot. -/
def ObjectCacheSlot.key (slot : ObjectCacheSlot) : ObjectId × UInt64 × Span :=
  (slot.id, slot.version, slot.span)

theorem keys_cacheTouch (cache : ObjectCache) (index : Nat) :
    (cacheTouch cache index).slots.map ObjectCacheSlot.key =
      cache.slots.map ObjectCacheSlot.key := by
  refine List.ext_getElem? fun i => ?_
  rw [List.getElem?_map, List.getElem?_map, cacheTouch, List.getElem?_modify]
  split_ifs
  · cases cache.slots[i]? <;> rfl
  · cases cache.slots[i]? <;> rfl

theorem CacheTiled.touch (h : CacheTiled cache) (index : Nat) :
    CacheTiled (cacheTouch cache index) := by
  have hspans := congrArg (List.map fun k => k.2.2) (keys_cacheTouch cache index)
  have hids := congrArg (List.map Prod.fst) (keys_cacheTouch cache index)
  rw [List.map_map, List.map_map] at hspans hids
  have hpairwise := List.pairwise_map.mpr h.ids
  exact ⟨h.used_le, hspans ▸ h.packed, List.pairwise_map.mp (hids ▸ hpairwise)⟩

/-- **Touch**: the slots show the same objects. -/
theorem cacheTouch_spec (h : CacheOk cache) (index : Nat) :
    Shrinks cache (cacheTouch cache index) := by
  have htiled := h.tiled.touch index
  have hmem : ∀ slot' ∈ (cacheTouch cache index).slots, ∃ slot ∈ cache.slots,
      slot.key = slot'.key := by
    intro slot' hslot'
    have := List.mem_map_of_mem (f := ObjectCacheSlot.key) hslot'
    rw [keys_cacheTouch] at this
    exact List.mem_map.mp this
  refine ⟨⟨htiled.used_le, htiled.packed, htiled.ids, ?_⟩, rfl, ?_⟩
  · intro slot' hslot'
    obtain ⟨slot, hslot, hkey⟩ := hmem slot' hslot'
    have hspan : slot.span = slot'.span := congrArg (fun k => k.2.2) hkey
    rw [← hspan]
    exact h.whole slot hslot
  · intro slot' hslot'
    obtain ⟨slot, hslot, hkey⟩ := hmem slot' hslot'
    have hoffset : slot.offset = slot'.offset := congrArg (fun k => k.2.2.offset) hkey
    refine ⟨slot, hslot, (congrArg Prod.fst hkey).symm, (congrArg (fun k => k.2.1) hkey).symm, ?_⟩
    rw [slotView, slotView, hoffset]
    rfl

/-- **Lookup**: the slot found is the one for the identifier and the version. -/
theorem cacheFind_some {index : Nat} (h : cacheFind cache id version = some index) :
    ∃ slot ∈ cache.slots, cache.slots.getD index default = slot ∧ slot.id = id ∧
      slot.version = version := by
  obtain ⟨hi, hslot, -⟩ := List.findIdx?_eq_some_iff_getElem.mp h
  simp only [Bool.and_eq_true, decide_eq_true_eq, objectIdEqual_iff] at hslot
  refine ⟨_, List.getElem_mem hi, ?_, hslot.2, hslot.1⟩
  rw [List.getD_eq_getElem?_getD, List.getElem?_eq_getElem hi, Option.getD_some]

theorem cacheFind_none (h : cacheFind cache id version = none) :
    ∀ slot ∈ cache.slots, slot.id = id → slot.version ≠ version := by
  intro slot hslot hid hversion
  have := List.findIdx?_eq_none_iff.mp h slot hslot
  rw [(objectIdEqual_iff _ _).mpr hid, decide_eq_true hversion] at this
  cases this

end Jani
