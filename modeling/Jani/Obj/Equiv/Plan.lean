import Jani.Obj.Equiv.Layout

/-!
# What a put or a delete does before it writes

A put checks its requests, builds the candidate table with placeholder sectors
(`stageRequests_spec`), and allocates an extent for every object, filling in the sectors
(`allocateStaged_spec`).  The extents are disjoint and were free before; giving them back restores
the marks (`bitmapTest_rejected`).  `TablePlan` collects what is known when the first write is
issued.
-/

namespace Jani

open ObjectTable (Sorted)

/-! ### Sizes -/

theorem sectorsFor_eq (k : Nat) : sectorsFor k = (k + 511) / 512 := by
  unfold sectorsFor objectStoreSectorSize
  split_ifs with h <;> omega

theorem length_objectSectors (bytes : List UInt8) :
    (objectSectors bytes).length = sectorsFor bytes.length := by
  rw [objectSectors, List.length_map, List.length_range, sectorsFor_eq]

@[simp]
theorem length_putBytes (request : ObjectStorePutRequest) (version : UInt64) :
    (putBytes request version).length = objectHeaderSize + request.payload.length := by
  rw [putBytes, List.length_append, ObjectHeader.length_bytes]

/-! ### Staging -/

/-- What staging has checked and computed for one request. -/
structure StagedOk (store : ObjectStore) (s : ObjectStoreStagedPut) : Prop where
  id_ne : s.request.id ≠ ⟨0, 0⟩
  typeId_ne : s.request.typeId ≠ ⟨0, 0⟩
  fits : objectHeaderSize + s.request.payload.length ≤ store.cacheCapacity.toNat
  version_eq : s.version = nextVersion store s.request.id
  version_ne : s.version ≠ 0
  byteCount_eq : s.objectByteCount = objectHeaderSize + s.request.payload.length
  sectorCount_eq : s.sectorCount = UInt64.ofNat (sectorsFor s.objectByteCount)
  sectorCount_ne : s.sectorCount ≠ 0

theorem sectorsFor_toNat {byteCount : Nat} (h : byteCount < 2 ^ 64) :
    (UInt64.ofNat (sectorsFor byteCount)).toNat = sectorsFor byteCount := by
  have hle : sectorsFor byteCount < 2 ^ 64 := by
    rw [sectorsFor_eq]
    omega
  exact UInt64.toNat_ofNat_of_lt' hle

variable {store : ObjectStore} {s : ObjectStoreStagedPut} {candidate : ObjectTable}
variable {staged : List ObjectStoreStagedPut}

theorem StagedOk.sectorCount_toNat (h : StagedOk store s) :
    s.sectorCount.toNat = sectorsFor s.objectByteCount := by
  have hcap := store.cacheCapacity.toNat_lt
  have hfits := h.fits
  rw [h.sectorCount_eq, sectorsFor_toNat (by rw [h.byteCount_eq]; omega)]

/-- The entry of a staged object. -/
def ObjectStoreStagedPut.entry (s : ObjectStoreStagedPut) : ObjectTableEntry :=
  ⟨s.request.id, s.version, s.firstSector, s.sectorCount⟩

/-- The entry staging makes for it, with the placeholder sector. -/
def ObjectStoreStagedPut.placeholder (s : ObjectStoreStagedPut) : ObjectTableEntry :=
  ⟨s.request.id, s.version, objectStoreFirstAllocatableSector, s.sectorCount⟩

theorem stageRequest_spec {earlier : List ObjectStorePutRequest} {candidate' : ObjectTable}
    {request : ObjectStorePutRequest}
    (h : stageRequest store earlier candidate request = some (s, candidate')) :
    StagedOk store s ∧ s.request = request ∧ (∀ e ∈ earlier, e.id ≠ request.id) ∧
      objectTableUpsert candidate s.placeholder = some candidate' := by
  unfold stageRequest at h
  dsimp only at h
  split_ifs at h with hbad hzero
  simp only [not_or, Bool.not_eq_true', Bool.not_eq_false, Bool.not_eq_true] at hbad hzero
  obtain ⟨hvalid, hdup⟩ := hbad
  split at h
  · cases h
  rename_i c hup
  obtain ⟨rfl, rfl⟩ := Prod.mk.inj (Option.some.inj h)
  rw [objectStorePutRequestIsValid, decide_eq_true_eq] at hvalid
  simp only [not_or, objectIdIsZero_iff, not_lt, gt_iff_lt] at hvalid
  obtain ⟨hid, htype, hcap, hlen⟩ := hvalid
  refine ⟨⟨hid, htype, ?_, rfl, hzero.2, rfl, rfl, hzero.1⟩, rfl, ?_, hup⟩
  · dsimp only
    omega
  · intro e he heq
    have := List.any_eq_false.mp hdup e he
    rw [objectIdEqual_iff] at this
    exact this heq

/-- The candidate table after staging `staged` on top of the table `old`. -/
structure StagedTable (old : ObjectTable) (staged : List ObjectStoreStagedPut)
    (candidate : ObjectTable) : Prop where
  sorted : Sorted candidate.entries
  capacity : candidate.capacity = old.capacity
  count : staged ≠ [] → candidate.count ≤ old.capacity.toNat
  mem_iff : ∀ e, e ∈ candidate.entries ↔ (∃ s ∈ staged, e = s.placeholder) ∨
    (e ∈ old.entries ∧ ∀ s ∈ staged, e.id ≠ s.request.id)

/-- One more placeholder in front of a staged table. -/
theorem StagedTable.cons {old mid : ObjectTable} (hsorted : Sorted old.entries)
    (hup : objectTableUpsert old s.placeholder = some mid)
    (hne : ∀ r ∈ staged, r.request.id ≠ s.request.id) (h : StagedTable mid staged candidate) :
    StagedTable old (s :: staged) candidate := by
  obtain ⟨_, hcap, hcount, hmem⟩ := objectTableUpsert_spec hsorted hup
  refine ⟨h.sorted, by rw [h.capacity, hcap], ?_, ?_⟩
  · intro _
    by_cases hnil : staged = []
    · -- nothing was staged after `s`, and `candidate` has the entries of `mid`
      subst hnil
      have hperm : candidate.entries.Perm mid.entries := by
        have hnd : ∀ l : List ObjectTableEntry, Sorted l → l.Nodup := by
          intro l hl
          exact hl.imp fun hlt heq => by rw [heq] at hlt; exact lt_irrefl _ hlt
        rw [List.perm_ext_iff_of_nodup (hnd _ h.sorted)
          (hnd _ (objectTableUpsert_spec hsorted hup).1)]
        intro e
        rw [h.mem_iff]
        simp
      rw [ObjectTable.count, hperm.length_eq]
      exact hcount
    · rw [← hcap]
      exact h.count hnil
  · intro e
    rw [h.mem_iff, hmem]
    simp only [List.mem_cons, forall_eq_or_imp, exists_eq_or_imp]
    constructor
    · rintro (h1 | ⟨rfl | ⟨h1, h2⟩, h3⟩)
      · exact Or.inl (Or.inr h1)
      · exact Or.inl (Or.inl rfl)
      · exact Or.inr ⟨h1, h2, h3⟩
    · rintro ((rfl | h1) | ⟨h1, h2, h3⟩)
      · exact Or.inr ⟨Or.inl rfl, fun r hr heq => hne r hr heq.symm⟩
      · exact Or.inl h1
      · exact Or.inr ⟨Or.inr ⟨h1, h2⟩, h3⟩

/-- What a staged batch is: checked requests, apart, with a placeholder each. -/
theorem stageRequests_spec {store : ObjectStore} : ∀ (requests earlier : List ObjectStorePutRequest)
    (old candidate : ObjectTable) (staged : List ObjectStoreStagedPut), Sorted old.entries →
    stageRequests store earlier requests old = some (staged, candidate) →
      (∀ s ∈ staged, StagedOk store s) ∧ staged.map (·.request) = requests ∧
        staged.Pairwise (fun s t => s.request.id ≠ t.request.id) ∧
        (∀ e ∈ earlier, ∀ r ∈ requests, e.id ≠ r.id) ∧ StagedTable old staged candidate
  | [], earlier, old, candidate, staged, hsorted, h => by
    obtain ⟨rfl, rfl⟩ := Prod.mk.inj (Option.some.inj h)
    exact ⟨by simp, rfl, List.Pairwise.nil, by simp, hsorted, rfl, by simp, by simp⟩
  | request :: requests, earlier, old, candidate, staged, hsorted, h => by
    rw [stageRequests] at h
    cases hone : stageRequest store earlier old request with
    | none =>
      rw [hone] at h
      cases h
    | some sc =>
      obtain ⟨s, mid⟩ := sc
      rw [hone] at h
      dsimp only at h
      cases hrest : stageRequests store (earlier ++ [request]) requests mid with
      | none =>
        rw [hrest] at h
        cases h
      | some rc =>
        obtain ⟨rest, last⟩ := rc
        rw [hrest] at h
        obtain ⟨rfl, rfl⟩ := Prod.mk.inj (Option.some.inj h)
        obtain ⟨hok, rfl, hearlier, hup⟩ := stageRequest_spec hone
        obtain ⟨hoks, hmap, hpair, hdup, htable⟩ :=
          stageRequests_spec requests (earlier ++ [s.request]) mid last rest
            (objectTableUpsert_spec hsorted hup).1 hrest
        have hne : ∀ r ∈ rest, s.request.id ≠ r.request.id := by
          intro r hr
          apply hdup s.request (by simp) r.request
          rw [← hmap]
          exact List.mem_map_of_mem hr
        refine ⟨?_, by rw [List.map_cons, hmap], List.pairwise_cons.mpr ⟨hne, hpair⟩, ?_,
          StagedTable.cons hsorted hup (fun r hr => (hne r hr).symm) htable⟩
        · intro r hr
          rcases List.mem_cons.mp hr with rfl | hr
          · exact hok
          · exact hoks r hr
        · intro e he r hr
          rcases List.mem_cons.mp hr with rfl | hr
          · exact hearlier e he
          · exact hdup e (List.mem_append_left _ he) r hr

/-! ### Allocation -/

/-- `e` with the sector filled in, if it is the entry of `id`. -/
def placeEntry (id : ObjectId) (firstSector : UInt64) (e : ObjectTableEntry) : ObjectTableEntry :=
  if e.id = id then { e with firstSector := firstSector } else e

@[simp]
theorem placeEntry_id (id : ObjectId) (firstSector : UInt64) (e : ObjectTableEntry) :
    (placeEntry id firstSector e).id = e.id := by
  unfold placeEntry
  split_ifs <;> rfl

variable {firstSector nextSector : UInt64} {id : ObjectId} {bitmap : List UInt8}

theorem placeEntry_of_ne {e : ObjectTableEntry} (h : e.id ≠ id) :
    placeEntry id firstSector e = e := if_neg h

theorem placeEntry_placeholder (s : ObjectStoreStagedPut) (firstSector : UInt64) :
    placeEntry s.request.id firstSector s.placeholder =
      { s with firstSector := firstSector : ObjectStoreStagedPut }.entry := if_pos rfl

theorem setFirstSector_eq {id : ObjectId} {firstSector : UInt64} :
    ∀ (entries : List ObjectTableEntry), Sorted entries → (∃ e ∈ entries, e.id = id) →
      setFirstSector id firstSector entries = some (entries.map (placeEntry id firstSector))
  | [], _, h => by simp at h
  | e :: es, hsorted, h => by
    obtain ⟨hfirst, hsorted'⟩ := List.pairwise_cons.mp hsorted
    rw [setFirstSector]
    by_cases heq : e.id = id
    · -- the entries behind have larger identifiers and stay
      have hrest : es.map (placeEntry id firstSector) = es := by
        conv_rhs => rw [← List.map_id es]
        apply List.map_congr_left
        intro a ha
        have hlt := hfirst a ha
        apply placeEntry_of_ne
        intro hid
        rw [hid, heq] at hlt
        exact lt_irrefl _ hlt
      rw [if_pos (by rw [objectIdEqual_iff]; exact heq), List.map_cons, hrest, placeEntry,
        if_pos heq]
    · obtain ⟨a, ha, hid⟩ := h
      have ha' : a ∈ es := by
        rcases List.mem_cons.mp ha with rfl | ha
        · exact absurd hid heq
        · exact ha
      rw [if_neg (by rw [objectIdEqual_iff]; exact heq),
        setFirstSector_eq es hsorted' ⟨a, ha', hid⟩, List.map_cons, placeEntry_of_ne heq]
      rfl

theorem sorted_map_placeEntry {entries : List ObjectTableEntry} (h : Sorted entries) :
    Sorted (entries.map (placeEntry id firstSector)) := by
  rw [Sorted, List.pairwise_map]
  simp only [placeEntry_id]
  exact h

/-- The candidate table when the objects `done` have their extents and `todo` do not. -/
structure PlacedTable (old : ObjectTable) (done todo : List ObjectStoreStagedPut)
    (candidate : ObjectTable) : Prop where
  sorted : Sorted candidate.entries
  capacity : candidate.capacity = old.capacity
  count : candidate.count ≤ old.capacity.toNat
  distinct : (done ++ todo).Pairwise fun s t => s.request.id ≠ t.request.id
  mem_iff : ∀ e, e ∈ candidate.entries ↔ (∃ s ∈ done, e = s.entry) ∨
    (∃ s ∈ todo, e = s.placeholder) ∨ (e ∈ old.entries ∧ ∀ s ∈ done ++ todo, e.id ≠ s.request.id)

/-- Placing the next staged object keeps the table in step. -/
theorem PlacedTable.place {old : ObjectTable} {done todo : List ObjectStoreStagedPut}
    (firstSector : UInt64) (h : PlacedTable old done (s :: todo) candidate) :
    setFirstSector s.request.id firstSector candidate.entries =
        some (candidate.entries.map (placeEntry s.request.id firstSector)) ∧
      PlacedTable old (done ++ [{ s with firstSector := firstSector }]) todo
        { candidate with
          entries := candidate.entries.map (placeEntry s.request.id firstSector) } := by
  have hplaceholder : s.placeholder ∈ candidate.entries :=
    (h.mem_iff _).mpr (Or.inr (Or.inl ⟨s, List.mem_cons_self, rfl⟩))
  -- the only entry with this identifier is the placeholder
  have honly : ∀ e ∈ candidate.entries, e.id = s.request.id → e = s.placeholder := by
    intro e he hid
    exact h.sorted.eq_of_id_eq he hplaceholder hid
  have hdist := h.distinct
  rw [List.pairwise_append, List.pairwise_cons] at hdist
  obtain ⟨hdone, ⟨hs, htodo⟩, hcross⟩ := hdist
  have hcross_s : ∀ r ∈ done, r.request.id ≠ s.request.id :=
    fun r hr => hcross r hr s List.mem_cons_self
  refine ⟨setFirstSector_eq _ h.sorted ⟨_, hplaceholder, rfl⟩,
    sorted_map_placeEntry h.sorted, h.capacity, ?_, ?_, ?_⟩
  · have := h.count
    simpa [ObjectTable.count] using this
  · rw [List.append_assoc, List.singleton_append, List.pairwise_append, List.pairwise_cons]
    refine ⟨hdone, ⟨hs, htodo⟩, ?_⟩
    intro r hr t ht
    rcases List.mem_cons.mp ht with rfl | ht
    · exact hcross_s r hr
    · exact hcross r hr t (List.mem_cons_of_mem _ ht)
  · intro e
    rw [List.mem_map]
    constructor
    · rintro ⟨a, ha, rfl⟩
      by_cases hid : a.id = s.request.id
      · left
        refine ⟨{ s with firstSector := firstSector }, by simp, ?_⟩
        rw [honly a ha hid, placeEntry_placeholder]
      · rw [placeEntry_of_ne hid]
        rcases (h.mem_iff a).mp ha with ⟨r, hr, rfl⟩ | ⟨r, hr, rfl⟩ | ⟨hold, hne⟩
        · exact Or.inl ⟨r, List.mem_append_left _ hr, rfl⟩
        · rcases List.mem_cons.mp hr with rfl | hr
          · exact absurd rfl hid
          · exact Or.inr (Or.inl ⟨r, hr, rfl⟩)
        · refine Or.inr (Or.inr ⟨hold, ?_⟩)
          intro r hr
          rw [List.append_assoc, List.singleton_append, List.mem_append, List.mem_cons] at hr
          rcases hr with hr | rfl | hr
          · exact hne r (List.mem_append_left _ hr)
          · exact hid
          · exact hne r (List.mem_append_right _ (List.mem_cons_of_mem _ hr))
    · rintro (⟨r, hr, rfl⟩ | ⟨r, hr, rfl⟩ | ⟨hold, hne⟩)
      · rcases List.mem_append.mp hr with hr | hr
        · exact ⟨r.entry, (h.mem_iff _).mpr (Or.inl ⟨r, hr, rfl⟩),
            placeEntry_of_ne (hcross_s r hr)⟩
        · rw [List.mem_singleton.mp hr]
          exact ⟨s.placeholder, hplaceholder, placeEntry_placeholder s firstSector⟩
      · exact ⟨r.placeholder,
          (h.mem_iff _).mpr (Or.inr (Or.inl ⟨r, List.mem_cons_of_mem _ hr, rfl⟩)),
          placeEntry_of_ne fun hid => hs r hr hid.symm⟩
      · refine ⟨e, (h.mem_iff _).mpr (Or.inr (Or.inr ⟨hold, ?_⟩)), ?_⟩
        · intro r hr
          rw [List.mem_append, List.mem_cons] at hr
          rcases hr with hr | rfl | hr
          · exact hne r (by simp [hr])
          · exact hne { r with firstSector := firstSector } (by simp)
          · exact hne r (by simp [hr])
        · apply placeEntry_of_ne
          exact hne { s with firstSector := firstSector } (by simp)

/-- What the allocations made so far guarantee, relative to the bitmap and the end of the used
area before the put. -/
structure Placed (n : UInt64) (bitmap : List UInt8) (nextSector : UInt64) (a : PutAllocation) :
    Prop where
  length_eq : a.bitmap.length = bitmap.length
  marks : ∀ t, bitmapTest n a.bitmap t = true ↔ bitmapTest n bitmap t = true ∨
    ∃ s ∈ a.staged, InExtent s.firstSector s.sectorCount t
  allocated : ∀ s ∈ a.staged, Allocated n bitmap s.sectorCount s.firstSector
  disjoint : a.staged.Pairwise fun s r =>
    ∀ t, InExtent s.firstSector s.sectorCount t → ¬ InExtent r.firstSector r.sectorCount t
  ends : ∀ s ∈ a.staged, s.firstSector.toNat + s.sectorCount.toNat ≤ a.nextSector.toNat
  next_le : nextSector.toNat ≤ a.nextSector.toNat
  next_in : nextSector.toNat ≤ n.toNat → a.nextSector.toNat ≤ n.toNat

theorem extendNextSector_toNat {count : UInt64} (h : firstSector.toNat + count.toNat < 2 ^ 64) :
    (extendNextSector nextSector firstSector count).toNat =
      max nextSector.toNat (firstSector.toNat + count.toNat) := by
  have hadd : (firstSector + count).toNat = firstSector.toNat + count.toNat := by
    rw [UInt64.toNat_add, Nat.mod_eq_of_lt h]
  unfold extendNextSector
  split_ifs with hlt
  · have := UInt64.lt_iff_toNat_lt.mp hlt
    omega
  · have := UInt64.le_iff_toNat_le.mp (UInt64.not_lt.mp hlt)
    omega

/-- One more allocation: the new extent avoids the marked sectors and the earlier extents. -/
theorem Placed.allocate {n : UInt64} {bitmap' : List UInt8} {a : PutAllocation}
    (hfit : BitmapFits n bitmap) (h : Placed n bitmap nextSector a) {count : UInt64}
    (halloc : bitmapAllocate n a.bitmap count = some (firstSector, bitmap')) :
    Allocated n bitmap count firstSector ∧
      (∀ s ∈ a.staged, ∀ t, InExtent s.firstSector s.sectorCount t →
        ¬ InExtent firstSector count t) ∧
      bitmap'.length = bitmap.length ∧
      (∀ t, bitmapTest n bitmap' t = true ↔
        (bitmapTest n bitmap t = true ∨ ∃ s ∈ a.staged, InExtent s.firstSector s.sectorCount t) ∨
          InExtent firstSector count t) ∧
      (extendNextSector a.nextSector firstSector count).toNat =
        max a.nextSector.toNat (firstSector.toNat + count.toNat) := by
  obtain ⟨hal, rfl⟩ := bitmapAllocate_spec halloc
  have hfit' : BitmapFits n a.bitmap := by rw [BitmapFits, h.length_eq]; exact hfit
  have hn := n.toNat_lt
  have hlast := hal.last
  refine ⟨⟨hal.first, hal.last, hal.pos, ?_⟩, ?_, ?_, ?_, extendNextSector_toNat (by omega)⟩
  · intro t ht
    have hfree := hal.free t ht
    rw [Bool.eq_false_iff, Ne, h.marks, not_or] at hfree
    exact Bool.eq_false_iff.mpr hfree.1
  · intro s hs t hst ht
    have hfree := hal.free t ht
    rw [Bool.eq_false_iff, Ne, h.marks, not_or] at hfree
    exact hfree.2 ⟨s, hs, hst⟩
  · rw [length_bitmapSetRange, h.length_eq]
  · intro t
    rw [bitmapTest_bitmapSetRange hfit', h.marks]

/-- The staged put without its extent. -/
def ObjectStoreStagedPut.unplaced (s : ObjectStoreStagedPut) : ObjectStoreStagedPut :=
  { s with firstSector := 0 }

theorem StagedOk.of_unplaced {r : ObjectStoreStagedPut} (h : StagedOk store s)
    (heq : s.unplaced = r.unplaced) : StagedOk store r := by
  obtain ⟨request, firstSector, sectorCount, version, byteCount⟩ := s
  obtain ⟨request', firstSector', sectorCount', version', byteCount'⟩ := r
  simp only [ObjectStoreStagedPut.unplaced, ObjectStoreStagedPut.mk.injEq] at heq
  obtain ⟨rfl, -, rfl, rfl, rfl⟩ := heq
  exact ⟨h.id_ne, h.typeId_ne, h.fits, h.version_eq, h.version_ne, h.byteCount_eq,
    h.sectorCount_eq, h.sectorCount_ne⟩

/-- **The allocation loop**: the extents are free, disjoint and inside the device; if the loop
completes, the candidate table points to them. -/
theorem allocateStaged_spec {n : UInt64} {bitmap : List UInt8} {nextSector : UInt64}
    {old : ObjectTable} (hfit : BitmapFits n bitmap) :
    ∀ (todo : List ObjectStoreStagedPut) (a : PutAllocation), Placed n bitmap nextSector a →
      PlacedTable old a.staged todo a.candidate →
      Placed n bitmap nextSector (allocateStaged n todo a).2 ∧
        ((allocateStaged n todo a).1 = true →
          PlacedTable old (allocateStaged n todo a).2.staged []
            (allocateStaged n todo a).2.candidate ∧
          (allocateStaged n todo a).2.staged.map (·.unplaced) =
            (a.staged ++ todo).map (·.unplaced))
  | [], a, hplaced, htable => ⟨hplaced, fun _ => ⟨htable, by simp [allocateStaged]⟩⟩
  | s :: todo, a, hplaced, htable => by
    rw [allocateStaged]
    cases halloc : bitmapAllocate n a.bitmap s.sectorCount with
    | none => exact ⟨hplaced, fun h => by cases h⟩
    | some fb =>
      obtain ⟨firstSector, bitmap'⟩ := fb
      obtain ⟨hal, hdisj, hlen, hmarks, hnext⟩ := hplaced.allocate hfit halloc
      obtain ⟨hset, htable'⟩ := htable.place firstSector
      have hn := n.toNat_lt
      have hlast := hal.last
      have hmax : ¬ firstSector > 0xFFFFFFFFFFFFFFFF - s.sectorCount := by
        rw [gt_iff_lt, UInt64.lt_iff_toNat_lt, UInt64.toNat_sub]
        simp only [UInt64.reduceToNat]
        omega
      dsimp only
      rw [if_neg hmax, hset]
      dsimp only
      have hplaced' : Placed n bitmap nextSector
          ⟨bitmap', extendNextSector a.nextSector firstSector s.sectorCount,
            { a.candidate with
              entries := a.candidate.entries.map (placeEntry s.request.id firstSector) },
            a.staged ++ [{ s with firstSector := firstSector }]⟩ := by
        refine ⟨hlen, ?_, ?_, ?_, ?_, ?_, ?_⟩
        · intro t
          rw [hmarks]
          simp only [List.mem_append, List.mem_singleton, or_and_right, exists_or,
            exists_eq_left, or_assoc]
        · intro r hr
          rcases List.mem_append.mp hr with hr | hr
          · exact hplaced.allocated r hr
          · rw [List.mem_singleton.mp hr]
            exact hal
        · rw [List.pairwise_append]
          refine ⟨hplaced.disjoint, List.pairwise_singleton _ _, ?_⟩
          intro r hr t ht
          rw [List.mem_singleton.mp ht]
          exact hdisj r hr
        · intro r hr
          rw [hnext]
          rcases List.mem_append.mp hr with hr | hr
          · exact le_max_of_le_left (hplaced.ends r hr)
          · rw [List.mem_singleton.mp hr]
            exact le_max_right _ _
        · rw [hnext]
          exact le_max_of_le_left hplaced.next_le
        · intro hin
          rw [hnext]
          exact max_le (hplaced.next_in hin) hal.last
      obtain ⟨hres, hok⟩ := allocateStaged_spec hfit todo _ hplaced' htable'
      refine ⟨hres, fun h => ⟨(hok h).1, ?_⟩⟩
      rw [(hok h).2]
      simp [ObjectStoreStagedPut.unplaced]

/-! ### Giving the extents back -/

theorem foldl_clear_length {n : UInt64} (ranges : List (UInt64 × UInt64)) : ∀ bitmap : List UInt8,
      (ranges.foldl (fun b r => bitmapClearRange n b r.1 r.2) bitmap).length = bitmap.length := by
  induction ranges with
  | nil => intro bitmap; rfl
  | cons r ranges ih =>
    intro bitmap
    rw [List.foldl_cons, ih, length_bitmapClearRange]

theorem bitmapTest_foldl_clear {n t : UInt64} (ht : t < n) :
    ∀ (ranges : List (UInt64 × UInt64)) (bitmap : List UInt8), BitmapFits n bitmap →
      (bitmapTest n (ranges.foldl (fun b r => bitmapClearRange n b r.1 r.2) bitmap) t = true ↔
        bitmapTest n bitmap t = true ∧ ∀ r ∈ ranges, ¬ InExtent r.1 r.2 t)
  | [], bitmap, _ => by simp
  | r :: ranges, bitmap, hfit => by
    have hfit' : BitmapFits n (bitmapClearRange n bitmap r.1 r.2) := by
      rw [BitmapFits, length_bitmapClearRange]
      exact hfit
    rw [List.foldl_cons, bitmapTest_foldl_clear ht ranges _ hfit',
      bitmapTest_bitmapClearRange hfit _ _ ht, List.forall_mem_cons, and_assoc]

/-- The ranges that `reject_allocations` frees. -/
def rejectedRanges (staged : List ObjectStoreStagedPut) (table : Option (UInt64 × UInt64)) :
    List (UInt64 × UInt64) :=
  (staged.map fun s => (s.firstSector, s.sectorCount)) ++ table.toList

theorem rejectAllocations_eq (store : ObjectStore) (saved : UInt64)
    (staged : List ObjectStoreStagedPut) (table : Option (UInt64 × UInt64)) :
    rejectAllocations store saved staged table =
      { store with
        bitmap := (rejectedRanges staged table).foldl
          (fun b r => bitmapClearRange store.io.sectorCount b r.1 r.2) store.bitmap
        nextSector := saved } := by
  rw [rejectAllocations, rejectedRanges, List.foldl_append]

/-- **Rejection** restores the marks from before the put, when the extents were allocated from
sectors that were free. -/
theorem bitmapTest_rejected {n : UInt64} {bitmap' : List UInt8} {ranges : List (UInt64 × UInt64)}
    (hfit : BitmapFits n bitmap')
    (hmarks : ∀ t, bitmapTest n bitmap' t = true ↔ bitmapTest n bitmap t = true ∨
      ∃ r ∈ ranges, InExtent r.1 r.2 t)
    (hfree : ∀ r ∈ ranges, ∀ t, InExtent r.1 r.2 t → bitmapTest n bitmap t = false) (t : UInt64) :
    bitmapTest n (ranges.foldl (fun b r => bitmapClearRange n b r.1 r.2) bitmap') t =
      bitmapTest n bitmap t := by
  rcases Nat.lt_or_ge t.toNat n.toNat with ht | ht
  · rw [Bool.eq_iff_iff, bitmapTest_foldl_clear (UInt64.lt_iff_toNat_lt.mpr ht) _ _ hfit, hmarks]
    constructor
    · rintro ⟨h | ⟨r, hr, hin⟩, hout⟩
      · exact h
      · exact absurd hin (hout r hr)
    · intro h
      refine ⟨Or.inl h, fun r hr hin => ?_⟩
      rw [hfree r hr t hin] at h
      cases h
  · have hge := UInt64.le_iff_toNat_le.mpr ht
    rw [bitmapTest_of_ge hge, bitmapTest_of_ge hge]

/-! ### The plan of a put -/

/-- An operation that has passed its checks and got its extents: it will write the objects `staged`
and the table `candidate` at `tableSector`, without the old objects `replaced`, and has marked their
sectors in `bitmap`.  The empty table takes no sector. -/
structure TablePlan (store : ObjectStore) (staged : List ObjectStoreStagedPut)
    (replaced : List ObjectId) (bitmap : List UInt8) (nextSector : UInt64)
    (candidate : ObjectTable) (tableSector : UInt64) : Prop where
  staged_ok : ∀ s ∈ staged, StagedOk store s
  sorted : Sorted candidate.entries
  capacity : candidate.capacity = store.tableCapacity
  count_le : candidate.count ≤ store.tableCapacity.toNat
  mem_iff : ∀ e, e ∈ candidate.entries ↔ (∃ s ∈ staged, e = s.entry) ∨
    (e ∈ store.table.entries ∧ e.id ∉ replaced)
  allocated : ∀ s ∈ staged, Allocated store.io.sectorCount store.bitmap s.sectorCount s.firstSector
  zero : candidate.count = 0 → tableSector = 0
  tableAllocated : candidate.count ≠ 0 →
    Allocated store.io.sectorCount store.bitmap (UInt64.ofNat candidate.count) tableSector
  length_eq : bitmap.length = store.bitmap.length
  marks : ∀ t, bitmapTest store.io.sectorCount bitmap t = true ↔
    bitmapTest store.io.sectorCount store.bitmap t = true ∨
      ∃ r ∈ rejectedRanges staged (some (tableSector, UInt64.ofNat candidate.count)),
        InExtent r.1 r.2 t
  next_le : store.nextSector.toNat ≤ nextSector.toNat
  next_in : store.nextSector.toNat ≤ store.io.sectorCount.toNat →
    nextSector.toNat ≤ store.io.sectorCount.toNat
  ends : ∀ s ∈ staged, s.firstSector.toNat + s.sectorCount.toNat ≤ nextSector.toNat
  tableEnd : candidate.count ≠ 0 → tableSector.toNat + candidate.count ≤ nextSector.toNat

/-- The plan of a put: the extents of its objects and of its table are disjoint. -/
structure PutPlan (store : ObjectStore) (requests : List ObjectStorePutRequest)
    (bitmap : List UInt8) (nextSector : UInt64) (staged : List ObjectStoreStagedPut)
    (candidate : ObjectTable) (tableSector : UInt64) : Prop
    extends TablePlan store staged (requests.map (·.id)) bitmap nextSector candidate
      tableSector where
  nonempty : requests ≠ []
  requests_eq : staged.map (·.request) = requests
  distinct : staged.Pairwise fun s t => s.request.id ≠ t.request.id
  disjoint : staged.Pairwise fun s r =>
    ∀ t, InExtent s.firstSector s.sectorCount t → ¬ InExtent r.firstSector r.sectorCount t
  count_ne : candidate.count ≠ 0
  tableDisjoint : ∀ s ∈ staged, ∀ t, InExtent s.firstSector s.sectorCount t →
    ¬ InExtent tableSector (UInt64.ofNat candidate.count) t

/-- The two stores differ at most in the bytes of the bitmap, not in its marks. -/
structure SameMarks (store store' : ObjectStore) : Prop where
  eq : store' = { store with bitmap := store'.bitmap }
  length_eq : store'.bitmap.length = store.bitmap.length
  marks : ∀ t, bitmapTest store.io.sectorCount store'.bitmap t =
    bitmapTest store.io.sectorCount store.bitmap t

theorem sameMarks_refl (store : ObjectStore) : SameMarks store store := ⟨rfl, rfl, fun _ => rfl⟩

theorem toNat_ofNat_of_le {k : Nat} {c : UInt64} (h : k ≤ c.toNat) : (UInt64.ofNat k).toNat = k :=
  UInt64.toNat_ofNat_of_lt' (lt_of_le_of_lt h c.toNat_lt)

theorem mem_rejectedRanges {table : Option (UInt64 × UInt64)} {r : UInt64 × UInt64} :
    r ∈ rejectedRanges staged table ↔
      (∃ s ∈ staged, r = (s.firstSector, s.sectorCount)) ∨ table = some r := by
  simp only [rejectedRanges, List.mem_append, List.mem_map, Option.mem_toList,
    eq_comm]

theorem exists_mem_rejectedRanges {table : Option (UInt64 × UInt64)} {t : UInt64} :
    (∃ r ∈ rejectedRanges staged table, InExtent r.1 r.2 t) ↔
      (∃ s ∈ staged, InExtent s.firstSector s.sectorCount t) ∨
        ∃ r, table = some r ∧ InExtent r.1 r.2 t := by
  simp only [mem_rejectedRanges]
  constructor
  · rintro ⟨r, ⟨s, hs, rfl⟩ | hr, ht⟩
    · exact Or.inl ⟨s, hs, ht⟩
    · exact Or.inr ⟨r, hr, ht⟩
  · rintro (⟨s, hs, ht⟩ | ⟨r, hr, ht⟩)
    · exact ⟨_, Or.inl ⟨s, hs, rfl⟩, ht⟩
    · exact ⟨r, Or.inr hr, ht⟩

theorem TablePlan.free {replaced : List ObjectId} {tableSector : UInt64}
    (h : TablePlan store staged replaced bitmap nextSector candidate tableSector) :
    ∀ r ∈ rejectedRanges staged (some (tableSector, UInt64.ofNat candidate.count)), ∀ t,
      InExtent r.1 r.2 t → bitmapTest store.io.sectorCount store.bitmap t = false := by
  intro r hr t ht
  rcases mem_rejectedRanges.mp hr with ⟨s, hs, rfl⟩ | hr
  · exact (h.allocated s hs).free t ht
  · rw [← Option.some.inj hr] at ht
    by_cases hzero : candidate.count = 0
    · rw [hzero] at ht
      exact absurd ht (not_inExtent_zero _ _)
    · exact (h.tableAllocated hzero).free t ht

theorem Placed.reject {a : PutAllocation} (hfit : BitmapFits store.io.sectorCount store.bitmap)
    (h : Placed store.io.sectorCount store.bitmap store.nextSector a) :
    SameMarks store (rejectAllocations { store with bitmap := a.bitmap } store.nextSector
      a.staged none) := by
  have hfit' : BitmapFits store.io.sectorCount a.bitmap := by
    rw [BitmapFits, h.length_eq]
    exact hfit
  rw [rejectAllocations_eq]
  refine ⟨rfl, by rw [foldl_clear_length, h.length_eq], ?_⟩
  apply bitmapTest_rejected hfit'
  · intro t
    rw [h.marks, exists_mem_rejectedRanges]
    simp
  · intro r hr t ht
    rcases mem_rejectedRanges.mp hr with ⟨s, hs, rfl⟩ | hr
    · exact (h.allocated s hs).free t ht
    · cases hr

/-- **What a put does before it writes**: it is rejected, or it has a plan. -/
theorem objectStorePutMany_cases (requests : List ObjectStorePutRequest)
    (hfit : BitmapFits store.io.sectorCount store.bitmap) (hsorted : Sorted store.table.entries) :
    (∃ store', SameMarks store store' ∧
      objectStorePutMany store requests = pure (.rejected, store')) ∨
    ∃ bitmap nextSector staged candidate tableSector,
      PutPlan store requests bitmap nextSector staged candidate tableSector ∧
      objectStorePutMany store requests =
        putAllocated { store with bitmap := bitmap, nextSector := nextSector }
          store.nextSector staged candidate tableSector := by
  unfold objectStorePutMany
  split
  · exact Or.inl ⟨store, sameMarks_refl store, rfl⟩
  rename_i hguard
  simp only [not_or, not_not, Bool.not_eq_true, List.length_eq_zero_iff] at hguard
  obtain ⟨hne, -, -, -, -, hcap⟩ := hguard
  cases hstage : stageRequests store [] requests store.table with
  | none => exact Or.inl ⟨store, sameMarks_refl store, rfl⟩
  | some sc =>
    obtain ⟨todo, candidate0⟩ := sc
    obtain ⟨hoks, hmap, hdistinct, -, hst⟩ :=
      stageRequests_spec requests [] store.table candidate0 todo hsorted hstage
    have htodo : todo ≠ [] := by
      rintro rfl
      exact hne (by rw [← hmap]; rfl)
    have hplaced : Placed store.io.sectorCount store.bitmap store.nextSector
        ⟨store.bitmap, store.nextSector, candidate0, []⟩ :=
      ⟨rfl, by simp, by simp, List.Pairwise.nil, by simp, le_rfl, id⟩
    have htable : PlacedTable store.table [] todo candidate0 :=
      ⟨hst.sorted, hst.capacity, hst.count htodo, hdistinct, by simpa using hst.mem_iff⟩
    obtain ⟨hres, hok⟩ := allocateStaged_spec hfit todo _ hplaced htable
    dsimp only
    rcases halloc : allocateStaged store.io.sectorCount todo
        ⟨store.bitmap, store.nextSector, candidate0, []⟩ with ⟨ok, a⟩
    rw [halloc] at hres hok
    cases ok with
    | false => exact Or.inl ⟨_, hres.reject hfit, rfl⟩
    | true =>
      obtain ⟨htab, hunplaced⟩ := hok rfl
      rw [List.nil_append] at hunplaced
      dsimp only
      cases htalloc : bitmapAllocate store.io.sectorCount a.bitmap
          (UInt64.ofNat a.candidate.count) with
      | none => exact Or.inl ⟨_, hres.reject hfit, rfl⟩
      | some tb =>
        obtain ⟨tableSector, bitmap⟩ := tb
        obtain ⟨hal, hdisj, hlen, hmarks, hnext⟩ := hres.allocate hfit htalloc
        have hn := store.io.sectorCount.toNat_lt
        have hlast := hal.last
        have hmax : ¬ tableSector > 0xFFFFFFFFFFFFFFFF - UInt64.ofNat a.candidate.count := by
          rw [gt_iff_lt, UInt64.lt_iff_toNat_lt, UInt64.toNat_sub]
          simp only [UInt64.reduceToNat]
          omega
        dsimp only
        rw [if_neg hmax]
        refine Or.inr ⟨bitmap, _, a.staged, a.candidate, tableSector, ?_, rfl⟩
        have hcount : (UInt64.ofNat a.candidate.count).toNat = a.candidate.count :=
          toNat_ofNat_of_le htab.count
        have hrequests : a.staged.map (·.request) = requests := by
          have := congrArg (List.map (·.request)) hunplaced
          rw [List.map_map, List.map_map] at this
          exact this.trans hmap
        have hcountNe : a.candidate.count ≠ 0 := by
          have hpos := hal.pos
          omega
        refine ⟨⟨?_, htab.sorted, htab.capacity.trans hcap, hcap ▸ htab.count, ?_,
          hres.allocated, fun h => absurd h hcountNe, fun _ => hal, hlen, ?_, ?_, ?_, ?_, ?_⟩,
          hne, hrequests, ?_, hres.disjoint, hcountNe, hdisj⟩
        · intro s hs
          have hs' := List.mem_map_of_mem (f := ObjectStoreStagedPut.unplaced) hs
          rw [hunplaced, List.mem_map] at hs'
          obtain ⟨r, hr, hrs⟩ := hs'
          exact (hoks r hr).of_unplaced hrs
        · intro e
          rw [htab.mem_iff, ← hrequests]
          simp [eq_comm]
        · intro t
          rw [hmarks, exists_mem_rejectedRanges, or_assoc]
          simp
        · rw [hnext]
          exact le_max_of_le_left hres.next_le
        · intro hin
          rw [hnext]
          exact max_le (hres.next_in hin) hal.last
        · intro s hs
          rw [hnext]
          exact le_max_of_le_left (hres.ends s hs)
        · intro _
          rw [hnext, hcount]
          exact le_max_right _ _
        · have := htab.distinct
          rwa [List.append_nil] at this

/-! ### The plan of a delete -/

/-- **What a delete does before it writes**: it fails, or it has a plan. -/
theorem objectStoreDelete_cases (id : ObjectId)
    (hfit : BitmapFits store.io.sectorCount store.bitmap) (hsorted : Sorted store.table.entries) :
    objectStoreDelete store id = pure (false, store) ∨
    ∃ bitmap nextSector candidate tableSector,
      TablePlan store [] [id] bitmap nextSector candidate tableSector ∧
      objectStoreDelete store id =
        deleteAllocated { store with bitmap := bitmap, nextSector := nextSector } id candidate
          tableSector := by
  unfold objectStoreDelete
  split
  · exact Or.inl rfl
  split
  · exact Or.inl rfl
  rename_i existing hfind
  cases hremove : objectTableRemove { store.table with capacity := store.tableCapacity } id with
  | none => exact Or.inl rfl
  | some candidate =>
    have hsorted' : Sorted
        ({ store.table with capacity := store.tableCapacity } : ObjectTable).entries := hsorted
    obtain ⟨hs, hcap, hcount, hle, hmem⟩ := objectTableRemove_spec hsorted' hremove
    dsimp only at hcap hcount hle hmem ⊢
    have hle' : candidate.count ≤ store.tableCapacity.toNat := by omega
    have hmem' : ∀ e, e ∈ candidate.entries ↔ (∃ s ∈ ([] : List ObjectStoreStagedPut),
        e = s.entry) ∨ (e ∈ store.table.entries ∧ e.id ∉ [id]) := fun e => by
      rw [hmem]
      simp
    by_cases hzero : candidate.count = 0
    · rw [if_pos hzero]
      refine Or.inr ⟨store.bitmap, store.nextSector, candidate, 0, ?_, rfl⟩
      refine ⟨by simp, hs, hcap, hle', hmem', by simp, fun _ => rfl, fun h => absurd hzero h, rfl,
        fun t => ?_, le_rfl, fun h => h, by simp, fun h => absurd hzero h⟩
      rw [exists_mem_rejectedRanges, hzero]
      simp [not_inExtent_zero]
    · rw [if_neg hzero]
      cases halloc : bitmapAllocate store.io.sectorCount store.bitmap
          (UInt64.ofNat candidate.count) with
      | none => exact Or.inl rfl
      | some tb =>
        obtain ⟨tableSector, bitmap⟩ := tb
        obtain ⟨hal, rfl⟩ := bitmapAllocate_spec halloc
        have hn := store.io.sectorCount.toNat_lt
        have hlast := hal.last
        have hnext : (extendNextSector store.nextSector tableSector
            (UInt64.ofNat candidate.count)).toNat = _ := extendNextSector_toNat (by omega)
        refine Or.inr ⟨_, _, candidate, tableSector, ?_, rfl⟩
        refine ⟨by simp, hs, hcap, hle', hmem', by simp, fun h => absurd h hzero, fun _ => hal,
          length_bitmapSetRange _ _ _, fun t => ?_, ?_, ?_, by simp, ?_⟩
        · rw [bitmapTest_bitmapSetRange hfit, exists_mem_rejectedRanges]
          simp
        · rw [hnext]
          exact le_max_left _ _
        · intro hin
          rw [hnext]
          exact max_le hin hal.last
        · intro _
          rw [hnext, toNat_ofNat_of_le hle']
          exact le_max_right _ _

end Jani
