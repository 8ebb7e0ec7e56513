import Jani.Obj.ObjectTable

/-!
# The object table is a sorted finite map

`ObjectTable.Sorted` says that the identifiers are strictly ascending, `ObjectTable.lookup` is the
map the entries stand for.  On a sorted table the bisections find what a linear search finds:

* `objectTableFind_eq`: `objectTableFind` is `lookup`;
* `objectTableUpsert_spec`, `objectTableRemove_spec`: the table afterwards is sorted again, and
  its map is the old one with one binding replaced or dropped.
-/

namespace Jani

variable {entries : List ObjectTableEntry} {id : ObjectId} {e : ObjectTableEntry}

namespace ObjectTable

/-- Identifiers strictly ascending. -/
def Sorted (entries : List ObjectTableEntry) : Prop :=
  entries.Pairwise fun a b => a.id.key < b.id.key

/-- The entry for `id`, by linear search. -/
def lookup (entries : List ObjectTableEntry) (id : ObjectId) : Option ObjectTableEntry :=
  entries.find? fun e => decide (e.id = id)

variable {a b : ObjectTableEntry}

theorem Sorted.lt_of_lt (h : Sorted entries) {i j : Nat} (hij : i < j) (ha : entries[i]? = some a)
    (hb : entries[j]? = some b) : a.id.key < b.id.key := by
  obtain ⟨hi, rfl⟩ := List.getElem?_eq_some_iff.mp ha
  obtain ⟨hj, rfl⟩ := List.getElem?_eq_some_iff.mp hb
  exact List.pairwise_iff_getElem.mp h i j hi hj hij

theorem Sorted.le_of_le (h : Sorted entries) {i j : Nat} (hij : i ≤ j) (ha : entries[i]? = some a)
    (hb : entries[j]? = some b) : a.id.key ≤ b.id.key := by
  rcases Nat.lt_or_eq_of_le hij with hlt | rfl
  · exact (h.lt_of_lt hlt ha hb).le
  · rw [ha] at hb
    cases hb
    exact le_rfl

theorem Sorted.eq_of_id_eq (h : Sorted entries) (ha : a ∈ entries) (hb : b ∈ entries)
    (hid : a.id = b.id) : a = b := by
  obtain ⟨i, hi⟩ := List.mem_iff_getElem?.mp ha
  obtain ⟨j, hj⟩ := List.mem_iff_getElem?.mp hb
  have hkey : a.id.key = b.id.key := by rw [hid]
  rcases Nat.lt_trichotomy i j with hij | rfl | hij
  · have := h.lt_of_lt hij hi hj
    omega
  · rw [hi] at hj
    exact Option.some.inj hj
  · have := h.lt_of_lt hij hj hi
    omega

theorem lookup_eq_some_iff (h : Sorted entries) :
    lookup entries id = some e ↔ e ∈ entries ∧ e.id = id := by
  constructor
  · intro hl
    exact ⟨List.mem_of_find?_eq_some hl, by simpa using List.find?_some hl⟩
  · rintro ⟨hmem, rfl⟩
    cases hl : lookup entries e.id with
    | none =>
      have := List.find?_eq_none.mp hl e hmem
      simp at this
    | some e' =>
      have hmem' : e' ∈ entries := List.mem_of_find?_eq_some hl
      have hid' : e'.id = e.id := by simpa using List.find?_some hl
      rw [h.eq_of_id_eq hmem' hmem hid']

theorem lookup_eq_none_iff : lookup entries id = none ↔ ∀ e ∈ entries, e.id ≠ id := by
  rw [lookup, List.find?_eq_none]
  simp

end ObjectTable

open ObjectTable

/-! ### The bisections -/

/-- The loops keep `[0, left)` below `id` and the keys of `[right, count)` in an upper part. -/
structure Brackets (entries : List ObjectTableEntry) (id : ObjectId) (upper : Nat → Prop)
    (left right : Nat) : Prop where
  right_le : right ≤ entries.length
  below : ∀ i e, i < left → entries[i]? = some e → e.id.key < id.key
  above : ∀ i e, right ≤ i → entries[i]? = some e → upper e.id.key

theorem Brackets.init (entries : List ObjectTableEntry) (id : ObjectId) (upper : Nat → Prop) :
    Brackets entries id upper 0 entries.length := by
  refine ⟨le_rfl, fun i e hi => absurd hi (Nat.not_lt_zero i), fun i e hi he => ?_⟩
  rw [List.getElem?_eq_none hi] at he
  cases he

/-- One step of a bisection, by the entry in the middle. -/
theorem Brackets.step (hs : Sorted entries) {upper : Nat → Prop} {left right : Nat}
    (h : Brackets entries id upper left right) (hlt : left < right) :
    ∃ e ∈ entries, entries[left + (right - left) / 2]? = some e ∧
      (e.id.key < id.key → Brackets entries id upper (left + (right - left) / 2 + 1) right) ∧
      ((∀ k, e.id.key ≤ k → upper k) →
        Brackets entries id upper left (left + (right - left) / 2)) := by
  have hle := h.right_le
  have hmid : left + (right - left) / 2 < entries.length := by omega
  generalize left + (right - left) / 2 = middle at *
  have hget : entries[middle]? = some entries[middle] := List.getElem?_eq_getElem hmid
  refine ⟨_, List.getElem_mem hmid, hget, fun hlow => ?_, fun hhigh => ?_⟩
  · refine ⟨hle, fun i e hi he => ?_, h.above⟩
    exact lt_of_le_of_lt (hs.le_of_le (Nat.le_of_lt_succ hi) he hget) hlow
  · exact ⟨Nat.le_of_lt hmid, h.below, fun i e hi he => hhigh _ (hs.le_of_le hi hget he)⟩

/-- The bisection ends where the entries turn from smaller to not smaller. -/
theorem objectTablePosition_spec (hs : Sorted entries) (id : ObjectId) :
    ∀ (fuel left right : Nat), Brackets entries id (id.key ≤ ·) left right → left ≤ right →
      right - left ≤ fuel → Brackets entries id (id.key ≤ ·)
        (objectTablePosition entries id fuel left right)
        (objectTablePosition entries id fuel left right) := by
  intro fuel
  induction fuel with
  | zero =>
    intro left right h hle hfuel
    obtain rfl : left = right := by omega
    exact h
  | succ fuel ih =>
    intro left right h hle hfuel
    rw [objectTablePosition]
    by_cases hlt : left < right
    · obtain ⟨e, -, he, hraise, hlower⟩ := h.step hs hlt
      rw [if_pos hlt]
      dsimp only
      rw [he]
      dsimp only
      rw [objectIdCompare_eq]
      cases hc : compare e.id.key id.key with
      | lt => exact ih _ _ (hraise (compare_lt_iff_lt.mp hc)) (by omega) (by omega)
      | eq =>
        rw [compare_eq_iff_eq] at hc
        exact ih _ _ (hlower fun k hk => hc ▸ hk) (by omega) (by omega)
      | gt =>
        rw [compare_gt_iff_gt] at hc
        exact ih _ _ (hlower fun k hk => hc.le.trans hk) (by omega) (by omega)
    · rw [if_neg hlt]
      obtain rfl : left = right := by omega
      exact h

theorem objectTablePosition_split (hs : Sorted entries) (id : ObjectId) :
    let p := objectTablePosition entries id entries.length 0 entries.length
    p ≤ entries.length ∧ (∀ e ∈ entries.take p, e.id.key < id.key) ∧
      ∀ e ∈ entries.drop p, id.key ≤ e.id.key := by
  intro p
  obtain ⟨hp, hlo, hhi⟩ := objectTablePosition_spec hs id entries.length 0 entries.length
    (.init entries id _) (Nat.zero_le _) (Nat.sub_le _ _)
  refine ⟨hp, ?_, ?_⟩
  · intro e he
    obtain ⟨i, hi⟩ := List.mem_iff_getElem?.mp he
    rw [List.getElem?_take] at hi
    split_ifs at hi with hip
    exact hlo i e hip hi
  · intro e he
    obtain ⟨i, hi⟩ := List.mem_iff_getElem?.mp he
    rw [List.getElem?_drop] at hi
    exact hhi _ e (Nat.le_add_right _ _) hi

/-- The bisection finds the entry of the identifier, if there is one. -/
theorem objectTableFindLoop_eq (hs : Sorted entries) (id : ObjectId) :
    ∀ (fuel left right : Nat), Brackets entries id (id.key < ·) left right → left ≤ right →
      right - left ≤ fuel → objectTableFindLoop entries id fuel left right = lookup entries id := by
  -- an empty interval leaves no entry with this identifier
  have hempty : ∀ left, Brackets entries id (id.key < ·) left left → none = lookup entries id := by
    intro left h
    rw [eq_comm, lookup_eq_none_iff]
    rintro e he rfl
    obtain ⟨i, hi⟩ := List.mem_iff_getElem?.mp he
    rcases Nat.lt_or_ge i left with hlt | hge
    · exact absurd (h.below i e hlt hi) (lt_irrefl _)
    · exact absurd (h.above i e hge hi) (lt_irrefl _)
  intro fuel
  induction fuel with
  | zero =>
    intro left right h hle hfuel
    obtain rfl : left = right := by omega
    exact hempty left h
  | succ fuel ih =>
    intro left right h hle hfuel
    rw [objectTableFindLoop]
    by_cases hlt : left < right
    · obtain ⟨e, hmem, he, hraise, hlower⟩ := h.step hs hlt
      rw [if_pos hlt]
      dsimp only
      rw [he]
      dsimp only
      rw [objectIdCompare_eq]
      cases hc : compare e.id.key id.key with
      | lt => exact ih _ _ (hraise (compare_lt_iff_lt.mp hc)) (by omega) (by omega)
      | eq =>
        rw [compare_eq_iff_eq] at hc
        exact ((lookup_eq_some_iff hs).mpr ⟨hmem, ObjectId.key_injective hc⟩).symm
      | gt =>
        rw [compare_gt_iff_gt] at hc
        exact ih _ _ (hlower fun k hk => lt_of_lt_of_le hc hk) (by omega) (by omega)
    · rw [if_neg hlt]
      obtain rfl : left = right := by omega
      exact hempty left h

variable {table : ObjectTable}

/-- **Search**: on a sorted table within its capacity, `objectTableFind` is the lookup. -/
theorem objectTableFind_eq (hs : Sorted table.entries) (hcap : table.count ≤ table.capacity.toNat)
    (hid : id ≠ ⟨0, 0⟩) : objectTableFind table id = lookup table.entries id := by
  rw [objectTableFind, if_neg (by
    rw [not_or, objectIdIsZero_iff]
    exact ⟨by omega, hid⟩)]
  exact objectTableFindLoop_eq hs id _ 0 _ (.init _ id _) (Nat.zero_le _) (Nat.sub_le _ _)

/-! ### Updates -/

/-- The shape of a successful upsert: the new entry stands between the smaller and the larger
identifiers, in the place of an older version of the object if there was one. -/
structure UpsertShape (table table' : ObjectTable) (entry : ObjectTableEntry)
    (l old r : List ObjectTableEntry) : Prop where
  before : table.entries = l ++ old ++ r
  after : table' = { table with entries := l ++ entry :: r }
  old_older : ∀ e ∈ old, e.id = entry.id ∧ e.version < entry.version
  left_lt : ∀ e ∈ l, e.id.key < entry.id.key
  lt_right : ∀ e ∈ r, entry.id.key < e.id.key
  fits : (l ++ entry :: r).length ≤ table.capacity.toNat
  id_ne : entry.id ≠ ⟨0, 0⟩
  version_ne : entry.version ≠ 0
  firstSector_ne : entry.firstSector ≠ 0
  sectorCount_ne : entry.sectorCount ≠ 0

/-- What is left of a sorted table after the position of an entry with identifier `id`. -/
theorem drop_succ_gt (hs : Sorted entries) {p : Nat} (hp : entries[p]? = some e) :
    ∀ a ∈ entries.drop (p + 1), e.id.key < a.id.key := by
  intro a ha
  obtain ⟨i, hi⟩ := List.mem_iff_getElem?.mp ha
  rw [List.getElem?_drop] at hi
  exact hs.lt_of_lt (by omega) hp hi

theorem take_append_get_drop {p : Nat} (hp : entries[p]? = some e) :
    entries = entries.take p ++ [e] ++ entries.drop (p + 1) := by
  obtain ⟨hlt, rfl⟩ := List.getElem?_eq_some_iff.mp hp
  rw [List.append_assoc, List.singleton_append, List.getElem_cons_drop, List.take_append_drop]

variable {table' : ObjectTable}

/-- An upsert replaces or inserts one entry at its place in the order. -/
theorem objectTableUpsert_shape {entry : ObjectTableEntry} (hs : Sorted table.entries)
    (h : objectTableUpsert table entry = some table') :
    ∃ l old r, UpsertShape table table' entry l old r := by
  unfold objectTableUpsert at h
  split at h
  · cases h
  rename_i hguard
  simp only [not_or, objectIdIsZero_iff, not_lt, gt_iff_lt, count] at hguard
  obtain ⟨hcount, hid, hversion, hfirst, hsectors⟩ := hguard
  obtain ⟨hp, hlo, hhi⟩ := objectTablePosition_split hs entry.id
  dsimp only [count] at h
  generalize objectTablePosition table.entries entry.id table.entries.length 0
    table.entries.length = p at *
  -- the two places from which the entry is inserted at `p`
  have hinsert : (∀ e ∈ table.entries.drop p, entry.id.key < e.id.key) →
      objectTableInsertAt table p entry = some table' →
      ∃ l old r, UpsertShape table table' entry l old r := by
    intro hgt hins
    unfold objectTableInsertAt at hins
    split_ifs at hins with hfull
    refine ⟨table.entries.take p, [], table.entries.drop p, ?_, (Option.some.inj hins).symm,
      by simp, hlo, hgt, ?_, hid, hversion, hfirst, hsectors⟩
    · rw [List.append_nil, List.take_append_drop]
    · simp only [List.length_append, List.length_take, List.length_cons, List.length_drop]
      unfold count at hfull
      omega
  cases hget : table.entries[p]? with
  | none =>
    rw [hget] at h
    refine hinsert ?_ h
    rw [List.drop_eq_nil_of_le (List.getElem?_eq_none_iff.mp hget)]
    simp
  | some existing =>
    rw [hget] at h
    dsimp only at h
    have hmem : existing ∈ table.entries.drop p := by
      refine List.mem_iff_getElem?.mpr ⟨0, ?_⟩
      rw [List.getElem?_drop, Nat.add_zero, hget]
    split_ifs at h with heq hver
    · rw [objectIdEqual_iff] at heq
      obtain ⟨hlt, -⟩ := List.getElem?_eq_some_iff.mp hget
      refine ⟨table.entries.take p, [existing], table.entries.drop (p + 1),
        take_append_get_drop hget, ?_, ?_, hlo, ?_, ?_, hid, hversion, hfirst, hsectors⟩
      · rw [← Option.some.inj h, List.set_eq_take_append_cons_drop, if_pos hlt]
      · intro e he
        rw [List.mem_singleton.mp he]
        exact ⟨heq, UInt64.not_le.mp hver⟩
      · rw [← heq]
        exact drop_succ_gt hs hget
      · simp only [List.length_append, List.length_take, List.length_cons, List.length_drop]
        omega
    · refine hinsert ?_ h
      have hne : entry.id.key ≠ existing.id.key := by
        intro hkey
        rw [objectIdEqual_iff] at heq
        exact heq (ObjectId.key_injective hkey.symm)
      have hlt : entry.id.key < existing.id.key := lt_of_le_of_ne (hhi existing hmem) hne
      intro e he
      obtain ⟨i, hi⟩ := List.mem_iff_getElem?.mp he
      rw [List.getElem?_drop] at hi
      exact lt_of_lt_of_le hlt (hs.le_of_le (Nat.le_add_right p i) hget hi)

namespace UpsertShape

variable {table table' : ObjectTable} {entry : ObjectTableEntry}
  {l old r : List ObjectTableEntry}

theorem sorted (h : UpsertShape table table' entry l old r) (hs : Sorted table.entries) :
    Sorted table'.entries := by
  rw [h.before, Sorted, List.pairwise_append, List.pairwise_append] at hs
  obtain ⟨⟨hl, -, -⟩, hr, hlr⟩ := hs
  rw [h.after, Sorted, List.pairwise_append, List.pairwise_cons]
  refine ⟨hl, ⟨h.lt_right, hr⟩, ?_⟩
  intro a ha b hb
  rcases List.mem_cons.mp hb with rfl | hb
  · exact h.left_lt a ha
  · exact hlr a (List.mem_append_left _ ha) b hb

theorem mem_iff (h : UpsertShape table table' entry l old r) (e : ObjectTableEntry) :
    e ∈ table'.entries ↔ e = entry ∨ (e ∈ table.entries ∧ e.id ≠ entry.id) := by
  have hl : e ∈ l → e.id ≠ entry.id := by
    intro he heq
    have := h.left_lt e he
    rw [heq] at this
    exact lt_irrefl _ this
  have hr : e ∈ r → e.id ≠ entry.id := by
    intro he heq
    have := h.lt_right e he
    rw [heq] at this
    exact lt_irrefl _ this
  have hold : e ∈ old → e.id = entry.id := fun he => (h.old_older e he).1
  rw [h.after, h.before]
  simp only [List.mem_append, List.mem_cons]
  tauto

end UpsertShape

/-- **Upsert**: a successful upsert keeps the table sorted and within its capacity, and replaces
one binding of the map. -/
theorem objectTableUpsert_spec {entry : ObjectTableEntry} (hs : Sorted table.entries)
    (h : objectTableUpsert table entry = some table') :
    Sorted table'.entries ∧ table'.capacity = table.capacity ∧
      table'.count ≤ table.capacity.toNat ∧
      (∀ e, e ∈ table'.entries ↔ e = entry ∨ (e ∈ table.entries ∧ e.id ≠ entry.id)) := by
  obtain ⟨l, old, r, hsh⟩ := objectTableUpsert_shape hs h
  refine ⟨hsh.sorted hs, by rw [hsh.after], ?_, hsh.mem_iff⟩
  rw [hsh.after]
  exact hsh.fits

/-- **Remove**: a successful removal keeps the table sorted and drops one binding of the map. -/
theorem objectTableRemove_spec (hs : Sorted table.entries)
    (h : objectTableRemove table id = some table') :
    Sorted table'.entries ∧ table'.capacity = table.capacity ∧
      table'.count + 1 = table.count ∧ table.count ≤ table.capacity.toNat ∧
      (∀ e, e ∈ table'.entries ↔ e ∈ table.entries ∧ e.id ≠ id) := by
  unfold objectTableRemove at h
  split_ifs at h with hguard
  simp only [not_or, not_lt, gt_iff_lt] at hguard
  obtain ⟨hp, hlo, -⟩ := objectTablePosition_split hs id
  dsimp only [count] at h ⊢
  generalize objectTablePosition table.entries id table.entries.length 0
    table.entries.length = p at *
  cases hget : table.entries[p]? with
  | none =>
    rw [hget] at h
    cases h
  | some existing =>
    rw [hget] at h
    dsimp only at h
    split_ifs at h with heq
    rw [objectIdEqual_iff] at heq
    subst heq
    have hsplit := take_append_get_drop hget
    have hgt := drop_succ_gt hs hget
    generalize table.entries.take p = l at *
    generalize table.entries.drop (p + 1) = r at *
    rw [← Option.some.inj h, hsplit]
    have hs' : Sorted (l ++ [existing] ++ r) := hsplit ▸ hs
    refine ⟨?_, rfl, by simp; omega, ?_, ?_⟩
    · rw [Sorted, List.pairwise_append] at hs' ⊢
      rw [List.pairwise_append] at hs'
      exact ⟨hs'.1.1, hs'.2.1, fun a ha => hs'.2.2 a (List.mem_append_left _ ha)⟩
    · rw [← hsplit]
      exact hguard.1
    · intro e
      have hl : e ∈ l → e.id ≠ existing.id := by
        intro he heq
        have := hlo e he
        rw [heq] at this
        exact lt_irrefl _ this
      have hr : e ∈ r → e.id ≠ existing.id := by
        intro he heq
        have := hgt e he
        rw [heq] at this
        exact lt_irrefl _ this
      have hx : e = existing → e.id = existing.id := congrArg _
      simp only [List.mem_append, List.mem_singleton]
      tauto

end Jani
