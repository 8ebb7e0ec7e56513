import Mathlib.Data.UInt

/-!
# Object identifiers (`object_id.c`)

An object is named by two 64-bit words.  `objectIdCompare` orders identifiers by the high word,
then the low word; `ObjectId.key` is the 128-bit number this order compares.
-/

namespace Jani

structure ObjectId where
  high : UInt64
  low : UInt64
deriving DecidableEq, Repr, Inhabited

def objectIdIsZero (id : ObjectId) : Bool := id.high = 0 ∧ id.low = 0

def objectIdEqual (left right : ObjectId) : Bool := left.high = right.high ∧ left.low = right.low

/-- `.lt`, `.gt` and `.eq` stand for the results `-1`, `1` and `0`. -/
def objectIdCompare (left right : ObjectId) : Ordering :=
  if left.high < right.high then .lt
  else if left.high > right.high then .gt
  else if left.low < right.low then .lt
  else if left.low > right.low then .gt
  else .eq

/-- The identifier as one 128-bit number. -/
def ObjectId.key (id : ObjectId) : Nat := id.high.toNat * 2 ^ 64 + id.low.toNat

namespace ObjectId

@[ext]
theorem ext {a b : ObjectId} (hh : a.high = b.high) (hl : a.low = b.low) : a = b := by
  cases a; cases b; cases hh; cases hl; rfl

theorem key_injective {a b : ObjectId} (h : a.key = b.key) : a = b := by
  have ha := a.low.toNat_lt
  have hb := b.low.toNat_lt
  unfold key at h
  apply ext
  · apply UInt64.toNat_inj.mp; omega
  · apply UInt64.toNat_inj.mp; omega

end ObjectId

@[simp]
theorem objectIdIsZero_iff (id : ObjectId) : objectIdIsZero id = true ↔ id = ⟨0, 0⟩ := by
  rw [objectIdIsZero, decide_eq_true_eq]
  exact ⟨fun h => ObjectId.ext h.1 h.2, fun h => by rw [h]; exact ⟨rfl, rfl⟩⟩

@[simp]
theorem objectIdEqual_iff (a b : ObjectId) : objectIdEqual a b = true ↔ a = b := by
  rw [objectIdEqual, decide_eq_true_eq]
  exact ⟨fun h => ObjectId.ext h.1 h.2, fun h => by rw [h]; exact ⟨rfl, rfl⟩⟩

theorem objectIdCompare_eq (a b : ObjectId) : objectIdCompare a b = compare a.key b.key := by
  have ha := a.low.toNat_lt
  have hb := b.low.toNat_lt
  unfold objectIdCompare
  split_ifs with h1 h2 h3 h4 <;> simp only [gt_iff_lt, UInt64.lt_iff_toNat_lt] at * <;> symm
  · rw [compare_lt_iff_lt]; unfold ObjectId.key; omega
  · rw [compare_gt_iff_gt]; unfold ObjectId.key; omega
  · rw [compare_lt_iff_lt]; unfold ObjectId.key; omega
  · rw [compare_gt_iff_gt]; unfold ObjectId.key; omega
  · rw [compare_eq_iff_eq]; unfold ObjectId.key; omega

end Jani
