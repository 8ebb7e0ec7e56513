import Jani.Lib.Bytes

/-!
# Arrays with an unused tail

A fixed array of `n` entries of which the first ones are in use, the others being zero, is the list
of the entries in use, padded (`pad`).  Writing behind the used entries appends to the list
(`set_pad`), and an array whose tail is zero is the padded list of the entries before it
(`pad_take`).  `flatMap_records` says that an array is stored as the bytes it was read from.
-/

namespace Jani

variable {α : Type*}

/-- The array of `n` entries with the given ones in use. -/
def pad (n : Nat) (zero : α) (used : List α) : List α :=
  used ++ List.replicate (n - used.length) zero

variable {n : Nat} {zero : α} {used : List α}

theorem length_pad (h : used.length ≤ n) : (pad n zero used).length = n := by
  rw [pad, List.length_append, List.length_replicate]
  omega

@[simp] theorem take_pad : (pad n zero used).take used.length = used := List.take_left

@[simp] theorem drop_pad :
    (pad n zero used).drop used.length = List.replicate (n - used.length) zero := List.drop_left

theorem eq_zero_of_mem_drop_pad {a : α} (h : a ∈ (pad n zero used).drop used.length) :
    a = zero := by
  rw [drop_pad] at h
  exact List.eq_of_mem_replicate h

/-- **An array with a zero tail** is the padded list of the entries before it. -/
theorem pad_take {array : List α} {count : Nat} (hlength : array.length = n) (hcount : count ≤ n)
    (htail : ∀ a ∈ array.drop count, a = zero) : pad n zero (array.take count) = array := by
  have hrest : array.drop count = List.replicate (n - count) zero := by
    rw [List.eq_replicate_iff]
    exact ⟨by rw [List.length_drop, hlength], htail⟩
  have hused : (array.take count).length = count := by
    rw [List.length_take]
    omega
  rw [pad, hused, ← hrest, List.take_append_drop]

theorem set_pad (h : used.length < n) (a : α) :
    (pad n zero used).set used.length a = pad n zero (used ++ [a]) := by
  obtain ⟨k, hk⟩ : ∃ k, n - used.length = k + 1 := ⟨n - used.length - 1, by omega⟩
  have hk' : n - (used ++ [a]).length = k := by
    rw [List.length_append, List.length_singleton]
    omega
  rw [pad, pad, hk, hk', List.set_append_right _ _ le_rfl, Nat.sub_self, List.replicate_succ,
    List.set_cons_zero, List.append_assoc, List.singleton_append]

/-! ### Fixed arrays -/

/-- An array of exactly `n` entries. -/
structure FixedArray (α : Type*) (n : Nat) where
  entries : List α
  length_entries : entries.length = n
deriving DecidableEq

namespace FixedArray

@[ext]
theorem ext {a b : FixedArray α n} (h : a.entries = b.entries) : a = b := by
  cases a; cases b; cases h; rfl

/-- The array with the given entries in use (cut at `n` entries). -/
def ofUsed (n : Nat) (zero : α) (used : List α) : FixedArray α n :=
  ⟨(pad n zero used).take n, by simp [pad]; omega⟩

theorem entries_ofUsed (h : used.length ≤ n) : (ofUsed n zero used).entries = pad n zero used := by
  change (pad n zero used).take n = _
  rw [List.take_of_length_le (length_pad h).le]

end FixedArray

/-! ### Stored arrays -/

/-- The records of an array, written one after the other, are the bytes they were read from. -/
theorem flatMap_records {read : List UInt8 → α} {write : α → List UInt8} {k : Nat}
    {l : List UInt8} : ∀ {count : Nat},
      (∀ i < count, write (read (l.drop (k * i))) = (l.drop (k * i)).take k) →
        ((List.range count).map fun i => read (l.drop (k * i))).flatMap write = l.take (k * count)
  | 0, _ => by simp
  | count + 1, hrecord => by
    rw [List.range_succ, List.map_append, List.flatMap_append,
      flatMap_records fun i hi => hrecord i (by omega), List.map_singleton, List.flatMap_singleton,
      hrecord count (by omega), Nat.mul_succ, List.take_add]

end Jani
