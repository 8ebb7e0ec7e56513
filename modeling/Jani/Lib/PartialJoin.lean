import Mathlib.Order.Bounds.Basic

/-!
# Partial joins

A merge of replicas may fail, because two replicas contradict each other or because the result would
be too large.  If it only ever gives the least upper bound, and does not fail on states of which one
is above the other, then the usual laws follow from the order alone: it is commutative and
idempotent, a merge absorbs its arguments, and the two ways to merge three states agree
(`PartialJoin.assoc`).  If a merge fails only where there is no upper bound, both ways also fail
together (`PartialJoin.assoc_isSome`).
-/

namespace Jani

/-- A partial operation that gives least upper bounds. -/
structure PartialJoin {α : Type*} [PartialOrder α] (merge : α → α → Option α) : Prop where
  isLUB : ∀ {a b m}, merge a b = some m → IsLUB {a, b} m
  of_le : ∀ {a b}, b ≤ a → merge a b = some a
  symm : ∀ {a b}, (merge a b).isSome = true → (merge b a).isSome = true

namespace PartialJoin

variable {α : Type*} [PartialOrder α] {merge : α → α → Option α} (h : PartialJoin merge)

include h

theorem left {a b m : α} (hm : merge a b = some m) : a ≤ m := (h.isLUB hm).1 (Or.inl rfl)

theorem right {a b m : α} (hm : merge a b = some m) : b ≤ m := (h.isLUB hm).1 (Or.inr rfl)

theorem least {a b m u : α} (hm : merge a b = some m) (ha : a ≤ u) (hb : b ≤ u) : m ≤ u := by
  refine (h.isLUB hm).2 ?_
  rintro x (rfl | rfl)
  · exact ha
  · exact hb

theorem comm (a b : α) : merge a b = merge b a := by
  cases hab : merge a b with
  | none =>
    cases hba : merge b a with
    | none => rfl
    | some m =>
      have := h.symm (Option.isSome_iff_exists.mpr ⟨m, hba⟩)
      rw [hab] at this
      cases this
  | some m =>
    obtain ⟨m', hm'⟩ := Option.isSome_iff_exists.mp (h.symm (Option.isSome_iff_exists.mpr ⟨m, hab⟩))
    have hpair : IsLUB {a, b} m' := Set.pair_comm b a ▸ h.isLUB hm'
    rw [hm', (h.isLUB hab).unique hpair]

theorem self (a : α) : merge a a = some a := h.of_le le_rfl

theorem absorb {a b m : α} (hm : merge a b = some m) :
    merge m a = some m ∧ merge m b = some m := ⟨h.of_le (h.left hm), h.of_le (h.right hm)⟩

/-- **The two ways to merge three states** do not give two results. -/
theorem assoc {a b c l r : α} (hl : ((merge a b).bind fun m => merge m c) = some l)
    (hr : ((merge b c).bind fun m => merge a m) = some r) : l = r := by
  obtain ⟨m, hm, hl⟩ := Option.bind_eq_some_iff.mp hl
  obtain ⟨n, hn, hr⟩ := Option.bind_eq_some_iff.mp hr
  refine le_antisymm (h.least hl (h.least hm (h.left hr) ?_) ?_) (h.least hr ?_ (h.least hn ?_ ?_))
  · exact (h.left hn).trans (h.right hr)
  · exact (h.right hn).trans (h.right hr)
  · exact (h.left hm).trans (h.left hl)
  · exact (h.right hm).trans (h.left hl)
  · exact h.right hl

/-- Both ways succeed together if a merge fails only where there is no upper bound. -/
theorem assoc_isSome (hbounded : ∀ {a b u : α}, a ≤ u → b ≤ u → (merge a b).isSome = true)
    (a b c : α) : ((merge a b).bind fun m => merge m c).isSome =
      ((merge b c).bind fun m => merge a m).isSome := by
  rw [Bool.eq_iff_iff, Option.isSome_iff_exists, Option.isSome_iff_exists]
  constructor
  · rintro ⟨l, hl⟩
    obtain ⟨m, hm, hl⟩ := Option.bind_eq_some_iff.mp hl
    have ha : a ≤ l := (h.left hm).trans (h.left hl)
    have hb : b ≤ l := (h.right hm).trans (h.left hl)
    obtain ⟨n, hn⟩ := Option.isSome_iff_exists.mp (hbounded hb (h.right hl))
    obtain ⟨r, hr⟩ := Option.isSome_iff_exists.mp (hbounded ha (h.least hn hb (h.right hl)))
    exact ⟨r, Option.bind_eq_some_iff.mpr ⟨n, hn, hr⟩⟩
  · rintro ⟨r, hr⟩
    obtain ⟨n, hn, hr⟩ := Option.bind_eq_some_iff.mp hr
    have hb : b ≤ r := (h.left hn).trans (h.right hr)
    have hc : c ≤ r := (h.right hn).trans (h.right hr)
    obtain ⟨m, hm⟩ := Option.isSome_iff_exists.mp (hbounded (h.left hr) hb)
    obtain ⟨l, hl⟩ := Option.isSome_iff_exists.mp (hbounded (h.least hm (h.left hr) hb) hc)
    exact ⟨l, Option.bind_eq_some_iff.mpr ⟨m, hm, hl⟩⟩

end PartialJoin

end Jani
