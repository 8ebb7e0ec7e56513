import Mathlib.Data.List.TakeDrop
import Mathlib.Data.Set.Lattice

/-!
# Version vectors

Several writers append events to a log each.  A *version vector* counts, for each writer, how many
of its events a reader knows: always the first ones.  Two readers that exchange what they know take
the larger count for each writer, and know the union (`known_max`); equal vectors stand for equal
knowledge, whatever was exchanged and in which order.
-/

namespace Jani

variable {ι ε : Type*}

/-- The events that a vector counts. -/
def known (log : ι → List ε) (v : ι → ℕ) : Set ε := {e | ∃ i, e ∈ (log i).take (v i)}

/-- The events of all logs. -/
def allEvents (log : ι → List ε) : Set ε := {e | ∃ i, e ∈ log i}

theorem known_subset (log : ι → List ε) (v : ι → ℕ) : known log v ⊆ allEvents log :=
  fun _ ⟨i, he⟩ => ⟨i, List.mem_of_mem_take he⟩

theorem known_zero (log : ι → List ε) : known log (fun _ => 0) = ∅ := by
  refine Set.eq_empty_of_forall_notMem fun e ⟨i, he⟩ => ?_
  rw [List.take_zero] at he
  exact List.not_mem_nil he

theorem known_mono {log : ι → List ε} {v v' : ι → ℕ} (h : ∀ i, v i ≤ v' i) :
    known log v ⊆ known log v' :=
  fun _ ⟨i, he⟩ => ⟨i, (List.take_subset_take_left _ (h i)) he⟩

/-- **An exchange** of knowledge. -/
theorem known_max (log : ι → List ε) (v v' : ι → ℕ) :
    known log (fun i => max (v i) (v' i)) = known log v ∪ known log v' := by
  refine Set.Subset.antisymm ?_ (Set.union_subset (known_mono fun i => le_max_left _ _)
    (known_mono fun i => le_max_right _ _))
  rintro e ⟨i, he⟩
  dsimp only at he
  rcases Nat.le_total (v i) (v' i) with hle | hle
  · exact Or.inr ⟨i, by rwa [max_eq_right hle] at he⟩
  · exact Or.inl ⟨i, by rwa [max_eq_left hle] at he⟩

theorem known_of_longer {log log' : ι → List ε} {v : ι → ℕ} (hlog : ∀ i, log i <+: log' i)
    (hv : ∀ i, v i ≤ (log i).length) : known log' v = known log v := by
  have htake : ∀ i, (log' i).take (v i) = (log i).take (v i) := by
    intro i
    obtain ⟨later, heq⟩ := hlog i
    rw [← heq, List.take_append_of_le_length (hv i)]
  unfold known
  simp only [htake]

section Append

variable [DecidableEq ι]

/-- The logs with one more event of a writer. -/
def appendEvent (log : ι → List ε) (i : ι) (e : ε) : ι → List ε :=
  Function.update log i (log i ++ [e])

theorem appendEvent_self (log : ι → List ε) (i : ι) (e : ε) :
    appendEvent log i e i = log i ++ [e] := Function.update_self ..

theorem appendEvent_of_ne (log : ι → List ε) {i j : ι} (h : j ≠ i) (e : ε) :
    appendEvent log i e j = log j := Function.update_of_ne h ..

theorem isPrefix_appendEvent (log : ι → List ε) (i : ι) (e : ε) (j : ι) :
    log j <+: appendEvent log i e j := by
  by_cases h : j = i
  · subst h
    rw [appendEvent_self]
    exact List.prefix_append _ _
  · simp only [appendEvent_of_ne log h, List.prefix_refl]

/-- **A writer** that knows all its events appends one. -/
theorem known_appendEvent {log : ι → List ε} {v v' : ι → ℕ} {i : ι} (e : ε)
    (hfull : v i = (log i).length) (hself : v' i = v i + 1) (hother : ∀ j, j ≠ i → v' j = v j) :
    known (appendEvent log i e) v' = insert e (known log v) := by
  have hown : (appendEvent log i e i).take (v' i) = (log i).take (v i) ++ [e] := by
    rw [appendEvent_self, hself, hfull, List.take_length, List.take_of_length_le]
    simp
  have hrest : ∀ j, j ≠ i → (appendEvent log i e j).take (v' j) = (log j).take (v j) :=
    fun j hj => by rw [appendEvent_of_ne log hj, hother j hj]
  ext x
  constructor
  · rintro ⟨j, hx⟩
    by_cases hj : j = i
    · subst hj
      rw [hown, List.mem_append, List.mem_singleton] at hx
      rcases hx with hx | rfl
      · exact Or.inr ⟨j, hx⟩
      · exact Or.inl rfl
    · exact Or.inr ⟨j, by rwa [hrest j hj] at hx⟩
  · rintro (rfl | ⟨j, hx⟩)
    · exact ⟨i, by rw [hown]; exact List.mem_append_right _ List.mem_cons_self⟩
    · by_cases hj : j = i
      · subst hj
        exact ⟨j, by rw [hown]; exact List.mem_append_left _ hx⟩
      · exact ⟨j, by rwa [hrest j hj]⟩

end Append

end Jani
