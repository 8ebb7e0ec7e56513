import Mathlib.Data.List.Rotate

/-!
# Round robin

A ring of turns is a list whose head is the turn at hand; a turn that has been looked at goes to
the end.  `serve` turns the ring until it finds a turn that is due.  The turns that are due behave
as a queue: serving takes its head and puts it back at its end (`serve_queue`), so as many calls as
there are turns due serve each of them once, in the order of the ring (`serves_eq`).
-/

namespace Jani

variable {α : Type*}

/-- Looks at no more than `fuel` turns of the ring and serves the first that is due. -/
def serve (due : α → Bool) : (fuel : Nat) → List α → Option α × List α
  | 0, ring => (none, ring)
  | _ + 1, [] => (none, [])
  | fuel + 1, turn :: ring =>
    if due turn then (some turn, ring ++ [turn]) else serve due fuel (ring ++ [turn])

/-- What a number of calls serve, one after the other. -/
def serves (due : α → Bool) (fuel : Nat) : (calls : Nat) → List α → List (Option α)
  | 0, _ => []
  | calls + 1, ring => (serve due fuel ring).1 :: serves due fuel calls (serve due fuel ring).2

variable {due : α → Bool}

/-- The turns before the first that is due are passed over. -/
theorem serve_skip {turn : α} (hdue : due turn = true) : ∀ {skipped : List α} {fuel : Nat}
    (ring : List α), (∀ t ∈ skipped, due t = false) → skipped.length < fuel →
      serve due fuel (skipped ++ turn :: ring) = (some turn, ring ++ (skipped ++ [turn]))
  | _, 0, _, _, hfuel => absurd hfuel (Nat.not_lt_zero _)
  | [], fuel + 1, ring, _, _ => by
    change (if due turn then _ else _) = _
    rw [if_pos hdue]
    rfl
  | t :: skipped, fuel + 1, ring, hskipped, hfuel => by
    change (if due t then _ else serve due fuel ((skipped ++ turn :: ring) ++ [t])) = _
    rw [if_neg (by rw [hskipped t List.mem_cons_self]; exact Bool.false_ne_true),
      List.append_assoc, List.cons_append,
      serve_skip hdue (ring ++ [t]) (fun t' ht' => hskipped t' (List.mem_cons_of_mem t ht'))
        (Nat.lt_of_succ_lt_succ hfuel)]
    simp

/-- **A call** takes the head of the queue of turns due and puts it back at its end. -/
theorem serve_queue {ring queue : List α} {turn : α} {fuel : Nat}
    (hqueue : ring.filter due = turn :: queue) (hfuel : ring.length ≤ fuel) :
    (serve due fuel ring).1 = some turn ∧
      (serve due fuel ring).2.filter due = queue ++ [turn] ∧
      (serve due fuel ring).2.length = ring.length := by
  obtain ⟨skipped, rest, rfl, hskipped, hdue, hrest⟩ := List.filter_eq_cons_iff.mp hqueue
  have hskipped : ∀ t ∈ skipped, due t = false := fun t ht => by simpa using hskipped t ht
  have hnone : skipped.filter due = [] :=
    List.filter_eq_nil_iff.mpr fun t ht => by rw [hskipped t ht]; exact Bool.false_ne_true
  rw [serve_skip hdue rest hskipped (by rw [List.length_append, List.length_cons] at hfuel; omega)]
  refine ⟨rfl, ?_, ?_⟩
  · rw [List.filter_append, List.filter_append, hrest, hnone, List.filter_cons_of_pos hdue]
    rfl
  · simp only [List.length_append, List.length_cons, List.length_nil]
    omega

/-- Where a turn is due, a call that looks at the whole ring serves one. -/
theorem serve_none {ring : List α} {fuel : Nat} (hfuel : ring.length ≤ fuel)
    (h : (serve due fuel ring).1 = none) : ring.filter due = [] := by
  cases hqueue : ring.filter due with
  | nil => rfl
  | cons turn queue =>
    rw [(serve_queue hqueue hfuel).1] at h
    cases h

theorem serves_take {fuel : Nat} : ∀ {calls : Nat} {ring : List α},
    calls ≤ (ring.filter due).length → ring.length ≤ fuel →
      serves due fuel calls ring = ((ring.filter due).take calls).map some
  | 0, _, _, _ => rfl
  | calls + 1, ring, hcalls, hfuel => by
    cases hqueue : ring.filter due with
    | nil =>
      rw [hqueue] at hcalls
      exact absurd hcalls (Nat.not_succ_le_zero _)
    | cons turn queue =>
      obtain ⟨hserved, hnext, hlength⟩ := serve_queue hqueue hfuel
      have hle : calls ≤ queue.length := by
        rw [hqueue] at hcalls
        exact Nat.le_of_succ_le_succ hcalls
      -- the turn just served is behind those that follow in these calls
      rw [serves, serves_take (by rw [hnext, List.length_append]; omega) (hlength ▸ hfuel), hserved,
        hnext, List.take_append_of_le_length hle]
      rfl

/-- **As many calls as turns are due** serve each of them once, in the order of the ring. -/
theorem serves_eq {ring : List α} {fuel : Nat} (hfuel : ring.length ≤ fuel) :
    serves due fuel (ring.filter due).length ring = (ring.filter due).map some := by
  rw [serves_take le_rfl hfuel, List.take_length]

end Jani
