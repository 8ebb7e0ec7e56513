import Jani.Sched.Scheduler
import Mathlib.Algebra.BigOperators.Fin
import Mathlib.Algebra.Order.BigOperators.Group.Finset

/-!
# Interactive reservations

The budgets of the interactive components fit in a frame together (`PolicyOk`), in every state that
`scheduler_configure` and `scheduler_step` reach.  That alone keeps the arithmetic of the selection
loop from wrapping around (`selectChecked_eq`).

As long as no handler runs over its budget, and policies change between frames only, also what is
left of a frame covers the unused budgets of the interactive components (`FrameOk`).  A component
that is not interactive is admitted only beside these, and an interactive one uses up what was set
aside for it.
-/

namespace Jani

/-! ### Arithmetic that fails where the machine wraps around -/

def checkedAdd (a b : UInt64) : Option UInt64 :=
  if a.toNat + b.toNat < 2 ^ 64 then some (a + b) else none

def checkedSub (a b : UInt64) : Option UInt64 := if b.toNat ≤ a.toNat then some (a - b) else none

def checkedAdd32 (a b : UInt32) : Option UInt32 :=
  if a.toNat + b.toNat < 2 ^ 32 then some (a + b) else none

def checkedMul32 (a b : UInt32) : Option UInt32 :=
  if a.toNat * b.toNat < 2 ^ 32 then some (a * b) else none

/-- `reservedCycles` with checked operations. -/
def reservedChecked (s : Scheduler) : Option UInt64 :=
  (List.finRange 4).foldlM (fun reserved i =>
    if (s.policies i).interactive ≠ 0 ∧ s.used i < (s.policies i).budgetCycles then
      (checkedSub (s.policies i).budgetCycles (s.used i)).bind (checkedAdd reserved)
    else some reserved) 0

/-- `admitted` with checked operations, each made only where the source makes it. -/
def admittedChecked (s : Scheduler) (now reserved : UInt64) (i : Fin 4) : Option Bool :=
  let p := s.policies i
  if !runnable s.domain.store (s.domain.components i) now ∨ s.used i ≥ p.budgetCycles ∨
      s.consumed ≥ s.frameCycles then some false
  else if p.interactive ≠ 0 then some true
  else (checkedSub s.frameCycles s.consumed).bind fun free =>
    if reserved ≥ free then some false
    else (checkedSub p.budgetCycles (s.used i)).bind fun wanted =>
      (checkedSub free reserved).map fun rest => !decide (wanted > rest)

/-- `candidateScore` with checked operations. -/
def scoreChecked (s : Scheduler) (now : UInt64) (i : Fin 4) : Option UInt64 :=
  let p := s.policies i
  (if now ≥ s.lastRun i then checkedSub now (s.lastRun i) else some 0).bind fun age =>
    (checkedMul32 p.priority 8).bind fun weight =>
      (checkedAdd (if p.interactive ≠ 0 then (1 : UInt64) <<< 63 else 0) weight.toUInt64).bind
        fun score => checkedAdd score (if age > 64 then 64 else age)

/-- `selectRound` with checked operations. -/
def roundChecked (s : Scheduler) (now reserved : UInt64) (best : Option (Fin 4 × UInt64))
    (offset : Nat) : Option (Option (Fin 4 × UInt64)) :=
  (checkedAdd32 s.cursor (UInt32.ofNat offset)).bind fun sum =>
    let i := Fin.ofNat 4 (sum % 4).toNat
    (admittedChecked s now reserved i).bind fun ok =>
      if !ok then some best
      else (scoreChecked s now i).map fun candidate => match best with
        | none => some (i, candidate)
        | some (_, score) => if candidate > score then some (i, candidate) else best

/-- `selectComponent` with checked operations: nothing, if one of them wraps around. -/
def selectChecked (s : Scheduler) (now : UInt64) : Option (Option (Fin 4)) :=
  (reservedChecked s).bind fun reserved =>
    ((List.range 4).foldlM (roundChecked s now reserved) none).map fun best => best.map Prod.fst

variable {a b : UInt64}

theorem checkedAdd_of_lt (h : a.toNat + b.toNat < 2 ^ 64) :
    checkedAdd a b = some (a + b) := if_pos h

theorem checkedSub_of_le (h : b.toNat ≤ a.toNat) : checkedSub a b = some (a - b) := if_pos h

theorem toNat_add_of_lt (h : a.toNat + b.toNat < 2 ^ 64) : (a + b).toNat = a.toNat + b.toNat := by
  rw [UInt64.toNat_add, Nat.mod_eq_of_lt h]

theorem toNat_sub_of_le (h : b.toNat ≤ a.toNat) : (a - b).toNat = a.toNat - b.toNat :=
  UInt64.toNat_sub_of_le _ _ (UInt64.le_iff_toNat_le.mpr h)

/-! ### Budgets that fit in a frame -/

/-- The budget of an interactive component. -/
def reservation (policies : Fin 4 → SchedulerPolicy) (i : Fin 4) : Nat :=
  if (policies i).interactive ≠ 0 then (policies i).budgetCycles.toNat else 0

/-- What an interactive component has left of its budget. -/
def unused (s : Scheduler) (i : Fin 4) : Nat :=
  if (s.policies i).interactive ≠ 0 then (s.policies i).budgetCycles.toNat - (s.used i).toNat else 0

theorem unused_le (s : Scheduler) (i : Fin 4) : unused s i ≤ reservation s.policies i := by
  unfold unused reservation
  split_ifs
  · exact Nat.sub_le _ _
  · exact Nat.le_refl _

/-- What holds in every state a scheduler reaches. -/
structure PolicyOk (s : Scheduler) : Prop where
  fits : ∑ i, reservation s.policies i ≤ s.frameCycles.toNat
  priority : ∀ i, (s.policies i).priority.toNat ≤ 7
  cursor : s.cursor.toNat < 4

variable {s : Scheduler}

theorem PolicyOk.unused_le (hs : PolicyOk s) : ∑ i, unused s i ≤ s.frameCycles.toNat :=
  le_trans (Finset.sum_le_sum fun i _ => Jani.unused_le s i) hs.fits

/-- The check of `scheduler_configure` adds up the reservations without wrapping around. -/
theorem reserveBudgets_eq_some {frameCycles : UInt64} {policies : Fin 4 → SchedulerPolicy} :
    ∀ {l : List (Fin 4)} {reserved total : UInt64}, reserved.toNat ≤ frameCycles.toNat →
      reserveBudgets frameCycles policies l reserved = some total →
      reserved.toNat + (l.map (reservation policies)).sum ≤ frameCycles.toNat
  | [], _, _, hle, _ => by simpa using hle
  | i :: rest, reserved, total, hle, h => by
    unfold reserveBudgets at h
    dsimp only at h
    rw [List.map_cons, List.sum_cons]
    by_cases hi : (policies i).interactive ≠ 0
    · rw [if_pos hi] at h
      split_ifs at h with hfits
      have hcycles := frameCycles.toNat_lt
      have hroom : reserved.toNat + (policies i).budgetCycles.toNat ≤ frameCycles.toNat := by
        rw [gt_iff_lt, UInt64.lt_iff_toNat_lt, toNat_sub_of_le hle] at hfits
        omega
      have hadd := @toNat_add_of_lt reserved (policies i).budgetCycles (by omega)
      have := reserveBudgets_eq_some (by omega) h
      rw [reservation, if_pos hi]
      omega
    · rw [if_neg hi] at h
      have := reserveBudgets_eq_some hle h
      rw [reservation, if_neg hi]
      omega

theorem schedulerConfigure_eq_some {s' : Scheduler} {index : UInt32} {p : SchedulerPolicy}
    (h : schedulerConfigure s index p = some s') :
    p.priority.toNat ≤ 7 ∧ ∃ i, s' = { s with policies := Function.update s.policies i p } ∧
      ∑ j, reservation s'.policies j ≤ s.frameCycles.toNat := by
  unfold schedulerConfigure at h
  split_ifs at h with hrunning hindex hpolicy
  push Not at hpolicy
  obtain ⟨-, hpriority, -⟩ := hpolicy
  obtain ⟨total, htotal, rfl⟩ := Option.map_eq_some_iff.mp h
  have hsum := reserveBudgets_eq_some (Nat.zero_le _) htotal
  refine ⟨UInt32.le_iff_toNat_le.mp (UInt32.not_lt.mp hpriority), ⟨index.toNat, hindex⟩, rfl, ?_⟩
  rw [Fin.sum_univ_def]
  simpa using hsum

/-! ### What a step does to the frame -/

theorem noteWaiting_foldl (now : UInt64) (selected : Option (Fin 4)) :
    ∀ (l : List (Fin 4)) (s : Scheduler),
      ∃ t w, l.foldl (noteWaiting now selected) s = { s with trace := t, waiting := w }
  | [], s => ⟨s.trace, s.waiting, rfl⟩
  | i :: l, s => by
    obtain ⟨t, w, h⟩ : ∃ t w, noteWaiting now selected s i =
        { s with trace := t, waiting := w } := by
      unfold noteWaiting
      split
      · exact ⟨s.trace, s.waiting, rfl⟩
      · split_ifs
        · exact ⟨s.trace, s.waiting, rfl⟩
        all_goals exact ⟨_, _, rfl⟩
    obtain ⟨t', w', h'⟩ := noteWaiting_foldl now selected l (noteWaiting now selected s i)
    refine ⟨t', w', ?_⟩
    rw [List.foldl_cons, h', h]

/-- The accounts after the handler of a component. -/
def charge (s : Scheduler) (i : Fin 4) (now elapsed : UInt64) : Scheduler :=
  { s with
    used := Function.update s.used i (addSaturated (s.used i) elapsed)
    consumed := addSaturated s.consumed elapsed
    lastRun := Function.update s.lastRun i now
    cursor := (UInt32.ofNat i.val + 1) % 4 }

theorem runHandler_eq (s : Scheduler) (i : Fin 4) (c : Component) (now : UInt64)
    (run : HandlerRun) : ∃ d t, (runHandler s i c now run).2 =
      { charge s i now run.elapsed with domain := d, trace := t } := by
  unfold runHandler charge
  dsimp only
  split_ifs
  all_goals exact ⟨_, _, rfl⟩

/-- The component whose handler a step calls. -/
def calledHandler (s : Scheduler) (now : UInt64) (run : HandlerRun) : Option (Fin 4) :=
  if stepRefused s now then none
  else (selectComponent (openFrame s now) now).filter fun i =>
    (s.domain.components i).isSome && run.prepared && (capabilityDomainBegin s.domain).isSome

theorem openFrame_domain (s : Scheduler) (now : UInt64) : (openFrame s now).domain = s.domain := by
  unfold openFrame
  split_ifs <;> rfl

/-- A step is refused, or it opens the frame and calls at most one handler. -/
theorem schedulerStep_cases (s : Scheduler) (now : UInt64) (run : HandlerRun) :
    (stepRefused s now = true ∧ (schedulerStep s now run).2 = s) ∨
    (stepRefused s now = false ∧ ∃ d t w, (schedulerStep s now run).2 =
      { openFrame s now with domain := d, trace := t, waiting := w }) ∨
    (stepRefused s now = false ∧ ∃ i d t w, calledHandler s now run = some i ∧
      selectComponent (openFrame s now) now = some i ∧ (schedulerStep s now run).2 =
        { charge (openFrame s now) i now run.elapsed with
          domain := d, trace := t, waiting := w }) := by
  unfold schedulerStep
  cases hrefused : stepRefused s now with
  | true => exact Or.inl ⟨rfl, rfl⟩
  | false =>
    right
    rw [if_neg Bool.false_ne_true]
    dsimp only
    obtain ⟨t, w, hwaiting⟩ := noteWaiting_foldl now (selectComponent (openFrame s now) now)
      (List.finRange 4) (openFrame s now)
    rw [hwaiting]
    cases hselected : selectComponent (openFrame s now) now with
    | none => exact Or.inl ⟨rfl, _, t, w, rfl⟩
    | some i =>
      dsimp only
      rw [openFrame_domain]
      split
      · exact Or.inl ⟨rfl, _, t, w, rfl⟩
      rename_i c hc
      cases hprepared : run.prepared with
      | false => exact Or.inl ⟨rfl, _, t, w, rfl⟩
      | true =>
        rw [if_neg (by decide)]
        cases hbegin : capabilityDomainBegin s.domain with
        | none => exact Or.inl ⟨rfl, _, t, w, rfl⟩
        | some d =>
          right
          obtain ⟨d', t', hrun⟩ := runHandler_eq
            { openFrame s now with trace := t, waiting := w, domain := d } i c now run
          refine ⟨rfl, i, d', t', w, ?_, rfl, hrun⟩
          unfold calledHandler
          rw [hrefused, hselected, if_neg Bool.false_ne_true, Option.filter_some, hc, hprepared,
            hbegin]
          rfl

/-- **A step runs the handler of the component it selects**, if the step is not refused and the
handler can be started. -/
theorem schedulerStep_selected {s : Scheduler} {now : UInt64} {run : HandlerRun} {j : Fin 4}
    {c : Component} (hselected : selectComponent (openFrame s now) now = some j)
    (hc : s.domain.components j = some c) (hrefused : stepRefused s now = false)
    (hprepared : run.prepared = true) (hbegin : (capabilityDomainBegin s.domain).isSome = true) :
    ∃ started, schedulerStep s now run = runHandler started j c now run := by
  obtain ⟨d, hd⟩ := Option.isSome_iff_exists.mp hbegin
  obtain ⟨t, w, hwaiting⟩ := noteWaiting_foldl now (selectComponent (openFrame s now) now)
    (List.finRange 4) (openFrame s now)
  unfold schedulerStep
  rw [hrefused, if_neg Bool.false_ne_true]
  dsimp only
  rw [hwaiting, hselected]
  dsimp only
  rw [openFrame_domain, hc, hprepared, hd]
  exact ⟨_, rfl⟩

/-! ### Runs -/

/-- What happens to a scheduler: a call of `scheduler_configure` or `scheduler_step`, or any change
that the rest of the kernel makes to the domain and the trace. -/
inductive SchedulerEvent where
  | configure (index : UInt32) (p : SchedulerPolicy)
  | step (now : UInt64) (run : HandlerRun)
  | outside (d : CapabilityDomain) (t : SchedulerTrace)

def SchedulerEvent.apply (s : Scheduler) : SchedulerEvent → Scheduler
  | .configure index p => (schedulerConfigure s index p).getD s
  | .step now run => (schedulerStep s now run).2
  | .outside d t => { s with domain := d, trace := t }

def schedulerRun (s : Scheduler) (events : List SchedulerEvent) : Scheduler :=
  events.foldl SchedulerEvent.apply s

theorem PolicyOk.openFrame {s : Scheduler} (hs : PolicyOk s) (now : UInt64) :
    PolicyOk (openFrame s now) := by
  unfold Jani.openFrame
  split_ifs
  · exact ⟨hs.fits, hs.priority, hs.cursor⟩
  · exact hs

theorem PolicyOk.apply (hs : PolicyOk s) (e : SchedulerEvent) : PolicyOk (e.apply s) := by
  cases e with
  | configure index p =>
    show PolicyOk ((schedulerConfigure s index p).getD s)
    cases h : schedulerConfigure s index p with
    | none => exact hs
    | some s' =>
      obtain ⟨hpriority, i, rfl, hfits⟩ := schedulerConfigure_eq_some h
      refine ⟨hfits, fun j => ?_, hs.cursor⟩
      by_cases hj : j = i
      · subst hj
        simpa using hpriority
      · simpa [Function.update_of_ne hj] using hs.priority j
  | step now run =>
    have hopen := hs.openFrame now
    rcases schedulerStep_cases s now run with ⟨-, h⟩ | ⟨-, d, t, w, h⟩ | ⟨-, i, d, t, w, -, -, h⟩
    · show PolicyOk (schedulerStep s now run).2
      rw [h]
      exact hs
    · show PolicyOk (schedulerStep s now run).2
      rw [h]
      exact ⟨hopen.fits, hopen.priority, hopen.cursor⟩
    · show PolicyOk (schedulerStep s now run).2
      rw [h]
      refine ⟨hopen.fits, hopen.priority, ?_⟩
      show ((UInt32.ofNat i.val + 1) % 4).toNat < 4
      rw [UInt32.toNat_mod]
      exact Nat.mod_lt _ (by decide)
  | outside d t => exact ⟨hs.fits, hs.priority, hs.cursor⟩

theorem PolicyOk.run (hs : PolicyOk s) (events : List SchedulerEvent) :
    PolicyOk (schedulerRun s events) := by
  induction events generalizing s with
  | nil => exact hs
  | cons e events ih => exact ih (hs.apply e)

theorem policyOk_init {domain : CapabilityDomain} {readable : ObjectId → Bool}
    {frameTicks frameCycles : UInt64}
    (h : schedulerInit domain readable frameTicks frameCycles = some s) :
    PolicyOk s ∧ s.consumed = 0 ∧ ∀ i, s.used i = 0 := by
  unfold schedulerInit at h
  split_ifs at h
  obtain ⟨trace, -, rfl⟩ := Option.map_eq_some_iff.mp h
  refine ⟨⟨?_, fun _ => Nat.zero_le _, ?_⟩, rfl, fun _ => rfl⟩
  · simp [reservation]
  · show (0 : UInt32).toNat < 4
    decide

/-! ### The selection loop -/

theorem foldlM_eq_some {α β : Type*} {f : β → α → Option β} {g : β → α → β} :
    ∀ {l : List α} (b : β), (∀ b, ∀ a ∈ l, f b a = some (g b a)) →
      l.foldlM f b = some (l.foldl g b)
  | [], _, _ => rfl
  | a :: l, b, h => by
    rw [List.foldlM_cons, h b a List.mem_cons_self]
    exact foldlM_eq_some (g b a) fun b a ha => h b a (List.mem_cons_of_mem _ ha)

/-- The checked sum of the reservations is the plain one where it fits. -/
theorem reserved_foldl (s : Scheduler) : ∀ (l : List (Fin 4)) (r : UInt64),
    r.toNat + (l.map (unused s)).sum < 2 ^ 64 →
      let add := fun (reserved : UInt64) i =>
        if (s.policies i).interactive ≠ 0 ∧ s.used i < (s.policies i).budgetCycles then
          reserved + ((s.policies i).budgetCycles - s.used i)
        else reserved
      l.foldlM (fun reserved i =>
          if (s.policies i).interactive ≠ 0 ∧ s.used i < (s.policies i).budgetCycles then
            (checkedSub (s.policies i).budgetCycles (s.used i)).bind (checkedAdd reserved)
          else some reserved) r = some (l.foldl add r) ∧
        (l.foldl add r).toNat = r.toNat + (l.map (unused s)).sum
  | [], r, _ => ⟨rfl, by simp⟩
  | i :: l, r, h => by
    rw [List.map_cons, List.sum_cons] at h
    dsimp only
    rw [List.foldlM_cons, List.foldl_cons, List.map_cons, List.sum_cons]
    by_cases hi : (s.policies i).interactive ≠ 0 ∧ s.used i < (s.policies i).budgetCycles
    · have hlt := UInt64.lt_iff_toNat_lt.mp hi.2
      have hsub := toNat_sub_of_le (Nat.le_of_lt hlt)
      have hunused : unused s i = (s.policies i).budgetCycles.toNat - (s.used i).toNat :=
        if_pos hi.1
      have hadd := @toNat_add_of_lt r ((s.policies i).budgetCycles - s.used i) (by omega)
      obtain ⟨hM, hsum⟩ := reserved_foldl s l (r + ((s.policies i).budgetCycles - s.used i))
        (by omega)
      rw [if_pos hi, if_pos hi, checkedSub_of_le (Nat.le_of_lt hlt), Option.bind_some,
        checkedAdd_of_lt (by omega)]
      exact ⟨hM, by rw [hsum]; omega⟩
    · have hunused : unused s i = 0 := by
        unfold unused
        split_ifs with hinteractive
        · have hover : ¬ (s.used i).toNat < (s.policies i).budgetCycles.toNat := fun h =>
            hi ⟨hinteractive, UInt64.lt_iff_toNat_lt.mpr h⟩
          omega
        · rfl
      obtain ⟨hM, hsum⟩ := reserved_foldl s l r (by omega)
      rw [if_neg hi, if_neg hi]
      exact ⟨hM, by rw [hsum]; omega⟩

theorem PolicyOk.reserved (hs : PolicyOk s) :
    reservedChecked s = some (reservedCycles s) ∧ (reservedCycles s).toNat = ∑ i, unused s i := by
  have hle := hs.unused_le
  have hcycles := s.frameCycles.toNat_lt
  rw [Fin.sum_univ_def] at hle ⊢
  obtain ⟨hM, hsum⟩ := reserved_foldl s (List.finRange 4) 0 (by
    have : (0 : UInt64).toNat = 0 := rfl
    omega)
  exact ⟨hM, hsum.trans (Nat.zero_add _)⟩

theorem admittedChecked_eq (s : Scheduler) (now : UInt64) (i : Fin 4) :
    admittedChecked s now (reservedCycles s) i = some (admitted s now i) := by
  unfold admittedChecked admitted
  dsimp only
  by_cases h : !runnable s.domain.store (s.domain.components i) now ∨
      s.used i ≥ (s.policies i).budgetCycles ∨ s.consumed ≥ s.frameCycles
  · rw [if_pos h, if_pos h]
  · rw [if_neg h, if_neg h]
    push Not at h
    obtain ⟨-, hused, hconsumed⟩ := h
    replace hused := UInt64.lt_iff_toNat_lt.mp (UInt64.not_le.mp hused)
    replace hconsumed := UInt64.lt_iff_toNat_lt.mp (UInt64.not_le.mp hconsumed)
    by_cases hinteractive : (s.policies i).interactive = 0
    · rw [if_neg (not_not_intro hinteractive), checkedSub_of_le (Nat.le_of_lt hconsumed),
        Option.bind_some, checkedSub_of_le (Nat.le_of_lt hused), Option.bind_some]
      by_cases hreserved : reservedCycles s ≥ s.frameCycles - s.consumed
      · rw [if_pos hreserved, if_pos ⟨hinteractive, Or.inl hreserved⟩]
      · have hlt := UInt64.lt_iff_toNat_lt.mp (UInt64.not_le.mp hreserved)
        rw [if_neg hreserved, checkedSub_of_le (Nat.le_of_lt hlt), Option.map_some]
        simp only [hinteractive, hreserved, true_and, false_or]
        split_ifs with hwanted
        · rw [decide_eq_true hwanted]
          rfl
        · rw [decide_eq_false hwanted]
          rfl
    · rw [if_pos hinteractive, if_neg fun h => hinteractive h.1]

/-- What a component that waits gains. -/
def waitedScore (s : Scheduler) (now : UInt64) (i : Fin 4) : UInt64 :=
  let age := if now ≥ s.lastRun i then now - s.lastRun i else 0
  if age > 64 then 64 else age

theorem waitedScore_le (s : Scheduler) (now : UInt64) (i : Fin 4) :
    (waitedScore s now i).toNat ≤ 64 := by
  unfold waitedScore
  dsimp only
  generalize (if now ≥ s.lastRun i then now - s.lastRun i else 0) = age
  split_ifs with h
  · decide
  · exact UInt64.le_iff_toNat_le.mp (UInt64.not_lt.mp h)

/-- The part of the score that puts interactive components first. -/
def classScore (p : SchedulerPolicy) : UInt64 :=
  if p.interactive ≠ 0 then (1 : UInt64) <<< 63 else 0

theorem toNat_classScore (p : SchedulerPolicy) :
    (classScore p).toNat = if p.interactive ≠ 0 then 2 ^ 63 else 0 := by
  unfold classScore
  split_ifs
  · decide
  · rfl

/-- The score does not overflow. -/
theorem PolicyOk.score {s : Scheduler} (hs : PolicyOk s) (now : UInt64) (i : Fin 4) :
    scoreChecked s now i = some (candidateScore s now i) ∧
      (candidateScore s now i).toNat = (classScore (s.policies i)).toNat +
        (s.policies i).priority.toNat * 8 + (waitedScore s now i).toNat := by
  have hpriority := hs.priority i
  have hwaited := waitedScore_le s now i
  have hclass : (classScore (s.policies i)).toNat ≤ 2 ^ 63 := by
    rw [toNat_classScore]
    split_ifs <;> omega
  have height : (8 : UInt32).toNat = 8 := rfl
  have hmul : checkedMul32 (s.policies i).priority 8 = some ((s.policies i).priority * 8) :=
    if_pos (by rw [height]; omega)
  have hweight : ((s.policies i).priority * 8).toUInt64.toNat =
      (s.policies i).priority.toNat * 8 := by
    rw [UInt32.toNat_toUInt64, UInt32.toNat_mul, height, Nat.mod_eq_of_lt (by omega)]
  have hsum := @toNat_add_of_lt (classScore (s.policies i))
    ((s.policies i).priority * 8).toUInt64 (by omega)
  refine ⟨?_, ?_⟩
  · unfold scoreChecked candidateScore
    dsimp only
    have hage : (if now ≥ s.lastRun i then checkedSub now (s.lastRun i) else some 0) =
        some (if now ≥ s.lastRun i then now - s.lastRun i else 0) := by
      split_ifs with h
      · exact checkedSub_of_le (UInt64.le_iff_toNat_le.mp h)
      · rfl
    rw [hage, Option.bind_some, hmul, Option.bind_some]
    change (checkedAdd (classScore (s.policies i)) _).bind
      (fun score => checkedAdd score (waitedScore s now i)) = some
        (classScore (s.policies i) + ((s.policies i).priority * 8).toUInt64 + waitedScore s now i)
    rw [checkedAdd_of_lt (by omega), Option.bind_some, checkedAdd_of_lt (by omega)]
  · change (classScore (s.policies i) + ((s.policies i).priority * 8).toUInt64 +
      waitedScore s now i).toNat = _
    rw [toNat_add_of_lt (by omega), hsum, hweight]

/-- **No wrap-around**: the selection loop computes the same with operations that fail where the
machine wraps around. -/
theorem PolicyOk.selectChecked_eq (hs : PolicyOk s) (now : UInt64) :
    selectChecked s now = some (selectComponent s now) := by
  unfold selectChecked selectComponent rotation
  rw [hs.reserved.1, Option.bind_some, List.foldl_map]
  rw [foldlM_eq_some none (fun best offset hoffset => ?_)]
  · rfl
  · have hcursor := hs.cursor
    have hlt := List.mem_range.mp hoffset
    have hofNat : (UInt32.ofNat offset).toNat = offset := by
      rw [UInt32.toNat_ofNat', Nat.mod_eq_of_lt (by omega)]
    have hadd : checkedAdd32 s.cursor (UInt32.ofNat offset) =
        some (s.cursor + UInt32.ofNat offset) := if_pos (by omega)
    unfold roundChecked selectRound
    rw [hadd, Option.bind_some]
    dsimp only
    rw [admittedChecked_eq, Option.bind_some, (hs.score now _).1]
    split_ifs
    · rfl
    · cases best <;> rfl

theorem mem_rotation {cursor : UInt32} (h : cursor.toNat < 4) (i : Fin 4) :
    i ∈ rotation cursor := by
  have hall : ∀ n : Fin 4, ∀ i : Fin 4, i ∈ rotation (UInt32.ofNat n.val) := by decide
  have := hall ⟨cursor.toNat, h⟩ i
  rwa [UInt32.ofNat_toNat] at this

/-- A selected component was selected before, or is admitted and has its own score. -/
theorem selectRound_foldl_source {s : Scheduler} {now : UInt64} :
    ∀ {l : List (Fin 4)} {best : Option (Fin 4 × UInt64)} {i : Fin 4} {score : UInt64},
      l.foldl (selectRound s now) best = some (i, score) →
      best = some (i, score) ∨ (admitted s now i = true ∧ score = candidateScore s now i)
  | [], _, _, _, h => Or.inl h
  | j :: l, best, i, score, h => by
    rw [List.foldl_cons] at h
    rcases selectRound_foldl_source h with hround | hdone
    · unfold selectRound at hround
      cases hadmitted : admitted s now j with
      | false =>
        rw [hadmitted] at hround
        exact Or.inl hround
      | true =>
        rw [hadmitted, if_neg (by decide)] at hround
        cases best with
        | none =>
          cases hround
          exact Or.inr ⟨hadmitted, rfl⟩
        | some b =>
          dsimp only at hround
          split_ifs at hround
          · cases hround
            exact Or.inr ⟨hadmitted, rfl⟩
          · exact Or.inl hround
    · exact Or.inr hdone

/-- The selected component has the best score of what was selected before and is admitted. -/
theorem selectRound_foldl_best {s : Scheduler} {now : UInt64} :
    ∀ {l : List (Fin 4)} {best : Option (Fin 4 × UInt64)},
      (∀ b, best = some b → ∃ r, l.foldl (selectRound s now) best = some r ∧
        b.2.toNat ≤ r.2.toNat) ∧
      ∀ j ∈ l, admitted s now j = true → ∃ r, l.foldl (selectRound s now) best = some r ∧
        (candidateScore s now j).toNat ≤ r.2.toNat
  | [], best => ⟨fun b hb => ⟨b, hb, Nat.le_refl _⟩, fun j hj => absurd hj List.not_mem_nil⟩
  | i :: l, best => by
    obtain ⟨hkeep, hlist⟩ := @selectRound_foldl_best s now l (selectRound s now best i)
    rw [List.foldl_cons]
    refine ⟨fun b hb => ?_, fun j hj hadmitted => ?_⟩
    · obtain ⟨b', hb', hle⟩ : ∃ b', selectRound s now best i = some b' ∧
          b.2.toNat ≤ b'.2.toNat := by
        unfold selectRound
        rw [hb]
        dsimp only
        split_ifs with h1 h2
        · exact ⟨b, rfl, Nat.le_refl _⟩
        · exact ⟨_, rfl, Nat.le_of_lt (UInt64.lt_iff_toNat_lt.mp h2)⟩
        · exact ⟨b, rfl, Nat.le_refl _⟩
      obtain ⟨r, hr, hle'⟩ := hkeep b' hb'
      exact ⟨r, hr, Nat.le_trans hle hle'⟩
    · rcases List.mem_cons.mp hj with rfl | hj
      · obtain ⟨b', hb', hle⟩ : ∃ b', selectRound s now best j = some b' ∧
            (candidateScore s now j).toNat ≤ b'.2.toNat := by
          unfold selectRound
          rw [hadmitted, if_neg (by decide)]
          cases best with
          | none => exact ⟨_, rfl, Nat.le_refl _⟩
          | some b =>
            dsimp only
            split_ifs with h
            · exact ⟨_, rfl, Nat.le_refl _⟩
            · exact ⟨b, rfl, UInt64.le_iff_toNat_le.mp (UInt64.not_lt.mp h)⟩
        obtain ⟨r, hr, hle'⟩ := hkeep b' hb'
        exact ⟨r, hr, Nat.le_trans hle hle'⟩
      · exact hlist j hj hadmitted

variable {now : UInt64} {i : Fin 4}

theorem selectComponent_admitted (h : selectComponent s now = some i) :
    admitted s now i = true := by
  obtain ⟨⟨j, score⟩, hfold, rfl⟩ := Option.map_eq_some_iff.mp h
  rcases selectRound_foldl_source hfold with hnone | ⟨hadmitted, -⟩
  · cases hnone
  · exact hadmitted

theorem exists_component_of_admitted (h : admitted s now i = true) :
    ∃ c, s.domain.components i = some c := by
  cases hc : s.domain.components i with
  | none => simp [admitted, runnable, hc] at h
  | some c => exact ⟨c, rfl⟩

/-- **Interactive components come first.** -/
theorem PolicyOk.selects_interactive (hs : PolicyOk s) (hadmitted : admitted s now i = true)
    (hinteractive : (s.policies i).interactive ≠ 0) :
    ∃ j, selectComponent s now = some j ∧ (s.policies j).interactive ≠ 0 := by
  obtain ⟨⟨j, score⟩, hfold, hbest⟩ :=
    (@selectRound_foldl_best s now (rotation s.cursor) none).2 i (mem_rotation hs.cursor i)
      hadmitted
  refine ⟨j, by rw [selectComponent, hfold]; rfl, fun hj => ?_⟩
  rcases selectRound_foldl_source hfold with hnone | ⟨-, rfl⟩
  · cases hnone
  have hi := (hs.score now i).2
  have hjscore := (hs.score now j).2
  have hpriority := hs.priority j
  have hwaited := waitedScore_le s now j
  rw [toNat_classScore, if_pos hinteractive] at hi
  rw [toNat_classScore, if_neg (not_not_intro hj)] at hjscore
  dsimp only at hbest
  omega

/-! ### Frames that honour the reservations -/

/-- What is left of the frame covers the unused budgets of the interactive components. -/
def FrameOk (s : Scheduler) : Prop :=
  s.consumed.toNat + ∑ i, unused s i ≤ s.frameCycles.toNat

theorem PolicyOk.frameOk (hs : PolicyOk s) (hconsumed : s.consumed = 0) : FrameOk s := by
  have hle := hs.unused_le
  unfold FrameOk
  rw [hconsumed, UInt64.toNat_zero]
  omega

theorem toNat_addSaturated (h : a.toNat + b.toNat < 2 ^ 64) :
    (addSaturated a b).toNat = a.toNat + b.toNat := by
  have hmax : (0xffffffffffffffff : UInt64).toNat = 2 ^ 64 - 1 := rfl
  have hsub := @toNat_sub_of_le 0xffffffffffffffff a (by omega)
  unfold addSaturated
  rw [if_neg, toNat_add_of_lt h]
  rw [gt_iff_lt, UInt64.lt_iff_toNat_lt, hsub, hmax]
  omega

theorem PolicyOk.admitted_bounds (hs : PolicyOk s) (h : admitted s now i = true) :
    (s.used i).toNat < (s.policies i).budgetCycles.toNat ∧
      s.consumed.toNat < s.frameCycles.toNat ∧
      ((s.policies i).interactive = 0 → s.consumed.toNat + ∑ j, unused s j +
        ((s.policies i).budgetCycles.toNat - (s.used i).toNat) ≤ s.frameCycles.toNat) := by
  unfold admitted at h
  dsimp only at h
  split_ifs at h with hskip hreserved
  push Not at hskip
  obtain ⟨-, hused, hconsumed⟩ := hskip
  replace hused := UInt64.lt_iff_toNat_lt.mp (UInt64.not_le.mp hused)
  replace hconsumed := UInt64.lt_iff_toNat_lt.mp (UInt64.not_le.mp hconsumed)
  refine ⟨hused, hconsumed, fun hinteractive => ?_⟩
  rw [not_and, not_or] at hreserved
  obtain ⟨hfree, hfits⟩ := hreserved hinteractive
  replace hfree := UInt64.lt_iff_toNat_lt.mp (UInt64.not_le.mp hfree)
  replace hfits := UInt64.le_iff_toNat_le.mp (UInt64.not_lt.mp hfits)
  rw [toNat_sub_of_le (Nat.le_of_lt hconsumed)] at hfree
  rw [toNat_sub_of_le (Nat.le_of_lt hused), toNat_sub_of_le (by
    rw [toNat_sub_of_le (Nat.le_of_lt hconsumed)]
    exact Nat.le_of_lt hfree), toNat_sub_of_le (Nat.le_of_lt hconsumed)] at hfits
  rw [hs.reserved.2] at hfree hfits
  omega

theorem unused_charge_of_ne {j : Fin 4} (h : j ≠ i) (now elapsed : UInt64) :
    unused (charge s i now elapsed) j = unused s j := by
  unfold unused charge
  dsimp only
  rw [Function.update_of_ne h]

theorem FrameOk.charge {s : Scheduler} (hs : PolicyOk s) (hframe : FrameOk s) {now : UInt64}
    {i : Fin 4} (hadmitted : admitted s now i = true) {elapsed : UInt64}
    (helapsed : elapsed.toNat ≤ (s.policies i).budgetCycles.toNat - (s.used i).toNat) :
    FrameOk (charge s i now elapsed) := by
  obtain ⟨hused, -, hother⟩ := hs.admitted_bounds hadmitted
  unfold FrameOk at hframe ⊢
  have hbudget := (s.policies i).budgetCycles.toNat_lt
  have hcycles := s.frameCycles.toNat_lt
  have hrest : ∑ j ∈ Finset.univ.erase i, unused (Jani.charge s i now elapsed) j =
      ∑ j ∈ Finset.univ.erase i, unused s j :=
    Finset.sum_congr rfl fun j hj => unused_charge_of_ne (Finset.ne_of_mem_erase hj) now elapsed
  have hself : unused (Jani.charge s i now elapsed) i = unused s i - elapsed.toNat := by
    unfold unused Jani.charge
    dsimp only
    rw [Function.update_self, toNat_addSaturated (by omega)]
    split_ifs <;> omega
  rw [← Finset.add_sum_erase _ _ (Finset.mem_univ i)] at hframe hother ⊢
  rw [hrest, hself]
  show (addSaturated s.consumed elapsed).toNat + _ ≤ s.frameCycles.toNat
  by_cases hinteractive : (s.policies i).interactive = 0
  · have hfits := hother hinteractive
    have hzero : unused s i = 0 := if_neg (not_not_intro hinteractive)
    rw [toNat_addSaturated (by omega)]
    omega
  · have hown : unused s i = (s.policies i).budgetCycles.toNat - (s.used i).toNat :=
      if_pos hinteractive
    rw [toNat_addSaturated (by omega)]
    omega

/-- A step at this time begins a new frame. -/
def OpensFrame (s : Scheduler) (now : UInt64) : Prop :=
  stepRefused s now = false ∧ now - s.frameStart ≥ s.frameTicks

/-- The next step, if there is one, begins a new frame. -/
def NextOpens (s : Scheduler) : List SchedulerEvent → Prop
  | [] => True
  | .step now _ :: _ => OpensFrame s now
  | e :: events => NextOpens (e.apply s) events

/-- The elapsed cycles of a handler are within the remaining budget of its component. -/
def WithinBudget (s : Scheduler) (now : UInt64) (run : HandlerRun) : Prop :=
  ∀ i, calledHandler s now run = some i → run.elapsed.toNat ≤
    ((openFrame s now).policies i).budgetCycles.toNat - ((openFrame s now).used i).toNat

/-- Runs that change policies only between frames, or before anything was used of the first one, and
whose handlers keep to their budgets. -/
def Disciplined (s : Scheduler) : List SchedulerEvent → Prop
  | [] => True
  | .configure index p :: events =>
    (s.consumed = 0 ∨ NextOpens ((SchedulerEvent.configure index p).apply s) events) ∧
      Disciplined ((SchedulerEvent.configure index p).apply s) events
  | .step now run :: events =>
    WithinBudget s now run ∧ Disciplined ((SchedulerEvent.step now run).apply s) events
  | .outside d t :: events => Disciplined ((SchedulerEvent.outside d t).apply s) events

/-- The frame in which a step selects a component honours the reservations. -/
theorem frameOk_openFrame (hs : PolicyOk s) (h : FrameOk s ∨ OpensFrame s now) :
    FrameOk (openFrame s now) := by
  by_cases hopen : now - s.frameStart ≥ s.frameTicks
  · refine (hs.openFrame now).frameOk ?_
    rw [openFrame, if_pos hopen]
  · rw [openFrame, if_neg hopen]
    exact h.resolve_right fun h => hopen h.2

/-- **One step.** -/
theorem frameOk_step (hs : PolicyOk s) {run : HandlerRun} (h : FrameOk s ∨ OpensFrame s now)
    (hbudget : WithinBudget s now run) : FrameOk (schedulerStep s now run).2 := by
  have hopen := frameOk_openFrame hs h
  rcases schedulerStep_cases s now run with ⟨hrefused, heq⟩ | ⟨-, d, t, w, heq⟩ |
    ⟨-, i, d, t, w, hcalled, hselected, heq⟩
  · rw [heq]
    refine h.resolve_right fun h => ?_
    rw [h.1] at hrefused
    cases hrefused
  · rw [heq]
    exact hopen
  · rw [heq]
    exact FrameOk.charge (hs.openFrame now) hopen (selectComponent_admitted hselected)
      (hbudget i hcalled)

/-- **Whole runs**: at each step of a disciplined run the frame honours the reservations, or the
step opens a new one. -/
theorem disciplined_run : ∀ {before : List SchedulerEvent} {s : Scheduler} {now : UInt64}
    {run : HandlerRun} {after : List SchedulerEvent}, PolicyOk s →
    (FrameOk s ∨ NextOpens s (before ++ .step now run :: after)) →
    Disciplined s (before ++ .step now run :: after) →
    (FrameOk (schedulerRun s before) ∨ OpensFrame (schedulerRun s before) now) ∧
      WithinBudget (schedulerRun s before) now run
  | [], _, _, _, _, _, hframe, h => ⟨hframe, h.1⟩
  | e :: before, s, now, run, after, hs, hframe, h => by
    refine @disciplined_run before (e.apply s) now run after (hs.apply e) ?_ ?_
    · cases e with
      | configure index p =>
        rcases h.1 with hconsumed | hnext
        · refine Or.inl ((hs.apply _).frameOk ?_)
          show ((schedulerConfigure s index p).getD s).consumed = 0
          cases hconfigure : schedulerConfigure s index p with
          | none => exact hconsumed
          | some s' =>
            obtain ⟨-, i, rfl, -⟩ := schedulerConfigure_eq_some hconfigure
            exact hconsumed
        · exact Or.inr hnext
      | step now' run' => exact Or.inl (frameOk_step hs hframe h.1)
      | outside d t => exact hframe
    · cases e with
      | configure index p => exact h.2
      | step now' run' => exact h.2
      | outside d t => exact h

theorem admitted_interactive (hframe : FrameOk s) (hinteractive : (s.policies i).interactive ≠ 0)
    (hrunnable : runnable s.domain.store (s.domain.components i) now = true)
    (hused : s.used i < (s.policies i).budgetCycles) : admitted s now i = true := by
  have hlt := UInt64.lt_iff_toNat_lt.mp hused
  have hown : unused s i = (s.policies i).budgetCycles.toNat - (s.used i).toNat :=
    if_pos hinteractive
  have hle : unused s i ≤ ∑ j, unused s j :=
    Finset.single_le_sum (fun _ _ => Nat.zero_le _) (Finset.mem_univ i)
  have hconsumed : ¬ s.consumed ≥ s.frameCycles := by
    unfold FrameOk at hframe
    rw [ge_iff_le, UInt64.le_iff_toNat_le]
    omega
  unfold admitted
  dsimp only
  rw [if_neg, if_neg]
  · exact fun h => hinteractive h.1
  · rw [hrunnable]
    rintro (h | h | h)
    · exact absurd h (by decide)
    · exact UInt64.not_le.mpr hused h
    · exact hconsumed h

/-- **Interactive reservations are honoured.**  In every state that calls of `scheduler_configure`
and `scheduler_step` reach, the arithmetic of the selection loop does not wrap around.  In runs that
change policies only between frames and whose handlers keep to their budgets, after every step the
consumed cycles and the unused budgets of the interactive components fit in the frame together; a
runnable interactive component with remaining budget is not skipped, and if there is one the step
selects an interactive component. -/
theorem interactive_reservations (domain : CapabilityDomain) (readable : ObjectId → Bool)
    (frameTicks frameCycles : UInt64) (s₀ : Scheduler)
    (hinit : schedulerInit domain readable frameTicks frameCycles = some s₀) :
    (∀ events now, selectChecked (openFrame (schedulerRun s₀ events) now) now =
      some (selectComponent (openFrame (schedulerRun s₀ events) now) now)) ∧
    ∀ before now run after, Disciplined s₀ (before ++ .step now run :: after) →
      FrameOk (schedulerStep (schedulerRun s₀ before) now run).2 ∧
      ∀ s, s = openFrame (schedulerRun s₀ before) now → ∀ i, (s.policies i).interactive ≠ 0 →
        runnable s.domain.store (s.domain.components i) now = true →
        s.used i < (s.policies i).budgetCycles →
        admitted s now i = true ∧
          ∃ j c, selectComponent s now = some j ∧ (s.policies j).interactive ≠ 0 ∧
            s.domain.components j = some c ∧
            (stepRefused (schedulerRun s₀ before) now = false → run.prepared = true →
              (capabilityDomainBegin s.domain).isSome = true → ∃ started,
                schedulerStep (schedulerRun s₀ before) now run =
                  runHandler started j c now run) := by
  obtain ⟨hpolicy, hconsumed, -⟩ := policyOk_init hinit
  refine ⟨fun events now => ((hpolicy.run events).openFrame now).selectChecked_eq now,
    fun before now run after hrun => ?_⟩
  obtain ⟨hframe, hbudget⟩ := disciplined_run hpolicy (Or.inl (hpolicy.frameOk hconsumed)) hrun
  refine ⟨frameOk_step (hpolicy.run before) hframe hbudget, ?_⟩
  rintro s rfl i hinteractive hrunnable hused
  have hadmitted := admitted_interactive (frameOk_openFrame (hpolicy.run before) hframe)
    hinteractive hrunnable hused
  obtain ⟨j, hselected, hj⟩ :=
    ((hpolicy.run before).openFrame now).selects_interactive hadmitted hinteractive
  obtain ⟨c, hc⟩ := exists_component_of_admitted (selectComponent_admitted hselected)
  refine ⟨hadmitted, j, c, hselected, hj, hc, fun hrefused hprepared hbegin => ?_⟩
  rw [openFrame_domain] at hc hbegin
  exact schedulerStep_selected hselected hc hrefused hprepared hbegin

/-- A component that has mail. -/
def mailComponent (n : UInt64) : Component :=
  { Component.blank ⟨2, n⟩ ⟨⟨3, n⟩, ⟨4, n⟩, ⟨5, n⟩⟩ with mailbox := [0] }

/-- A domain with three components, all of which have mail. -/
def mailDomain : CapabilityDomain :=
  CapabilityDomain.fresh ObjectMap.empty
    (fun i => if i = 3 then none else some (mailComponent (UInt64.ofNat (i + 1)))) []
    ProvenanceLedger.zero

/-- A handler that faults after forty cycles. -/
def faultingRun : HandlerRun := ⟨true, 100, 140, fun d t => (false, d, t), .commit⟩

/-- The scheduler of `mailDomain`, with frames of ten ticks and a hundred cycles. -/
def mailScheduler : Scheduler where
  domain := mailDomain
  policies := fun _ => ⟨0, 0, 25⟩
  lastRun := fun _ => 0
  used := fun _ => 0
  frameStart := 0
  frameTicks := 10
  frameCycles := 100
  consumed := 0
  cursor := 0
  running := false
  waiting := fun _ => 0
  trace := SchedulerTrace.zero

/-- The second component is interactive, the third one has a higher priority than the first. -/
def mailEvents : List SchedulerEvent := [.configure 1 ⟨1, 0, 60⟩, .configure 2 ⟨0, 3, 15⟩]

def mailState : Scheduler := schedulerRun mailScheduler mailEvents

theorem mailScheduler_init :
    schedulerInit mailDomain (fun _ => true) 10 100 = some mailScheduler := by
  decide +kernel

/-- All three could run, and the handler of the interactive component is called. -/
theorem interactive_reservations_mail : (∀ i < 3, admitted mailState 3 i = true) ∧
    FrameOk (schedulerStep mailState 3 faultingRun).2 ∧
    ∃ c started, schedulerStep mailState 3 faultingRun = runHandler started 1 c 3 faultingRun := by
  have hrun : Disciplined mailScheduler (mailEvents ++ [.step 3 faultingRun]) := by
    refine ⟨Or.inl rfl, Or.inl rfl, ?_, trivial⟩
    unfold WithinBudget
    decide +kernel
  obtain ⟨hframe, hselect⟩ := (interactive_reservations mailDomain (fun _ => true) 10 100
    mailScheduler mailScheduler_init).2 mailEvents 3 faultingRun [] hrun
  obtain ⟨-, j, c, hj, -, -, hstep⟩ :=
    hselect mailState (by decide +kernel) 1 (by decide) (by decide +kernel) (by decide +kernel)
  obtain rfl : j = 1 := Option.some.inj (hj.symm.trans (by decide +kernel))
  exact ⟨by decide +kernel, hframe, c,
    hstep (by decide +kernel) rfl (by decide +kernel)⟩

/-! ### The choice of a component -/

/-- What the selection loop compares, without a bound: the class, the priority and the age. -/
def rank (s : Scheduler) (now : UInt64) (i : Fin 4) : Nat :=
  (if (s.policies i).interactive ≠ 0 then 2 ^ 63 else 0) + (s.policies i).priority.toNat * 8 +
    (waitedScore s now i).toNat

theorem PolicyOk.toNat_candidateScore (hs : PolicyOk s) (now : UInt64) (i : Fin 4) :
    (candidateScore s now i).toNat = rank s now i := by
  rw [(hs.score now i).2, toNat_classScore, rank]

/-- **The scheduler is work-conserving and picks the best**: in every state that calls of
`scheduler_configure` and `scheduler_step` reach, the loop selects a component whenever one is
admitted, and then an admitted one of the highest rank. -/
theorem scheduler_selects_best (domain : CapabilityDomain) (readable : ObjectId → Bool)
    (frameTicks frameCycles : UInt64) (s₀ s : Scheduler) (events : List SchedulerEvent)
    (now : UInt64) (hinit : schedulerInit domain readable frameTicks frameCycles = some s₀)
    (hs : s = openFrame (schedulerRun s₀ events) now) :
    ((selectComponent s now).isSome = true ↔ ∃ i, admitted s now i = true) ∧
      ∀ j, selectComponent s now = some j → admitted s now j = true ∧
        ∀ i, admitted s now i = true → rank s now i ≤ rank s now j := by
  have hpolicy : PolicyOk s := hs ▸ ((policyOk_init hinit).1.run events).openFrame now
  have hbest : ∀ i, admitted s now i = true → ∃ j, selectComponent s now = some j ∧
      rank s now i ≤ rank s now j := by
    intro i hadmitted
    obtain ⟨⟨j, score⟩, hfold, hle⟩ := (@selectRound_foldl_best s now (rotation s.cursor) none).2 i
      (mem_rotation hpolicy.cursor i) hadmitted
    rcases selectRound_foldl_source hfold with hnone | ⟨-, rfl⟩
    · cases hnone
    · rw [hpolicy.toNat_candidateScore, hpolicy.toNat_candidateScore] at hle
      exact ⟨j, by rw [selectComponent, hfold]; rfl, hle⟩
  refine ⟨⟨fun h => ?_, fun ⟨i, hadmitted⟩ => ?_⟩, fun j hj => ?_⟩
  · obtain ⟨j, hj⟩ := Option.isSome_iff_exists.mp h
    exact ⟨j, selectComponent_admitted hj⟩
  · obtain ⟨j, hj, -⟩ := hbest i hadmitted
    rw [hj]
    rfl
  · refine ⟨selectComponent_admitted hj, fun i hadmitted => ?_⟩
    obtain ⟨j', hj', hle⟩ := hbest i hadmitted
    rw [Option.some.inj (hj.symm.trans hj')]
    exact hle

/-- The state after the handler of the interactive component has faulted. -/
def faultedState : Scheduler :=
  openFrame (schedulerRun mailScheduler (mailEvents ++ [.step 3 faultingRun])) 4

/-- The other two components are left, and that of the higher priority is selected. -/
theorem scheduler_selects_best_mail : admitted faultedState 4 0 = true ∧
    admitted faultedState 4 1 = false ∧ admitted faultedState 4 2 = true ∧
    selectComponent faultedState 4 = some 2 ∧
    rank faultedState 4 0 < rank faultedState 4 2 ∧
    ∀ i, admitted faultedState 4 i = true → rank faultedState 4 i ≤ rank faultedState 4 2 := by
  have hstate : admitted faultedState 4 0 = true ∧ admitted faultedState 4 1 = false ∧
      admitted faultedState 4 2 = true ∧ selectComponent faultedState 4 = some 2 ∧
      rank faultedState 4 0 < rank faultedState 4 2 := by
    decide +kernel
  obtain ⟨h0, h1, h2, hselected, hlt⟩ := hstate
  exact ⟨h0, h1, h2, hselected, hlt, ((scheduler_selects_best mailDomain (fun _ => true) 10 100
    mailScheduler faultedState _ 4 mailScheduler_init rfl).2 2 hselected).2⟩

end Jani
