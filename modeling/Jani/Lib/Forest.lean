import Mathlib.Data.Finset.Max
import Mathlib.Data.Fintype.Card

/-!
# Forests given by parent links

A partial function `parent : α → Option α` describes a forest when its chains end: `Rooted` asks
for a rank that falls along every link.  `Ends parent n a` says that the chain from `a` has at most
`n` links, which is what a loop with a depth counter finds out.  In a forest with finitely many
links a chain is no longer than the number of links (`Rooted.ends`).

The second part is the loop that collects everything below a set of nodes: it runs over a list of
edges, adding children of what it has, until a pass adds nothing (`spread`).  The result is the set
of nodes reached along edges (`mem_spread_iff`).
-/

namespace Jani

variable {α : Type*}

/-! ### Chains -/

/-- The chain of parents from `a` has at most `n` links. -/
def Ends (parent : α → Option α) : Nat → α → Prop
  | 0, a => parent a = none
  | n + 1, a => ∀ p, parent a = some p → Ends parent n p

/-- Every chain of parents ends. -/
def Rooted (parent : α → Option α) : Prop :=
  ∃ rank : α → Nat, ∀ a p, parent a = some p → rank p < rank a

variable {parent : α → Option α}

theorem Ends.succ : ∀ {n : Nat} {a : α}, Ends parent n a → Ends parent (n + 1) a
  | 0, a, h => fun p hp => by
    rw [Ends] at h
    rw [h] at hp
    cases hp
  | _ + 1, _, h => fun p hp => (h p hp).succ

theorem Ends.mono {n m : Nat} {a : α} (h : Ends parent n a) (hle : n ≤ m) : Ends parent m a := by
  induction hle with
  | refl => exact h
  | step _ ih => exact ih.succ

theorem Rooted.of_ends (h : ∀ a, ∃ n, Ends parent n a) : Rooted parent := by
  classical
  refine ⟨fun a => Nat.find (h a), fun a p hp => ?_⟩
  have ha := Nat.find_spec (h a)
  cases hn : Nat.find (h a) with
  | zero =>
    rw [hn, Ends, hp] at ha
    cases ha
  | succ n =>
    rw [hn] at ha
    have hle := Nat.find_min' (h p) (ha p hp)
    dsimp only
    rw [hn]
    exact Nat.lt_succ_of_le hle

/-- **A chain is no longer than the number of nodes that have a parent.** -/
theorem Rooted.ends (h : Rooted parent) (s : Finset α) (hs : ∀ a p, parent a = some p → a ∈ s)
    (a : α) : Ends parent s.card a := by
  classical
  obtain ⟨rank, hrank⟩ := h
  -- the nodes of `s` up to the rank of `a`; one fewer for the parent
  suffices key : ∀ n a, (s.filter fun x => rank x ≤ rank a).card ≤ n → Ends parent n a from
    key s.card a (Finset.card_filter_le _ _)
  intro n
  induction n with
  | zero =>
    intro a hcard
    cases hp : parent a with
    | none => exact hp
    | some p =>
      have hmem : a ∈ s.filter fun x => rank x ≤ rank a :=
        Finset.mem_filter.mpr ⟨hs a p hp, le_rfl⟩
      rw [Finset.card_eq_zero.mp (Nat.le_zero.mp hcard)] at hmem
      cases hmem
  | succ n ih =>
    intro a hcard p hp
    have hlt := hrank a p hp
    refine ih p (Nat.le_of_lt_succ (lt_of_lt_of_le (Finset.card_lt_card ?_) hcard))
    refine (Finset.ssubset_iff_of_subset ?_).mpr ⟨a, ?_, ?_⟩
    · intro x hx
      obtain ⟨hxs, hle⟩ := Finset.mem_filter.mp hx
      exact Finset.mem_filter.mpr ⟨hxs, by omega⟩
    · exact Finset.mem_filter.mpr ⟨hs a p hp, le_rfl⟩
    · intro hx
      have := (Finset.mem_filter.mp hx).2
      omega

/-- In a finite forest some node has no parent, so a chain has fewer links than there are nodes. -/
theorem Rooted.ends_card [Fintype α] (h : Rooted parent) {n : Nat} (hn : Fintype.card α = n + 1)
    (a : α) : Ends parent n a := by
  classical
  obtain ⟨rank, hrank⟩ := h
  obtain ⟨root, -, hroot⟩ :=
    Finset.exists_min_image (Finset.univ : Finset α) rank ⟨a, Finset.mem_univ a⟩
  have hnone : parent root = none := by
    cases hp : parent root with
    | none => rfl
    | some p => exact absurd (hroot p (Finset.mem_univ p)) (Nat.not_le.mpr (hrank root p hp))
  have hcard : (Finset.univ.erase root : Finset α).card = n := by
    rw [Finset.card_erase_of_mem (Finset.mem_univ root), Finset.card_univ, hn, Nat.add_sub_cancel]
  rw [← hcard]
  refine Rooted.ends ⟨rank, hrank⟩ _ (fun x p hp => Finset.mem_erase.mpr ⟨?_, Finset.mem_univ x⟩) a
  rintro rfl
  rw [hnone] at hp
  cases hp

/-- With finitely many links, a forest is what has no cycle. -/
theorem Rooted.of_acyclic (s : Finset α) (hs : ∀ a p, parent a = some p → a ∈ s)
    (hacyclic : ∀ a, ¬ Relation.TransGen (fun p c => parent c = some p) a a) : Rooted parent := by
  classical
  -- the rank of a node counts the nodes of `s` at or above it
  let above (a : α) : Finset α :=
    s.filter fun x => x = a ∨ Relation.TransGen (fun p c => parent c = some p) x a
  refine ⟨fun a => (above a).card, fun a p hp => Finset.card_lt_card ?_⟩
  refine (Finset.ssubset_iff_of_subset fun x hx => ?_).mpr
    ⟨a, Finset.mem_filter.mpr ⟨hs a p hp, Or.inl rfl⟩, fun ha => ?_⟩
  · obtain ⟨hxs, rfl | hpath⟩ := Finset.mem_filter.mp hx
    · exact Finset.mem_filter.mpr ⟨hxs, Or.inr (.single hp)⟩
    · exact Finset.mem_filter.mpr ⟨hxs, Or.inr (hpath.tail hp)⟩
  · rcases (Finset.mem_filter.mp ha).2 with rfl | hpath
    · exact hacyclic a (.single hp)
    · exact hacyclic a (hpath.tail hp)

theorem Rooted.mono {parent' : α → Option α} (h : Rooted parent)
    (hsub : ∀ a p, parent' a = some p → parent a = some p) : Rooted parent' := by
  obtain ⟨rank, hrank⟩ := h
  exact ⟨rank, fun a p hp => hrank a p (hsub a p hp)⟩

theorem Rooted.add {parent' : α → Option α} (h : Rooted parent) {c p : α} (hne : p ≠ c)
    (hfresh : ∀ a, parent a ≠ some c)
    (hsub : ∀ a q, parent' a = some q → (a = c ∧ q = p) ∨ (a ≠ c ∧ parent a = some q)) :
    Rooted parent' := by
  classical
  obtain ⟨rank, hrank⟩ := h
  refine ⟨Function.update rank c (rank p + 1), fun a q hq => ?_⟩
  rcases hsub a q hq with ⟨rfl, rfl⟩ | ⟨ha, hq⟩
  · rw [Function.update_of_ne hne, Function.update_self]
    exact Nat.lt_succ_self _
  · have hqc : q ≠ c := fun heq => hfresh a (heq ▸ hq)
    rw [Function.update_of_ne hqc, Function.update_of_ne ha]
    exact hrank a q hq

/-! ### Collecting what is below -/

section Spread

variable [DecidableEq α]

/-- One edge of a pass: the child is added if the parent starts a walk or is already there. -/
def spreadEdge (start : α → Bool) (found : List α) (edge : α × α) : List α :=
  if edge.2 ∈ found then found
  else if start edge.1 ∨ edge.1 ∈ found then found ++ [edge.2]
  else found

/-- The `do … while (changed)` loop over the edges. -/
def spread (start : α → Bool) (edges : List (α × α)) : Nat → List α → List α
  | 0, found => found
  | fuel + 1, found =>
    let next := edges.foldl (spreadEdge start) found
    if next.length = found.length then found else spread start edges fuel next

/-- The nodes a walk along the edges reaches. -/
def Reached (start : α → Bool) (edges : List (α × α)) (init : List α) (c : α) : Prop :=
  c ∈ init ∨ ∃ p, (start p = true ∨ p ∈ init) ∧ Relation.TransGen (fun a b => (a, b) ∈ edges) p c

omit [DecidableEq α] in
theorem Reached.edge {start : α → Bool} {edges : List (α × α)} {init : List α} {p c : α}
    (hp : start p = true ∨ Reached start edges init p) (he : (p, c) ∈ edges) :
    Reached start edges init c := by
  rcases hp with hp | hp | ⟨q, hq, hpath⟩
  · exact Or.inr ⟨p, Or.inl hp, .single he⟩
  · exact Or.inr ⟨p, Or.inr hp, .single he⟩
  · exact Or.inr ⟨q, hq, hpath.tail he⟩

/-- What an edge of a pass does: nothing, or it appends a child that the walk reaches. -/
theorem spreadEdge_cases (start : α → Bool) (found : List α) (edge : α × α) :
    (spreadEdge start found edge = found ∧
        ((start edge.1 = true ∨ edge.1 ∈ found) → edge.2 ∈ found)) ∨
      (spreadEdge start found edge = found ++ [edge.2] ∧ edge.2 ∉ found ∧
        (start edge.1 = true ∨ edge.1 ∈ found)) := by
  unfold spreadEdge
  by_cases hc : edge.2 ∈ found
  · exact Or.inl ⟨if_pos hc, fun _ => hc⟩
  · by_cases hp : start edge.1 = true ∨ edge.1 ∈ found
    · exact Or.inr ⟨by rw [if_neg hc, if_pos hp], hc, hp⟩
    · exact Or.inl ⟨by rw [if_neg hc, if_neg hp], fun h => absurd h hp⟩

/-- A pass appends children that were not there, and one that appends nothing has nothing to
append. -/
theorem spread_pass (start : α → Bool) : ∀ (edges : List (α × α)) (found : List α),
    ∃ added, edges.foldl (spreadEdge start) found = found ++ added ∧
      (∀ c ∈ added, c ∉ found ∧ ∃ e ∈ edges, e.2 = c) ∧
      (added = [] → ∀ e ∈ edges, (start e.1 = true ∨ e.1 ∈ found) → e.2 ∈ found)
  | [], found => ⟨[], by simp, fun c hc => absurd hc List.not_mem_nil,
      fun _ e he => absurd he List.not_mem_nil⟩
  | e :: edges, found => by
    rw [List.foldl_cons]
    rcases spreadEdge_cases start found e with ⟨heq, hclosed⟩ | ⟨heq, hnew, -⟩
    · rw [heq]
      obtain ⟨added, hadded, hnew, hrest⟩ := spread_pass start edges found
      refine ⟨added, hadded, fun c hc => ?_, fun hnil => List.forall_mem_cons.mpr
        ⟨hclosed, hrest hnil⟩⟩
      obtain ⟨hc, e', he', heq'⟩ := hnew c hc
      exact ⟨hc, e', List.mem_cons_of_mem _ he', heq'⟩
    · rw [heq]
      obtain ⟨added, hadded, hnew', -⟩ := spread_pass start edges (found ++ [e.2])
      refine ⟨e.2 :: added, by rw [hadded, List.append_assoc]; rfl,
        List.forall_mem_cons.mpr ⟨⟨hnew, e, List.mem_cons_self, rfl⟩, fun c hc => ?_⟩,
        fun h => absurd h (List.cons_ne_nil _ _)⟩
      obtain ⟨hc, e', he', heq'⟩ := hnew' c hc
      exact ⟨fun h => hc (List.mem_append_left _ h), e', List.mem_cons_of_mem _ he', heq'⟩

/-- Passes add only what the walk reaches, and nothing twice. -/
theorem spread_pass_sound {start : α → Bool} {all : List (α × α)} {init : List α} :
    ∀ (edges : List (α × α)) (found : List α), (∀ e ∈ edges, e ∈ all) → found.Nodup →
      (∀ c ∈ found, Reached start all init c) →
      (edges.foldl (spreadEdge start) found).Nodup ∧
        ∀ c ∈ edges.foldl (spreadEdge start) found, Reached start all init c
  | [], _, _, hnodup, hfound => ⟨hnodup, hfound⟩
  | e :: edges, found, hedges, hnodup, hfound => by
    obtain ⟨he, hrest⟩ := List.forall_mem_cons.mp hedges
    rw [List.foldl_cons]
    rcases spreadEdge_cases start found e with ⟨heq, -⟩ | ⟨heq, hnew, hparent⟩
    · rw [heq]
      exact spread_pass_sound edges found hrest hnodup hfound
    · rw [heq]
      have hchild : Reached start all init e.2 :=
        Reached.edge (hparent.imp id fun h => hfound _ h) he
      refine spread_pass_sound edges _ hrest ?_ ?_
      · exact List.nodup_append.mpr ⟨hnodup, List.nodup_singleton _,
          fun a ha b hb => by rintro rfl; exact hnew (List.mem_singleton.mp hb ▸ ha)⟩
      · intro c hc
        rcases List.mem_append.mp hc with hc | hc
        · exact hfound c hc
        · exact List.mem_singleton.mp hc ▸ hchild

/-- The loop adds only what the walk reaches, and nothing twice. -/
theorem spread_sound {start : α → Bool} {edges : List (α × α)} {init : List α} :
    ∀ (fuel : Nat) (found : List α), found.Nodup → (∀ c ∈ found, Reached start edges init c) →
      (spread start edges fuel found).Nodup ∧
        ∀ c ∈ spread start edges fuel found, Reached start edges init c
  | 0, _, hnodup, hfound => ⟨hnodup, hfound⟩
  | fuel + 1, found, hnodup, hfound => by
    obtain ⟨hnodup', hfound'⟩ := spread_pass_sound edges found (fun _ h => h) hnodup hfound
    rw [spread]
    split_ifs
    · exact ⟨hnodup, hfound⟩
    · exact spread_sound fuel _ hnodup' hfound'

/-- A pass that appends a child leaves fewer edges to do. -/
theorem spread_fewer {edges : List (α × α)} {found : List α} {c : α} (hc : c ∉ found)
    (hedge : ∃ e ∈ edges, e.2 = c) (added : List α) :
    (edges.filter fun e => e.2 ∉ found ++ c :: added).length <
      (edges.filter fun e => e.2 ∉ found).length := by
  obtain ⟨e, he, rfl⟩ := hedge
  have heq : (edges.filter fun e' => e'.2 ∉ found ++ e.2 :: added) =
      (edges.filter fun e' => e'.2 ∉ found).filter fun e' => e'.2 ∉ e.2 :: added := by
    rw [List.filter_filter]
    refine List.filter_congr fun e' _ => ?_
    rw [Bool.eq_iff_iff]
    simp [not_or, and_comm, and_left_comm]
  rw [heq]
  refine List.length_filter_lt_length_iff_exists.mpr
    ⟨e, List.mem_filter.mpr ⟨he, decide_eq_true hc⟩, ?_⟩
  simp

/-- With enough passes the loop stops because a pass had nothing to add. -/
theorem spread_closed (start : α → Bool) (edges : List (α × α)) :
    ∀ (fuel : Nat) (found : List α), (edges.filter fun e => e.2 ∉ found).length < fuel →
      (∀ c ∈ found, c ∈ spread start edges fuel found) ∧
        ∀ e ∈ edges, (start e.1 = true ∨ e.1 ∈ spread start edges fuel found) →
          e.2 ∈ spread start edges fuel found
  | 0, _, hfuel => absurd hfuel (Nat.not_lt_zero _)
  | fuel + 1, found, hfuel => by
    obtain ⟨added, hadded, hnew, hclosed⟩ := spread_pass start edges found
    rw [spread, hadded]
    rcases added with - | ⟨c, added⟩
    · rw [if_pos (by rw [List.append_nil])]
      exact ⟨fun _ h => h, hclosed rfl⟩
    · rw [if_neg (by rw [List.length_append, List.length_cons]; omega)]
      obtain ⟨hc, hedge⟩ := hnew c List.mem_cons_self
      have hfewer := spread_fewer hc hedge added
      obtain ⟨hkeep, hall⟩ := spread_closed start edges fuel (found ++ c :: added) (by omega)
      exact ⟨fun x hx => hkeep x (List.mem_append_left _ hx), hall⟩

/-- The loop has ended after enough passes: allowing more changes nothing. -/
theorem spread_of_le (start : α → Bool) (edges : List (α × α)) :
    ∀ (fuel : Nat) (found : List α), (edges.filter fun e => e.2 ∉ found).length < fuel →
      ∀ more, fuel ≤ more → spread start edges more found = spread start edges fuel found
  | 0, _, hfuel, _, _ => absurd hfuel (Nat.not_lt_zero _)
  | _ + 1, _, _, 0, hmore => absurd hmore (Nat.not_succ_le_zero _)
  | fuel + 1, found, hfuel, more + 1, hmore => by
    obtain ⟨added, hadded, hnew, -⟩ := spread_pass start edges found
    rw [spread, spread, hadded]
    rcases added with - | ⟨c, added⟩
    · rw [if_pos (by rw [List.append_nil]), if_pos (by rw [List.append_nil])]
    · have hlonger : (found ++ c :: added).length ≠ found.length := by
        rw [List.length_append, List.length_cons]
        omega
      obtain ⟨hc, hedge⟩ := hnew c List.mem_cons_self
      have hfewer := spread_fewer hc hedge added
      rw [if_neg hlonger, if_neg hlonger]
      exact spread_of_le start edges fuel _ (by omega) more (Nat.le_of_succ_le_succ hmore)

/-- **The loop computes what the walk reaches.** -/
theorem mem_spread_iff (start : α → Bool) (edges : List (α × α)) {init : List α}
    (hinit : init.Nodup) (c : α) :
    c ∈ spread start edges (edges.length + 1) init ↔ Reached start edges init c := by
  have hfuel : (edges.filter fun e => e.2 ∉ init).length < edges.length + 1 :=
    Nat.lt_succ_of_le (List.length_filter_le _ _)
  obtain ⟨hkeep, hclosed⟩ := spread_closed start edges _ init hfuel
  constructor
  · exact (spread_sound _ init hinit fun _ h => Or.inl h).2 c
  · rintro (hc | ⟨p, hp, hpath⟩)
    · exact hkeep c hc
    · have hp' : start p = true ∨ p ∈ spread start edges (edges.length + 1) init :=
        hp.imp id fun h => hkeep p h
      induction hpath with
      | single he => exact hclosed _ he hp'
      | tail _ he ih => exact hclosed _ he (Or.inr ih)

end Spread

end Jani
