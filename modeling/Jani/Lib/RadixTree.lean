import Mathlib.Data.List.Basic

/-!
# Radix trees in memory

Nodes lie in a memory that gives each node an entry for each index, and `child` says which entries
lead to another node.  `descend` follows a path of indices from the root and `leafAt` reads an
entry of the node at its end.  `TreeTo n` says that no node is reached along two paths of at most
`n` steps.  In such a tree a write to one entry is seen along one path only:

* `TreeTo.relink`: an entry above the leaves changes and leads to the same node as before;
* `TreeTo.attach`: a node that was not part of the tree is cleared and linked in;
* `TreeTo.setLeaf`: an entry of a node at depth `n` changes.
-/

namespace Jani.Radix

variable {A I E : Type}

/-- The node at the end of a path. -/
def descend (child : E → Option A) (m : A → I → E) : A → List I → Option A
  | t, [] => some t
  | t, i :: path => (child (m t i)).bind fun t' => descend child m t' path

/-- An entry of the node at the end of a path. -/
def leafAt (child : E → Option A) (m : A → I → E) (root : A) (path : List I) (i : I) : Option E :=
  (descend child m root path).map fun t => m t i

/-- No node is at the end of two paths of at most `n` steps. -/
def TreeTo (n : Nat) (child : E → Option A) (m : A → I → E) (root : A) : Prop :=
  ∀ p q t, p.length ≤ n → q.length ≤ n → descend child m root p = some t →
    descend child m root q = some t → p = q

variable {child : E → Option A} {m m' : A → I → E} {root t : A} {n : Nat}

theorem descend_append : ∀ (p q : List I) (t : A),
    descend child m t (p ++ q) = (descend child m t p).bind fun t' => descend child m t' q
  | [], _, _ => rfl
  | i :: p, q, t => by
    rw [List.cons_append, descend, descend]
    cases child (m t i) with
    | none => rfl
    | some t' => exact descend_append p q t'

theorem descend_concat {p : List I} (i : I) (h : descend child m root p = some t) :
    descend child m root (p ++ [i]) = child (m t i) := by
  rw [descend_append, h, Option.bind_some, descend]
  cases child (m t i) <;> rfl

/-- A path is followed in the same way when the entries on it lead to the same nodes. -/
theorem descend_congr : ∀ {p : List I} {t : A},
    (∀ q i rest t', p = q ++ i :: rest → descend child m t q = some t' →
      child (m' t' i) = child (m t' i)) →
    descend child m' t p = descend child m t p
  | [], _, _ => rfl
  | i :: p, t, h => by
    rw [descend, descend, h [] i p t rfl rfl]
    cases hchild : child (m t i) with
    | none => rfl
    | some t' =>
      refine descend_congr fun q j rest t'' hp hq => h (i :: q) j rest t'' (by rw [hp]; rfl) ?_
      rw [descend, hchild]
      exact hq

/-! ### Changing an entry -/

variable [DecidableEq A] [DecidableEq I]

/-- The memory with one entry changed. -/
def setEntry (m : A → I → E) (t : A) (i : I) (e : E) : A → I → E :=
  Function.update m t (Function.update (m t) i e)

theorem setEntry_self (m : A → I → E) (t : A) (i : I) (e : E) : setEntry m t i e t i = e := by
  rw [setEntry, Function.update_self, Function.update_self]

theorem setEntry_of_node_ne {m : A → I → E} {t t' : A} (h : t' ≠ t) (i : I) (e : E) :
    setEntry m t i e t' = m t' := by
  rw [setEntry, Function.update_of_ne h]

theorem setEntry_of_index_ne {m : A → I → E} {t t' : A} {i i' : I} (h : i' ≠ i) (e : E) :
    setEntry m t i e t' i' = m t' i' := by
  by_cases ht : t' = t
  · rw [ht, setEntry, Function.update_self, Function.update_of_ne h]
  · rw [setEntry_of_node_ne ht]

theorem TreeTo.relink (htree : TreeTo n child m root) {q : List I} (hq : q.length < n)
    (ht : descend child m root q = some t) {i : I} {e : E} (he : child e = child (m t i)) :
    (∀ p, descend child (setEntry m t i e) root p = descend child m root p) ∧
      TreeTo n child (setEntry m t i e) root ∧
      ∀ p j, p.length = n →
        leafAt child (setEntry m t i e) root p j = leafAt child m root p j := by
  have hsame : ∀ p, descend child (setEntry m t i e) root p = descend child m root p := by
    refine fun p => descend_congr fun q' j rest t' _ _ => ?_
    by_cases hj : j = i
    · subst hj
      by_cases ht' : t' = t
      · rw [ht', setEntry_self, he]
      · rw [setEntry_of_node_ne ht']
    · rw [setEntry_of_index_ne hj]
  refine ⟨hsame, fun p p' u hp hp' => ?_, fun p j hp => ?_⟩
  · rw [hsame, hsame]
    exact htree p p' u hp hp'
  · rw [leafAt, leafAt, hsame]
    cases hu : descend child m root p with
    | none => rfl
    | some u =>
      have hne : u ≠ t := by
        rintro rfl
        have := htree p q u (Nat.le_of_eq hp) (Nat.le_of_lt hq) hu ht
        rw [this] at hp
        omega
      rw [Option.map_some, Option.map_some, setEntry_of_node_ne hne]

/-- Writing a leaf changes that leaf and no path. -/
theorem TreeTo.setLeaf (htree : TreeTo n child m root) {q : List I} (hq : q.length = n)
    (ht : descend child m root q = some t) (i : I) (e : E) : (∀ p, p.length ≤ n →
      descend child (setEntry m t i e) root p = descend child m root p) ∧
      TreeTo n child (setEntry m t i e) root ∧
      ∀ p j, p.length = n → leafAt child (setEntry m t i e) root p j =
        if p = q ∧ j = i then some e else leafAt child m root p j := by
  have hsame : ∀ p, p.length ≤ n →
      descend child (setEntry m t i e) root p = descend child m root p := by
    refine fun p hp => descend_congr fun q' j rest t' heq hq' => ?_
    have hlen : q'.length < n := by
      rw [heq, List.length_append, List.length_cons] at hp
      omega
    have hne : t' ≠ t := by
      rintro rfl
      rw [htree q' q t' (Nat.le_of_lt hlen) (Nat.le_of_eq hq) hq' ht] at hlen
      omega
    rw [setEntry_of_node_ne hne]
  refine ⟨hsame, fun p p' u hp hp' => ?_, fun p j hp => ?_⟩
  · rw [hsame p hp, hsame p' hp']
    exact htree p p' u hp hp'
  · rw [leafAt, leafAt, hsame p (Nat.le_of_eq hp)]
    split_ifs with hpj
    · rw [hpj.1, ht, hpj.2, Option.map_some, setEntry_self]
    · cases hu : descend child m root p with
      | none => rfl
      | some u =>
        rw [Option.map_some, Option.map_some]
        by_cases hj : j = i
        · have hne : u ≠ t := by
            rintro rfl
            exact hpj ⟨htree p q u (Nat.le_of_eq hp) (Nat.le_of_eq hq) hu ht, hj⟩
          rw [setEntry_of_node_ne hne]
        · rw [setEntry_of_index_ne hj]

/-- A node that was not part of the tree, cleared and linked in where nothing was. -/
theorem TreeTo.attach (htree : TreeTo n child m root) {q : List I} (hq : q.length < n)
    (ht : descend child m root q = some t) {i : I} (hnone : child (m t i) = none) {f : A}
    (hfresh : ∀ p, p.length ≤ n → descend child m root p ≠ some f) {e₀ e : E}
    (he₀ : child e₀ = none) (he : child e = some f) :
    let m' := setEntry (Function.update m f fun _ => e₀) t i e
    (∀ p, p.length ≤ n → descend child m' root p =
      if p = q ++ [i] then some f else descend child m root p) ∧
      TreeTo n child m' root ∧
      ∀ p j, p.length = n → leafAt child m' root p j =
        if p = q ++ [i] then some e₀ else leafAt child m root p j := by
  intro m'
  have htf : t ≠ f := fun h => hfresh q (Nat.le_of_lt hq) (h ▸ ht)
  have hmf : m' f = fun _ => e₀ := by
    rw [show m' f = _ from setEntry_of_node_ne htf.symm _ _, Function.update_self]
  have hmt : m' t i = e := setEntry_self _ _ _ _
  -- away from the new node and the entry that leads to it nothing changes
  have hother : ∀ u j, u ≠ f → ¬ (u = t ∧ j = i) → m' u j = m u j := by
    intro u j hu hne
    by_cases hj : j = i
    · have hut : u ≠ t := fun h => hne ⟨h, hj⟩
      rw [show m' u = _ from setEntry_of_node_ne hut _ _, Function.update_of_ne hu]
    · rw [show m' u j = _ from setEntry_of_index_ne hj _, Function.update_of_ne hu]
  have hentry : ∀ u p j, p.length ≤ n → descend child m root p = some u → p ++ [j] ≠ q ++ [i] →
      m' u j = m u j := by
    refine fun u p j hp hu hne => hother u j (fun h => hfresh p hp (h ▸ hu)) fun h => hne ?_
    obtain ⟨rfl, rfl⟩ := h
    rw [htree p q u hp (Nat.le_of_lt hq) hu ht]
  have hq' : descend child m' root q = some t := by
    rw [← ht]
    refine descend_congr fun p j rest u heq hu => ?_
    have hlen : (p ++ [j]).length ≤ q.length := by
      rw [heq, List.length_append, List.length_append, List.length_cons, List.length_cons,
        List.length_nil]
      omega
    rw [hentry u p j (by rw [List.length_append] at hlen; omega) hu fun h => by
      rw [h, List.length_append, List.length_singleton] at hlen
      omega]
  have hdescend : ∀ p, p.length ≤ n → descend child m' root p =
      if p = q ++ [i] then some f else descend child m root p := by
    intro p hp
    by_cases hbelow : q ++ [i] <+: p
    · obtain ⟨rest, rfl⟩ := hbelow
      have hold : descend child m root (q ++ [i] ++ rest) = none := by
        rw [descend_append, descend_concat i ht, hnone, Option.bind_none]
      have hnew : descend child m' root (q ++ [i]) = some f := by
        rw [descend_concat i hq', hmt, he]
      rw [descend_append, hnew, Option.bind_some, hold]
      cases rest with
      | nil => rw [if_pos (List.append_nil _)]; rfl
      | cons j rest =>
        rw [descend, hmf, he₀, Option.bind_none, if_neg fun h => by
          have := congrArg List.length h
          simp at this]
    · have hpq : p ≠ q ++ [i] := by
        rintro rfl
        exact hbelow (List.prefix_refl _)
      rw [if_neg hpq]
      refine descend_congr fun p' j rest u heq hu => ?_
      have hlen : p'.length ≤ n := by
        rw [heq, List.length_append] at hp
        omega
      rw [hentry u p' j hlen hu fun h => hbelow ⟨rest, by
        rw [heq, ← h, List.append_assoc, List.singleton_append]⟩]
  refine ⟨hdescend, fun p p' u hp hp' hu hu' => ?_, fun p j hp => ?_⟩
  · rw [hdescend p hp] at hu
    rw [hdescend p' hp'] at hu'
    split_ifs at hu hu' with h1 h2 h2
    · rw [h1, h2]
    · exact absurd (hu'.trans hu.symm) (hfresh p' hp')
    · exact absurd (hu.trans hu'.symm) (hfresh p hp)
    · exact htree p p' u hp hp' hu hu'
  · rw [leafAt, leafAt, hdescend p (Nat.le_of_eq hp)]
    split_ifs with hpq
    · rw [Option.map_some, hmf]
    · cases hu : descend child m root p with
      | none => rfl
      | some u =>
        have hne : p ++ [j] ≠ q ++ [i] := fun h => by
          have := congrArg List.length h
          rw [List.length_append, List.length_append, List.length_singleton,
            List.length_singleton] at this
          omega
        rw [Option.map_some, Option.map_some, hentry u p j (Nat.le_of_eq hp) hu hne]

end Jani.Radix
