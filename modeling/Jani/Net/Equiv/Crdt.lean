import Jani.Net.Crdt
import Jani.Obj.Equiv.DiskFormat
import Mathlib.Data.Prod.Lex

/-!
# What the operations on replicated values do

The dots of a state are ordered by node and counter, so a state is determined by which additions
it has and which of them it shows as removed (`DotsShow`, `DotsShow.unique`).  In these terms a
merge is a union: `mergeDots_shows` for the dots and `netCrdtMerge_dots` for states, which fails
only if the additions of both sides do not fit (`mergeDots_none`).

Every operation keeps `valid`, and a state is read back from its stored form
(`netCrdtDecode_bytes`).
-/

namespace Jani

/-! ### The order of the dots -/

/-- What orders dots: the node, then the counter. -/
def NetDot.key (dot : NetDot) : ℕ ×ₗ ℕ := toLex (dot.node.toNat, dot.counter.toNat)

variable {a b : NetDot}

theorem dotLess_iff : dotLess a b ↔ a.key < b.key := by
  unfold dotLess NetDot.key
  rw [Prod.Lex.toLex_lt_toLex, UInt32.lt_iff_toNat_lt, UInt64.lt_iff_toNat_lt,
    ← UInt32.toNat_inj]

theorem NetDot.key_inj : a.key = b.key ↔ a.node = b.node ∧ a.counter = b.counter := by
  unfold NetDot.key
  rw [toLex_inj, Prod.mk.injEq, UInt32.toNat_inj, UInt64.toNat_inj]

instance : Trans dotLess dotLess dotLess where
  trans hab hbc := dotLess_iff.mpr ((dotLess_iff.mp hab).trans (dotLess_iff.mp hbc))

/-- The dots are in order. -/
abbrev DotsSorted (dots : List NetDot) : Prop := dots.Pairwise dotLess

/-- No two dots are of one node and counter. -/
abbrev DistinctKeys (dots : List NetDot) : Prop := (dots.map NetDot.key).Nodup

variable {dots : List NetDot}

theorem DotsSorted.distinctKeys (h : DotsSorted dots) : DistinctKeys dots :=
  h.map NetDot.key fun _ _ hab => (dotLess_iff.mp hab).ne

theorem DistinctKeys.inj (h : DistinctKeys dots) (ha : a ∈ dots) (hb : b ∈ dots)
    (hkey : a.key = b.key) : a = b :=
  List.inj_on_of_nodup_map h ha hb hkey

theorem insertDot_perm (dot : NetDot) : ∀ done, (insertDot dot done).Perm (dot :: done)
  | [] => List.Perm.refl _
  | last :: done => by
    rw [insertDot]
    split_ifs with h
    · exact ((insertDot_perm dot done).cons last).trans (List.Perm.swap dot last done)
    · exact List.Perm.refl _

variable {dot : NetDot}

theorem insertDot_sorted : ∀ {done : List NetDot},
    done.Pairwise (fun a b => dotLess b a) → (∀ x ∈ done, x.key ≠ dot.key) →
      (insertDot dot done).Pairwise fun a b => dotLess b a
  | [], _, _ => List.pairwise_singleton _ _
  | last :: done, hdone, hkeys => by
    rw [insertDot]
    obtain ⟨hlast, hrest⟩ := List.pairwise_cons.mp hdone
    split_ifs with h
    · refine List.pairwise_cons.mpr ⟨fun x hx => ?_, insertDot_sorted hrest fun x hx =>
        hkeys x (List.mem_cons_of_mem _ hx)⟩
      rcases List.mem_cons.mp ((insertDot_perm dot done).mem_iff.mp hx) with rfl | hx
      · exact h
      · exact hlast x hx
    · -- `last` and with it all of `done` come before the new dot
      have hless : dotLess last dot := by
        rw [dotLess_iff] at h ⊢
        exact lt_of_le_of_ne (not_lt.mp h) (hkeys last List.mem_cons_self)
      refine List.pairwise_cons.mpr ⟨fun x hx => ?_, hdone⟩
      rcases List.mem_cons.mp hx with rfl | hx
      · exact hless
      · exact Trans.trans (hlast x hx) hless

theorem foldl_insertDot_perm : ∀ dots done : List NetDot,
    (dots.foldl (fun done dot => insertDot dot done) done).Perm (dots ++ done)
  | [], _ => List.Perm.refl _
  | dot :: dots, done => by
    refine (foldl_insertDot_perm dots (insertDot dot done)).trans ?_
    exact ((insertDot_perm dot done).append_left dots).trans List.perm_middle

theorem sortDots_perm (dots : List NetDot) : (sortDots dots).Perm dots := by
  have h := foldl_insertDot_perm dots []
  rw [List.append_nil] at h
  exact (List.reverse_perm _).trans h

theorem foldl_insertDot_sorted : ∀ {dots done : List NetDot},
    done.Pairwise (fun a b => dotLess b a) → DistinctKeys (dots ++ done) →
      (dots.foldl (fun done dot => insertDot dot done) done).Pairwise fun a b => dotLess b a
  | [], _, hdone, _ => hdone
  | dot :: dots, done, hdone, hkeys => by
    have hnodup : DistinctKeys (dots ++ insertDot dot done) :=
      ((((insertDot_perm dot done).append_left dots).trans
        List.perm_middle).map NetDot.key).nodup_iff.mpr hkeys
    rw [List.foldl_cons]
    refine foldl_insertDot_sorted (insertDot_sorted hdone fun x hx heq => ?_) hnodup
    have hnot := (List.nodup_cons.mp hkeys).1
    rw [← heq] at hnot
    exact hnot (List.mem_map_of_mem (List.mem_append_right dots hx))

theorem sortDots_sorted (h : DistinctKeys dots) : DotsSorted (sortDots dots) := by
  have h' := @foldl_insertDot_sorted dots [] List.Pairwise.nil (by rwa [List.append_nil])
  exact List.pairwise_reverse.mpr h'

variable {dots' : List NetDot}

theorem DotsSorted.eq_of_mem_iff (h : DotsSorted dots) (h' : DotsSorted dots')
    (hmem : ∀ d, d ∈ dots ↔ d ∈ dots') : dots = dots' := by
  have hperm : dots.Perm dots' := (List.perm_ext_iff_of_nodup h.distinctKeys.of_map
    h'.distinctKeys.of_map).mpr hmem
  refine hperm.eq_of_pairwise (fun a b _ _ hab hba => ?_) h h'
  exact absurd ((dotLess_iff.mp hab).trans (dotLess_iff.mp hba)) (lt_irrefl _)

/-! ### Valid states -/

/-- What `valid` checks of one dot. -/
structure NetDot.Ok (vector : Fin 2 → UInt64) (dot : NetDot) : Prop where
  node_le : dot.node ≤ 1
  removed_le : dot.removed ≤ 1
  counter_ne : dot.counter ≠ 0
  counter_le : dot.counter ≤ vector (nodeIndex dot.node)

theorem dotsValid_iff (vector : Fin 2 → UInt64) : ∀ (dots : List NetDot) (prior : Option NetDot),
    dotsValid vector prior dots = true ↔
      (∀ d ∈ dots, d.Ok vector) ∧ (prior.toList ++ dots).IsChain dotLess
  | [], none => by simp [dotsValid]
  | [], some p => by simp [dotsValid]
  | dot :: dots, prior => by
    have ih := dotsValid_iff vector dots (some dot)
    have hok : dot.Ok vector ↔ ¬ (dot.node > 1 ∨ dot.removed > 1 ∨ dot.counter = 0 ∨
        dot.counter > vector (nodeIndex dot.node)) := by
      simp only [not_or, gt_iff_lt, UInt32.not_lt, UInt64.not_lt]
      exact ⟨fun h => ⟨h.1, h.2, h.3, h.4⟩, fun h => ⟨h.1, h.2.1, h.2.2.1, h.2.2.2⟩⟩
    have hchain : (prior.toList ++ dot :: dots).IsChain dotLess ↔
        ¬ (∃ p ∈ prior, ¬ dotLess p dot) ∧ (dot :: dots).IsChain dotLess := by
      cases prior with
      | none => simp
      | some p => simp [List.isChain_cons_cons]
    rw [dotsValid, List.forall_mem_cons, hok, hchain]
    split_ifs with h1 h2
    · simp [h1]
    · exact iff_of_false not_false fun h => h.2.1 h2
    · rw [ih]
      simp only [h1, h2, not_false_eq_true, true_and]
      rfl

variable {s : NetCrdt}

theorem NetCrdt.kind_of_valid (h : s.valid = true) : s.kind = 1 ∨ s.kind = 2 := by
  unfold NetCrdt.valid at h
  split_ifs at h with h1 h2 h3
  all_goals
    simp only [not_or, gt_iff_lt, UInt32.not_lt] at h1
    obtain ⟨hge, hle, -⟩ := h1
    rw [UInt32.le_iff_toNat_le] at hge hle
    rw [← UInt32.toNat_inj, ← UInt32.toNat_inj]
    have h1' : (1 : UInt32).toNat = 1 := rfl
    have h2' : (2 : UInt32).toNat = 2 := rfl
    omega

/-- A valid register: never written, or written by its author at its timestamp. -/
structure NetCrdt.Register (s : NetCrdt) : Prop where
  dots_eq : s.dots = []
  value_le : s.value.length ≤ netCrdtValueMax
  author_le : s.author ≤ 1
  empty : s.timestamp = 0 → s.value = [] ∧ s.author = 0 ∧ ∀ i, s.vector i = 0
  counted : s.timestamp ≠ 0 → s.vector (nodeIndex s.author) ≠ 0
  vector_le : ∀ i, s.vector i ≤ s.timestamp

/-- `net_crdt_valid` of a register, as a proposition. -/
theorem NetCrdt.valid_register (hkind : s.kind = 1) : s.valid = true ↔ s.Register := by
  have h12 : ¬ (s.kind < 1) ∧ ¬ (s.kind > 2) := by
    rw [hkind]
    decide
  have hmax : s.timestamp ≥ max (s.vector 0) (s.vector 1) ↔ ∀ i, s.vector i ≤ s.timestamp := by
    have hdef : max (s.vector 0) (s.vector 1) =
        if s.vector 0 ≤ s.vector 1 then s.vector 1 else s.vector 0 := rfl
    rw [Fin.forall_fin_two, ge_iff_le, hdef]
    split_ifs with h
    · exact ⟨fun h' => ⟨UInt64.le_trans h h', h'⟩, fun h' => h'.2⟩
    · exact ⟨fun h' => ⟨h', UInt64.le_trans (UInt64.le_of_lt (UInt64.not_le.mp h)) h'⟩,
        fun h' => h'.1⟩
  unfold NetCrdt.valid
  constructor
  · intro h
    split_ifs at h with h1 h2 h3
    · -- never written
      simp only [not_or, gt_iff_lt, Nat.not_lt, UInt32.not_lt] at h1
      simp only [decide_eq_true_eq, List.length_eq_zero_iff] at h
      have hzero : ∀ i, s.vector i = 0 := Fin.forall_fin_two.mpr ⟨h.2.2.1, h.2.2.2⟩
      refine ⟨List.length_eq_zero_iff.mp (not_not.mp h2), h1.2.2.2.1, h1.2.2.2.2,
        fun _ => ⟨h.1, h.2.1, hzero⟩,
        fun hne => absurd h3 hne, fun i => ?_⟩
      rw [hzero i]
      exact UInt64.zero_le
    · simp only [not_or, gt_iff_lt, Nat.not_lt, UInt32.not_lt] at h1
      simp only [decide_eq_true_eq] at h
      exact ⟨List.length_eq_zero_iff.mp (not_not.mp h2), h1.2.2.2.1, h1.2.2.2.2,
        fun heq => absurd heq h3, fun _ => h.1,
        hmax.mp h.2⟩
  · intro h
    have h1 : ¬ (s.kind < 1 ∨ s.kind > 2 ∨ s.dots.length > netCrdtDotsMax ∨
        s.value.length > netCrdtValueMax ∨ s.author > 1) := by
      simp only [not_or, gt_iff_lt, Nat.not_lt, UInt32.not_lt, h.dots_eq]
      exact ⟨UInt32.not_lt.mp h12.1, UInt32.not_lt.mp h12.2, Nat.zero_le _, h.value_le, h.author_le⟩
    rw [if_neg h1, if_pos hkind, if_neg (by rw [h.dots_eq]; simp)]
    by_cases hts : s.timestamp = 0
    · obtain ⟨hvalue, hauthor, hvector⟩ := h.empty hts
      rw [if_pos hts]
      simp [hvalue, hauthor, hvector]
    · rw [if_neg hts]
      exact decide_eq_true ⟨h.counted hts, hmax.mpr h.vector_le⟩

/-- A valid set. -/
structure NetCrdt.DotSet (s : NetCrdt) : Prop where
  dots_le : s.dots.length ≤ netCrdtDotsMax
  timestamp_eq : s.timestamp = 0
  author_eq : s.author = 0
  value_eq : s.value = []
  ok : ∀ d ∈ s.dots, d.Ok s.vector
  sorted : DotsSorted s.dots

theorem NetCrdt.valid_dots (hkind : s.kind = 2) : s.valid = true ↔ s.DotSet := by
  have h12 : ¬ (s.kind < 1) ∧ ¬ (s.kind > 2) ∧ s.kind ≠ 1 := by
    rw [hkind]
    decide
  have hdots := dotsValid_iff s.vector s.dots none
  rw [Option.toList_none, List.nil_append, List.isChain_iff_pairwise] at hdots
  unfold NetCrdt.valid
  constructor
  · intro h
    rw [if_neg h12.2.2] at h
    split_ifs at h with h1 h2
    simp only [not_or, gt_iff_lt, Nat.not_lt, UInt32.not_lt] at h1
    simp only [not_or, not_not, List.length_eq_zero_iff] at h2
    obtain ⟨hok, hsorted⟩ := hdots.mp h
    exact ⟨h1.2.2.1, h2.1, h2.2.1, h2.2.2, hok, hsorted⟩
  · intro h
    have h1 : ¬ (s.kind < 1 ∨ s.kind > 2 ∨ s.dots.length > netCrdtDotsMax ∨
        s.value.length > netCrdtValueMax ∨ s.author > 1) := by
      simp only [not_or, gt_iff_lt, Nat.not_lt, UInt32.not_lt, h.author_eq, h.value_eq]
      exact ⟨UInt32.not_lt.mp h12.1, UInt32.not_lt.mp h12.2.1, h.dots_le, Nat.zero_le _, by decide⟩
    have h4 : ¬ (s.timestamp ≠ 0 ∨ s.author ≠ 0 ∨ s.value.length ≠ 0) := by
      simp [h.timestamp_eq, h.author_eq, h.value_eq]
    rw [if_neg h1, if_neg h12.2.2, if_neg h4]
    exact hdots.mpr ⟨h.ok, h.sorted⟩

/-! ### Additions -/

/-- A dot without the mark of its removal. -/
structure Addition where
  node : UInt32
  counter : UInt64
  value : UInt64
deriving DecidableEq, Repr

def NetDot.addition (dot : NetDot) : Addition := ⟨dot.node, dot.counter, dot.value⟩

theorem NetDot.eq_iff : a = b ↔ a.addition = b.addition ∧ a.removed = b.removed := by
  constructor
  · rintro rfl
    exact ⟨rfl, rfl⟩
  · rintro ⟨haddition, hremoved⟩
    cases a
    cases b
    cases haddition
    cases hremoved
    rfl

/-- No two of the additions are of one node and counter. -/
def Unambiguous (added : Set Addition) : Prop :=
  ∀ a ∈ added, ∀ b ∈ added, a.node = b.node → a.counter = b.counter → a = b

variable {added removed : Set Addition} {p : Prop}

theorem Unambiguous.mono {added' : Set Addition} (h : Unambiguous added') (hsub : added ⊆ added') :
    Unambiguous added :=
  fun a ha b hb => h a (hsub ha) b (hsub hb)

/-- The flag is set if the proposition holds, and clear otherwise. -/
def Flags (flag : UInt32) (p : Prop) : Prop := flag = 1 ∧ p ∨ flag = 0 ∧ ¬ p

theorem Flags.or {flag flag' : UInt32} {q : Prop} (h : Flags flag p) (h' : Flags flag' q) :
    Flags (flag ||| flag') (p ∨ q) := by
  rcases h with ⟨rfl, hp⟩ | ⟨rfl, hp⟩ <;> rcases h' with ⟨rfl, hq⟩ | ⟨rfl, hq⟩
  · exact Or.inl ⟨rfl, Or.inl hp⟩
  · exact Or.inl ⟨rfl, Or.inl hp⟩
  · exact Or.inl ⟨rfl, Or.inr hq⟩
  · exact Or.inr ⟨rfl, not_or.mpr ⟨hp, hq⟩⟩

theorem Flags.iff_eq {flag flag' : UInt32} (h : Flags flag p) : Flags flag' p ↔ flag' = flag := by
  constructor
  · intro h'
    rcases h with ⟨rfl, hp⟩ | ⟨rfl, hp⟩ <;> rcases h' with ⟨rfl, hp'⟩ | ⟨rfl, hp'⟩
    · rfl
    · exact absurd hp hp'
    · exact absurd hp' hp
    · rfl
  · rintro rfl
    exact h

/-- The dots are the given additions, those in `removed` marked. -/
structure DotsShow (dots : List NetDot) (added removed : Set Addition) : Prop where
  mem_iff : ∀ d, d ∈ dots ↔ d.addition ∈ added ∧ Flags d.removed (d.addition ∈ removed)
  subset : removed ⊆ added

theorem DotsShow.exists_dot (h : DotsShow dots added removed) {a : Addition} (ha : a ∈ added) :
    ∃ d ∈ dots, d.addition = a := by
  by_cases hr : a ∈ removed
  · exact ⟨⟨a.node, 1, a.counter, a.value⟩, (h.mem_iff _).mpr ⟨ha, Or.inl ⟨rfl, hr⟩⟩, rfl⟩
  · exact ⟨⟨a.node, 0, a.counter, a.value⟩, (h.mem_iff _).mpr ⟨ha, Or.inr ⟨rfl, hr⟩⟩, rfl⟩

theorem DotsShow.unique (h : DotsShow dots added removed) (h' : DotsShow dots' added removed)
    (hsorted : DotsSorted dots) (hsorted' : DotsSorted dots') : dots = dots' :=
  hsorted.eq_of_mem_iff hsorted' fun d => (h.mem_iff d).trans (h'.mem_iff d).symm

theorem DotsShow.perm (h : DotsShow dots added removed) (hperm : dots'.Perm dots) :
    DotsShow dots' added removed :=
  ⟨fun d => hperm.mem_iff.trans (h.mem_iff d), h.subset⟩

/-! ### Merging dots -/

/-- Merging one dot joins its tombstone to the entry of its key, or appends it. -/
theorem mergeDot_spec : ∀ {dots : List NetDot}, DistinctKeys dots →
    (∀ x ∈ dots, x.key = dot.key → x.value = dot.value) →
    ∃ out, mergeDot dot dots = some out ∧
      (∀ k, k ∈ out.map NetDot.key ↔ k ∈ dots.map NetDot.key ∨ k = dot.key) ∧ DistinctKeys out ∧
      ∀ d, d ∈ out ↔ (d ∈ dots ∧ d.key ≠ dot.key) ∨
        (∃ x ∈ dots, x.key = dot.key ∧ d = { x with removed := x.removed ||| dot.removed }) ∨
        ((∀ x ∈ dots, x.key ≠ dot.key) ∧ d = dot)
  | [], _, _ => ⟨[dot], rfl, by simp, List.nodup_singleton _, by simp⟩
  | x :: dots, hkeys, hvalues => by
    obtain ⟨hx, hrest⟩ := List.nodup_cons.mp hkeys
    rw [mergeDot]
    by_cases hkey : x.key = dot.key
    · have hne : ¬ (x.node ≠ dot.node ∨ x.counter ≠ dot.counter) := by
        have := NetDot.key_inj.mp hkey
        simp [this]
      have hnone : ∀ y ∈ dots, y.key ≠ dot.key := fun y hy heq =>
        hx (by rw [hkey, ← heq]; exact List.mem_map_of_mem hy)
      rw [if_neg hne, if_neg (not_not.mpr (hvalues x List.mem_cons_self hkey))]
      refine ⟨_, rfl, fun k => ?_, hkeys, fun d => ?_⟩
      · change k ∈ x.key :: dots.map NetDot.key ↔ _
        rw [List.map_cons, ← hkey]
        exact ⟨Or.inl, fun h => h.elim id fun heq => heq ▸ List.mem_cons_self⟩
      · rw [List.mem_cons]
        constructor
        · rintro (rfl | hd)
          · exact Or.inr (Or.inl ⟨x, List.mem_cons_self, hkey, rfl⟩)
          · exact Or.inl ⟨List.mem_cons_of_mem _ hd, hnone d hd⟩
        · rintro (⟨hd, hdkey⟩ | ⟨y, hy, hykey, rfl⟩ | ⟨hnot, -⟩)
          · rcases List.mem_cons.mp hd with rfl | hd
            · exact absurd hkey hdkey
            · exact Or.inr hd
          · rcases List.mem_cons.mp hy with rfl | hy
            · exact Or.inl rfl
            · exact absurd hykey (hnone y hy)
          · exact absurd hkey (hnot x List.mem_cons_self)
    · have hne : x.node ≠ dot.node ∨ x.counter ≠ dot.counter := by
        rw [NetDot.key_inj] at hkey
        exact Classical.not_and_iff_not_or_not.mp hkey
      obtain ⟨out, hout, houtKeys, hdistinct, hmem⟩ := mergeDot_spec hrest fun y hy =>
        hvalues y (List.mem_cons_of_mem _ hy)
      rw [if_pos hne, hout]
      refine ⟨x :: out, rfl, fun k => ?_, ?_, fun d => ?_⟩
      · rw [List.map_cons, List.mem_cons, houtKeys, List.map_cons, List.mem_cons, or_assoc]
      · refine List.nodup_cons.mpr ⟨fun hmem => ?_, hdistinct⟩
        exact ((houtKeys _).mp hmem).elim hx hkey
      · rw [List.mem_cons, hmem]
        constructor
        · rintro (rfl | ⟨hd, hne⟩ | ⟨y, hy, hykey, rfl⟩ | ⟨hnot, rfl⟩)
          · exact Or.inl ⟨List.mem_cons_self, hkey⟩
          · exact Or.inl ⟨List.mem_cons_of_mem _ hd, hne⟩
          · exact Or.inr (Or.inl ⟨y, List.mem_cons_of_mem _ hy, hykey, rfl⟩)
          · exact Or.inr (Or.inr ⟨List.forall_mem_cons.mpr ⟨hkey, hnot⟩, rfl⟩)
        · rintro (⟨hd, hne⟩ | ⟨y, hy, hykey, rfl⟩ | ⟨hnot, rfl⟩)
          · rcases List.mem_cons.mp hd with rfl | hd
            · exact Or.inl rfl
            · exact Or.inr (Or.inl ⟨hd, hne⟩)
          · rcases List.mem_cons.mp hy with rfl | hy
            · exact absurd hykey hkey
            · exact Or.inr (Or.inr (Or.inl ⟨y, hy, hykey, rfl⟩))
          · exact Or.inr (Or.inr (Or.inr ⟨(List.forall_mem_cons.mp hnot).2, rfl⟩))

/-- The additions among some dots. -/
def additions (dots : List NetDot) : Set Addition := {a | ∃ d ∈ dots, d.addition = a}

/-- The additions that some dots show as removed. -/
def removals (dots : List NetDot) : Set Addition := {a | ∃ d ∈ dots, d.removed = 1 ∧ d.addition = a}

theorem DotsShow.additions_eq (h : DotsShow dots added removed) : additions dots = added := by
  ext a
  constructor
  · rintro ⟨d, hd, rfl⟩
    exact ((h.mem_iff d).mp hd).1
  · exact h.exists_dot

theorem DotsShow.removals_eq (h : DotsShow dots added removed) : removals dots = removed := by
  ext a
  constructor
  · rintro ⟨d, hd, hone, rfl⟩
    rcases ((h.mem_iff d).mp hd).2 with ⟨-, hr⟩ | ⟨hzero, -⟩
    · exact hr
    · rw [hone] at hzero
      exact absurd hzero (by decide)
  · intro ha
    exact ⟨⟨a.node, 1, a.counter, a.value⟩, (h.mem_iff _).mpr ⟨h.subset ha, Or.inl ⟨rfl, ha⟩⟩,
      rfl, rfl⟩

theorem additions_cons (dot : NetDot) (dots : List NetDot) :
    additions (dot :: dots) = insert dot.addition (additions dots) := by
  ext a
  simp [additions, eq_comm]

theorem removals_cons (dot : NetDot) (dots : List NetDot) :
    removals (dot :: dots) = {a | dot.removed = 1 ∧ dot.addition = a} ∪ removals dots := by
  ext a
  simp [removals]

/-- **One dot** is merged: its addition is there afterwards, and removed if it was on either
side. -/
theorem DotsShow.mergeDot {dots : List NetDot} {added removed : Set Addition}
    (h : DotsShow dots added removed) (hkeys : DistinctKeys dots)
    (hdot : dot.removed = 0 ∨ dot.removed = 1)
    (hunambiguous : Unambiguous (insert dot.addition added)) :
    ∃ out, mergeDot dot dots = some out ∧ DistinctKeys out ∧
      DotsShow out (insert dot.addition added)
        (removed ∪ {a | dot.removed = 1 ∧ dot.addition = a}) := by
  -- a dot of the same key is the same addition
  have hdots : ∀ x ∈ dots, x.key = dot.key ↔ x.addition = dot.addition := by
    intro x hx
    refine ⟨fun hkey => ?_, fun heq => ?_⟩
    · obtain ⟨hnode, hcounter⟩ := NetDot.key_inj.mp hkey
      exact hunambiguous _ (Set.mem_insert_of_mem _ ((h.mem_iff x).mp hx).1) _
        (Set.mem_insert _ _) hnode hcounter
    · exact NetDot.key_inj.mpr ⟨congrArg Addition.node heq, congrArg Addition.counter heq⟩
  have hflag : Flags dot.removed (dot.removed = 1 ∧ dot.addition = dot.addition) := by
    rcases hdot with hdot | hdot
    · exact Or.inr ⟨hdot, fun hand => absurd (hdot.symm.trans hand.1) (by decide)⟩
    · exact Or.inl ⟨hdot, hdot, rfl⟩
  obtain ⟨out, hout, -, hdistinct, hmem⟩ := mergeDot_spec hkeys fun x hx hkey =>
    congrArg Addition.value ((hdots x hx).mp hkey)
  refine ⟨out, hout, hdistinct, ⟨fun d => (hmem d).trans ?_, ?_⟩⟩
  · by_cases hd : d.addition = dot.addition
    · rw [hd]
      by_cases hin : dot.addition ∈ added
      · -- the addition was there: its one dot `x` is marked if either side was
        obtain ⟨x, hx, hxa⟩ := h.exists_dot hin
        have hxflag := ((h.mem_iff x).mp hx).2
        rw [hxa] at hxflag
        have hone : ∀ flag, Flags flag (dot.addition ∈
            removed ∪ {a | dot.removed = 1 ∧ dot.addition = a}) ↔
              flag = x.removed ||| dot.removed := fun _ => (hxflag.or hflag).iff_eq
        constructor
        · rintro (⟨hmem', hne⟩ | ⟨y, hy, hykey, rfl⟩ | ⟨hnot, -⟩)
          · exact absurd ((hdots d hmem').mpr hd) hne
          · obtain rfl := hkeys.inj hy hx (hykey.trans ((hdots x hx).mpr hxa).symm)
            exact ⟨Set.mem_insert _ _, (hone _).mpr rfl⟩
          · exact absurd ((hdots x hx).mpr hxa) (hnot x hx)
        · rintro ⟨-, hremoved⟩
          exact Or.inr (Or.inl ⟨x, hx, (hdots x hx).mpr hxa,
            NetDot.eq_iff.mpr ⟨hd.trans hxa.symm, (hone _).mp hremoved⟩⟩)
      · -- the addition is new
        have hnew : ∀ x ∈ dots, x.key ≠ dot.key := fun x hx hkey =>
          hin ((hdots x hx).mp hkey ▸ ((h.mem_iff x).mp hx).1)
        have hone : Flags dot.removed (dot.addition ∈
            removed ∪ {a | dot.removed = 1 ∧ dot.addition = a}) := by
          rcases hflag with ⟨hone, hand⟩ | ⟨hzero, hnand⟩
          · exact Or.inl ⟨hone, Or.inr hand⟩
          · exact Or.inr ⟨hzero, fun hor => hor.elim (fun hr => hin (h.subset hr)) hnand⟩
        constructor
        · rintro (⟨hmem', hne⟩ | ⟨y, hy, hykey, -⟩ | ⟨-, rfl⟩)
          · exact absurd ((hdots d hmem').mpr hd) hne
          · exact absurd hykey (hnew y hy)
          · exact ⟨Set.mem_insert _ _, hone⟩
        · rintro ⟨-, hremoved⟩
          exact Or.inr (Or.inr ⟨hnew, NetDot.eq_iff.mpr ⟨hd, hone.iff_eq.mp hremoved⟩⟩)
    · -- another addition is as before
      have hother : (d.addition ∈ removed ∪ {a | dot.removed = 1 ∧ dot.addition = a}) =
          (d.addition ∈ removed) :=
        propext ⟨fun hor => hor.elim id fun hand => absurd hand.2.symm hd, Or.inl⟩
      rw [Set.mem_insert_iff, or_iff_right hd, hother, ← h.mem_iff]
      constructor
      · rintro (⟨hmem', -⟩ | ⟨y, hy, hykey, rfl⟩ | ⟨-, rfl⟩)
        · exact hmem'
        · exact absurd ((hdots y hy).mp hykey) hd
        · exact absurd rfl hd
      · exact fun hmem' => Or.inl ⟨hmem', fun hkey => hd ((hdots d hmem').mp hkey)⟩
  · rintro a (ha | ⟨-, rfl⟩)
    · exact Set.mem_insert_of_mem _ (h.subset ha)
    · exact Set.mem_insert _ _

/-- Distinct dots are distinct additions, as long as no two additions have one node and counter. -/
theorem nodup_additions (h : DistinctKeys dots) : (dots.map NetDot.addition).Nodup := by
  refine List.Nodup.map_on (fun a ha b hb heq => h.inj ha hb ?_) h.of_map
  exact NetDot.key_inj.mpr ⟨congrArg Addition.node heq, congrArg Addition.counter heq⟩

/-- **Merging dots** is the union of what both sides show, and fails only if that has too many
additions. -/
theorem mergeDots_cases : ∀ {dots next : List NetDot} {added removed : Set Addition},
    DotsShow next added removed → DistinctKeys next → next.length ≤ netCrdtDotsMax →
    (∀ d ∈ dots, d.removed = 0 ∨ d.removed = 1) → Unambiguous (added ∪ additions dots) →
    (∃ out, mergeDots next dots = some out ∧ DistinctKeys out ∧ out.length ≤ netCrdtDotsMax ∧
      DotsShow out (added ∪ additions dots) (removed ∪ removals dots)) ∨
    (mergeDots next dots = none ∧ ∃ l : List Addition, l.Nodup ∧ netCrdtDotsMax < l.length ∧
      ∀ a ∈ l, a ∈ added ∪ additions dots)
  | [], next, added, removed, h, hkeys, hlength, _, _ => by
    refine Or.inl ⟨next, rfl, hkeys, hlength, ?_⟩
    have hadditions : additions [] = ∅ := by simp [additions]
    have hremovals : removals [] = ∅ := by simp [removals]
    rwa [hadditions, hremovals, Set.union_empty, Set.union_empty]
  | dot :: dots, next, added, removed, h, hkeys, hlength, hflags, hunambiguous => by
    obtain ⟨hflag, hflags⟩ := List.forall_mem_cons.mp hflags
    rw [additions_cons, Set.union_insert, ← Set.insert_union] at hunambiguous
    obtain ⟨merged, hmerged, hkeys', h'⟩ := h.mergeDot hkeys hflag
      (hunambiguous.mono Set.subset_union_left)
    rw [mergeDots, hmerged, additions_cons, Set.union_insert, ← Set.insert_union, removals_cons,
      ← Set.union_assoc]
    dsimp only
    split_ifs with hfull
    · refine Or.inr ⟨rfl, merged.map NetDot.addition, nodup_additions hkeys', ?_, fun a ha => ?_⟩
      · rwa [List.length_map]
      · obtain ⟨d, hd, rfl⟩ := List.mem_map.mp ha
        exact Or.inl ((h'.mem_iff d).mp hd).1
    · exact mergeDots_cases h' hkeys' (Nat.not_lt.mp hfull) hflags hunambiguous

variable {vector : Fin 2 → UInt64}

theorem NetDot.Ok.removed_cases (h : dot.Ok vector) : dot.removed = 0 ∨ dot.removed = 1 := by
  have hle := h.removed_le
  rw [UInt32.le_iff_toNat_le] at hle
  rw [← UInt32.toNat_inj, ← UInt32.toNat_inj]
  have h1 : (1 : UInt32).toNat = 1 := rfl
  have h0 : (0 : UInt32).toNat = 0 := rfl
  omega

/-! ### Vectors -/

/-- The vector counts one more operation of the node. -/
def Bumped (vector vector' : Fin 2 → UInt64) (node : UInt32) : Prop :=
  ∀ i, (vector' i).toNat = (vector i).toNat + if i = nodeIndex node then 1 else 0

theorem toNat_succ {x : UInt64} (h : x ≠ 0xFFFFFFFFFFFFFFFF) : (x + 1).toNat = x.toNat + 1 := by
  have hlt := x.toNat_lt
  have hne : x.toNat ≠ 2 ^ 64 - 1 := fun heq => h (UInt64.toNat_inj.mp heq)
  rw [UInt64.toNat_add]
  have h1 : (1 : UInt64).toNat = 1 := rfl
  omega

variable {node : UInt32}

theorem bumped_update (h : vector (nodeIndex node) ≠ 0xFFFFFFFFFFFFFFFF) :
    Bumped vector (Function.update vector (nodeIndex node) (vector (nodeIndex node) + 1)) node := by
  intro i
  by_cases hi : i = nodeIndex node
  · subst hi
    rw [Function.update_self, if_pos rfl, toNat_succ h]
  · rw [Function.update_of_ne hi, if_neg hi, Nat.add_zero]

variable {vector' : Fin 2 → UInt64}

theorem Bumped.le (h : Bumped vector vector' node) (i : Fin 2) : vector i ≤ vector' i := by
  rw [UInt64.le_iff_toNat_le, h i]
  exact Nat.le_add_right _ _

theorem Bumped.self (h : Bumped vector vector' node) :
    (vector' (nodeIndex node)).toNat = (vector (nodeIndex node)).toNat + 1 := by
  rw [h, if_pos rfl]

theorem toNat_max (x y : UInt64) : (max x y).toNat = max x.toNat y.toNat := by
  have hdef : max x y = if x ≤ y then y else x := rfl
  rw [hdef]
  split_ifs with h
  · exact (max_eq_right (UInt64.le_iff_toNat_le.mp h)).symm
  · exact (max_eq_left (UInt64.le_iff_toNat_le.mp (UInt64.le_of_lt (UInt64.not_le.mp h)))).symm

theorem NetDot.Ok.mono (hle : ∀ i, vector i ≤ vector' i) (h : dot.Ok vector) : dot.Ok vector' :=
  ⟨h.node_le, h.removed_le, h.counter_ne, UInt64.le_trans h.counter_le (hle _)⟩

/-! ### The operations -/

theorem netCrdtInit_some {kind : UInt32} (h : netCrdtInit kind = some s) :
    s.valid = true ∧ s = ⟨kind, fun _ => 0, 0, 0, [], []⟩ := by
  unfold netCrdtInit at h
  dsimp only at h
  split_ifs at h with hvalid
  cases h
  exact ⟨hvalid, rfl⟩

/-- **Inversion** of a set. -/
theorem netCrdtSet_some {s' : NetCrdt} {value : List UInt8}
    (h : netCrdtSet s node value = some s') :
    s.kind = 1 ∧ s.Register ∧ node ≤ 1 ∧ s'.kind = 1 ∧ s'.Register ∧ s'.author = node ∧
      s'.value = value ∧ s'.timestamp.toNat = s.timestamp.toNat + 1 ∧
      Bumped s.vector s'.vector node := by
  unfold netCrdtSet at h
  split_ifs at h with hif
  simp only [not_or, not_not, Bool.not_eq_true', Bool.not_eq_false, gt_iff_lt, Nat.not_lt,
    UInt32.not_lt] at hif
  obtain ⟨hvalid, hkind, hnode, hlength, hts, hvector⟩ := hif
  have hreg := (NetCrdt.valid_register hkind).mp hvalid
  have hbumped := bumped_update hvector
  have hsucc := toNat_succ hts
  cases h
  refine ⟨hkind, hreg, hnode, hkind, ?_, rfl, rfl, hsucc, hbumped⟩
  have hne : s.timestamp + 1 ≠ 0 := fun heq => by
    rw [heq] at hsucc
    exact absurd hsucc (by simp)
  refine ⟨hreg.dots_eq, hlength, hnode, fun heq => absurd heq hne, fun _ heq => ?_, fun i => ?_⟩
  · have := hbumped.self
    dsimp only at heq
    rw [heq] at this
    exact absurd this (by simp)
  · have hi := hbumped i
    have hle := UInt64.le_iff_toNat_le.mp (hreg.vector_le i)
    rw [UInt64.le_iff_toNat_le]
    dsimp only
    rw [hi, hsucc]
    split_ifs <;> omega

variable {value : UInt64}

/-- **An add** gives a new addition of the node. -/
theorem netCrdtAdd_some {s' : NetCrdt} (h : netCrdtAdd s node value = some s')
    (hshows : DotsShow s.dots added removed) :
    s.kind = 2 ∧ s.DotSet ∧ node ≤ 1 ∧ s'.kind = 2 ∧ s'.DotSet ∧ Bumped s.vector s'.vector node ∧
      DotsShow s'.dots (insert ⟨node, s'.vector (nodeIndex node), value⟩ added) removed := by
  unfold netCrdtAdd at h
  split_ifs at h with hif
  simp only [not_or, not_not, Bool.not_eq_true', Bool.not_eq_false, gt_iff_lt, UInt32.not_lt] at hif
  obtain ⟨hvalid, hkind, hnode, hlength, hvector⟩ := hif
  have hset := (NetCrdt.valid_dots hkind).mp hvalid
  have hbumped := bumped_update hvector
  have hself := hbumped.self
  rw [Function.update_self] at hself
  cases h
  dsimp only
  rw [Function.update_self]
  -- the new dot has a counter that no dot of the node has
  have hnew : ∀ d ∈ s.dots, d.key ≠
      (⟨node, 0, s.vector (nodeIndex node) + 1, value⟩ : NetDot).key := by
    intro d hd hkey
    obtain ⟨hdnode, hdcounter⟩ := NetDot.key_inj.mp hkey
    have hle := UInt64.le_iff_toNat_le.mp (hset.ok d hd).counter_le
    rw [hdcounter, hdnode] at hle
    dsimp only at hle
    omega
  have hkeys : DistinctKeys (s.dots ++ [⟨node, 0, s.vector (nodeIndex node) + 1, value⟩]) := by
    refine (List.perm_append_singleton _ _).map NetDot.key |>.nodup_iff.mpr ?_
    refine List.nodup_cons.mpr ⟨fun hmem => ?_, hset.sorted.distinctKeys⟩
    obtain ⟨d, hd, hkey⟩ := List.mem_map.mp hmem
    exact hnew d hd hkey
  have hperm := sortDots_perm (s.dots ++ [⟨node, 0, s.vector (nodeIndex node) + 1, value⟩])
  refine ⟨hkind, hset, hnode, hkind, ?_, hbumped, DotsShow.perm ?_ hperm⟩
  · refine ⟨?_, hset.timestamp_eq, hset.author_eq, hset.value_eq, fun d hd => ?_,
      sortDots_sorted hkeys⟩
    · change (sortDots _).length ≤ _
      rw [hperm.length_eq, List.length_append, List.length_singleton]
      have := hset.dots_le
      omega
    · rcases List.mem_append.mp (hperm.mem_iff.mp hd) with hd | hd
      · exact (hset.ok d hd).mono hbumped.le
      · obtain rfl := List.mem_singleton.mp hd
        refine ⟨hnode, (by decide : (0 : UInt32) ≤ 1), fun heq => ?_, ?_⟩
        · dsimp only at heq
          rw [heq] at hself
          exact absurd hself (by simp)
        · dsimp only
          rw [Function.update_self]
          exact UInt64.le_refl _
  · have hfresh : (⟨node, s.vector (nodeIndex node) + 1, value⟩ : Addition) ∉ added := by
      intro hmem
      obtain ⟨d, hd, heq⟩ := hshows.exists_dot hmem
      exact hnew d hd (NetDot.key_inj.mpr ⟨congrArg Addition.node heq,
        congrArg Addition.counter heq⟩)
    refine ⟨fun d => ?_, fun a ha => Set.mem_insert_of_mem _ (hshows.subset ha)⟩
    rw [List.mem_append, List.mem_singleton, Set.mem_insert_iff, hshows.mem_iff, or_and_right,
      or_comm, NetDot.eq_iff]
    refine or_congr_left (and_congr_right fun heq => ?_)
    dsimp only [NetDot.addition] at heq ⊢
    rw [heq]
    exact (Flags.iff_eq (Or.inr ⟨rfl, fun hr => hfresh (hshows.subset hr)⟩)).symm

theorem addition_markRemoved (value : UInt64) (d : NetDot) :
    (markRemoved value d).addition = d.addition := by
  unfold markRemoved
  split_ifs <;> rfl

theorem key_markRemoved (value : UInt64) (d : NetDot) : (markRemoved value d).key = d.key := by
  unfold markRemoved
  split_ifs <;> rfl

theorem flags_markRemoved {d : NetDot} (h : Flags d.removed p) :
    Flags (markRemoved value d).removed (p ∨ d.value = value) := by
  unfold markRemoved
  rcases h with ⟨hone, hp⟩ | ⟨hzero, hp⟩
  · rw [if_neg (fun hand => absurd (hone.symm.trans hand.2) (by decide))]
    exact Or.inl ⟨hone, Or.inl hp⟩
  · by_cases hv : d.value = value
    · rw [if_pos ⟨hv, hzero⟩]
      exact Or.inl ⟨rfl, Or.inr hv⟩
    · rw [if_neg fun hand => hv hand.1]
      exact Or.inr ⟨hzero, not_or.mpr ⟨hp, hv⟩⟩

/-- **A remove** marks the additions of its value. -/
theorem DotsShow.map_markRemoved (h : DotsShow dots added removed) (value : UInt64) :
    DotsShow (dots.map (markRemoved value)) added (removed ∪ {a ∈ added | a.value = value}) := by
  have hflags : ∀ x ∈ dots, Flags (markRemoved value x).removed
      (x.addition ∈ removed ∪ {a ∈ added | a.value = value}) := by
    intro x hx
    obtain ⟨hadded, hflag⟩ := (h.mem_iff x).mp hx
    have hmark : Flags (markRemoved value x).removed (x.addition ∈ removed ∨ x.value = value) :=
      flags_markRemoved hflag
    have hiff : x.addition ∈ removed ∪ {a ∈ added | a.value = value} ↔
        x.addition ∈ removed ∨ x.value = value :=
      or_congr_right ⟨fun hand => hand.2, fun hv => ⟨hadded, hv⟩⟩
    rwa [← hiff] at hmark
  refine ⟨fun d => ?_, fun a ha => ha.elim (fun hr => h.subset hr) fun hand => hand.1⟩
  rw [List.mem_map]
  constructor
  · rintro ⟨x, hx, rfl⟩
    rw [addition_markRemoved]
    exact ⟨((h.mem_iff x).mp hx).1, hflags x hx⟩
  · rintro ⟨hadded, hflag⟩
    obtain ⟨x, hx, hxa⟩ := h.exists_dot hadded
    refine ⟨x, hx, NetDot.eq_iff.mpr ⟨(addition_markRemoved value x).trans hxa, ?_⟩⟩
    rw [← hxa] at hflag
    exact hflag.iff_eq.mp (hflags x hx)

theorem NetDot.Ok.markRemoved {vector : Fin 2 → UInt64} {d : NetDot} (h : d.Ok vector)
    (value : UInt64) : (markRemoved value d).Ok vector := by
  unfold Jani.markRemoved
  split_ifs
  · exact ⟨h.node_le, (by decide : (1 : UInt32) ≤ 1), h.counter_ne, h.counter_le⟩
  · exact h

/-- **Inversion** of a remove: one that finds nothing to mark changes nothing. -/
theorem netCrdtRemove_some {s' : NetCrdt} (h : netCrdtRemove s node value = some s') :
    s.kind = 2 ∧ s.DotSet ∧ node ≤ 1 ∧ s'.kind = 2 ∧ s'.DotSet ∧
      s'.dots = s.dots.map (markRemoved value) ∧ (Bumped s.vector s'.vector node ∨ s' = s) := by
  unfold netCrdtRemove at h
  split_ifs at h with hif
  simp only [not_or, not_not, Bool.not_eq_true', Bool.not_eq_false, gt_iff_lt, UInt32.not_lt] at hif
  obtain ⟨hvalid, hkind, hnode, hvector⟩ := hif
  have hset := (NetCrdt.valid_dots hkind).mp hvalid
  dsimp only at h
  generalize hvec : (if (s.dots.any fun dot => dot.value = value ∧ dot.removed = 0) = true then
    Function.update s.vector (nodeIndex node) (s.vector (nodeIndex node) + 1)
    else s.vector) = vector' at h
  obtain rfl := Option.some.inj h
  have hcases : Bumped s.vector vector' node ∨
      vector' = s.vector ∧ s.dots.map (markRemoved value) = s.dots := by
    rw [← hvec]
    split_ifs with hany
    · exact Or.inl (bumped_update hvector)
    · refine Or.inr ⟨rfl, (List.map_congr_left fun d hd => ?_).trans (List.map_id _)⟩
      have hnot : ¬ (d.value = value ∧ d.removed = 0) := fun hand =>
        hany (List.any_eq_true.mpr ⟨d, hd, decide_eq_true hand⟩)
      exact if_neg hnot
  have hle : ∀ i, s.vector i ≤ vector' i := by
    rcases hcases with hbumped | ⟨rfl, -⟩
    · exact hbumped.le
    · exact fun i => UInt64.le_refl _
  refine ⟨hkind, hset, hnode, hkind, ⟨?_, hset.timestamp_eq, hset.author_eq, hset.value_eq,
    fun d hd => ?_, ?_⟩, rfl, ?_⟩
  · change (s.dots.map _).length ≤ _
    rw [List.length_map]
    exact hset.dots_le
  · obtain ⟨x, hx, rfl⟩ := List.mem_map.mp hd
    exact ((hset.ok x hx).mono hle).markRemoved value
  · refine List.Pairwise.map _ (fun a b hab => ?_) hset.sorted
    rw [dotLess_iff, key_markRemoved, key_markRemoved]
    exact dotLess_iff.mp hab
  · rcases hcases with hbumped | ⟨hvector', hdots⟩
    · exact Or.inl hbumped
    · exact Or.inr (NetCrdt.ext rfl hvector' rfl rfl rfl hdots)

/-! ### Merge -/

/-- The write of `b` is not later than that of `a`. -/
def NotLater (b a : NetCrdt) : Prop :=
  b.timestamp < a.timestamp ∨ (b.timestamp = a.timestamp ∧ b.author ≤ a.author)

/-- **A merge of registers** keeps the later write; it fails only if one write was stored with two
values. -/
theorem netCrdtMerge_register {a b : NetCrdt} (ha : a.kind = 1) (hb : b.kind = 1)
    (hareg : a.Register) (hbreg : b.Register)
    (hsame : a.timestamp = b.timestamp → a.author = b.author → a.value = b.value) :
    ∃ s, netCrdtMerge a b = some s ∧ s.kind = 1 ∧ s.Register ∧
      (∀ i, (s.vector i).toNat = max (a.vector i).toNat (b.vector i).toNat) ∧
      ((s.timestamp = a.timestamp ∧ s.author = a.author ∧ s.value = a.value ∧ NotLater b a) ∨
        (s.timestamp = b.timestamp ∧ s.author = b.author ∧ s.value = b.value ∧ NotLater a b)) := by
  have hvalid : ¬ ((!a.valid) = true ∨ (!b.valid) = true ∨ a.kind ≠ b.kind) := by
    rw [(NetCrdt.valid_register ha).mpr hareg, (NetCrdt.valid_register hb).mpr hbreg, ha, hb]
    simp
  have hconflict : ¬ (a.timestamp = b.timestamp ∧ a.author = b.author ∧ a.value ≠ b.value) :=
    fun hand => hand.2.2 (hsame hand.1 hand.2.1)
  -- the kept register `x` has the larger timestamp, so it is valid with the joint vector
  have hkeep : ∀ x y : NetCrdt, x.Register → y.Register → NotLater y x →
      ∀ vector : Fin 2 → UInt64,
        (∀ i, (vector i).toNat = max (x.vector i).toNat (y.vector i).toNat) →
          ({ x with vector := vector } : NetCrdt).Register := by
    intro x y hx hy hlater vector hmax
    have hts : y.timestamp.toNat ≤ x.timestamp.toNat := by
      rcases hlater with h | h
      · exact (UInt64.lt_iff_toNat_lt.mp h).le
      · rw [h.1]
    have hyle := fun i => UInt64.le_iff_toNat_le.mp (hy.vector_le i)
    have hxle := fun i => UInt64.le_iff_toNat_le.mp (hx.vector_le i)
    refine ⟨hx.dots_eq, hx.value_le, hx.author_le, fun hzero => ?_,
      fun hne hzero => ?_, fun i => ?_⟩
    · obtain ⟨hvalue, hauthor, -⟩ := hx.empty hzero
      refine ⟨hvalue, hauthor, fun i => UInt64.toNat_inj.mp ?_⟩
      have hzero' : x.timestamp.toNat = 0 := congrArg UInt64.toNat hzero
      have h1 := hxle i
      have h2 := hyle i
      have h3 := hmax i
      change (vector i).toNat = 0
      omega
    · refine hx.counted hne (UInt64.toNat_inj.mp ?_)
      have h3 := hmax (nodeIndex x.author)
      have hzero' : (vector (nodeIndex x.author)).toNat = 0 := congrArg UInt64.toNat hzero
      change (x.vector (nodeIndex x.author)).toNat = 0
      omega
    · have h1 := hxle i
      have h2 := hyle i
      have h3 := hmax i
      rw [UInt64.le_iff_toNat_le]
      dsimp only
      omega
  unfold netCrdtMerge
  rw [if_neg hvalid]
  dsimp only
  rw [if_pos ha, if_neg hconflict]
  split
  · rename_i hlater
    have hnot : NotLater a b := hlater.imp id fun h => ⟨h.1.symm, UInt32.le_of_lt h.2⟩
    refine ⟨_, rfl, hb, hkeep b a hbreg hareg hnot _ fun i => ?_, fun i => toNat_max _ _,
      Or.inr ⟨rfl, rfl, rfl, hnot⟩⟩
    rw [toNat_max, max_comm]
  · rename_i hlater
    have hnot : NotLater b a := by
      simp only [not_or, not_and, gt_iff_lt, UInt64.not_lt, UInt32.not_lt] at hlater
      by_cases heq : b.timestamp = a.timestamp
      · exact Or.inr ⟨heq, hlater.2 heq⟩
      · exact Or.inl (UInt64.lt_of_le_of_ne hlater.1 heq)
    exact ⟨_, rfl, ha, hkeep a b hareg hbreg hnot _ fun i => toNat_max _ _, fun i => toNat_max _ _,
      Or.inl ⟨rfl, rfl, rfl, hnot⟩⟩

theorem NetDot.Ok.of_addition {x d : NetDot} (h : x.Ok vector) (heq : x.addition = d.addition)
    (hflag : Flags d.removed p) : d.Ok vector := by
  have hnode : x.node = d.node := congrArg Addition.node heq
  have hcounter : x.counter = d.counter := congrArg Addition.counter heq
  refine ⟨hnode ▸ h.node_le, ?_, hcounter ▸ h.counter_ne, hnode ▸ hcounter ▸ h.counter_le⟩
  rcases hflag with ⟨hone, -⟩ | ⟨hzero, -⟩
  · rw [hone]
    decide
  · rw [hzero]
    decide

/-- **A merge of sets** is the union of their additions and removals; it fails only if the
additions do not fit, as long as no two additions have one node and counter. -/
theorem netCrdtMerge_dots {a b : NetCrdt} (ha : a.kind = 2) (hb : b.kind = 2) (haset : a.DotSet)
    (hbset : b.DotSet) {added' removed' : Set Addition} (hashows : DotsShow a.dots added removed)
    (hbshows : DotsShow b.dots added' removed') (hunambiguous : Unambiguous (added ∪ added')) :
    (∃ s, netCrdtMerge a b = some s ∧ s.kind = 2 ∧ s.DotSet ∧
      (∀ i, (s.vector i).toNat = max (a.vector i).toNat (b.vector i).toNat) ∧
      DotsShow s.dots (added ∪ added') (removed ∪ removed')) ∨
    (netCrdtMerge a b = none ∧ ∃ l : List Addition, l.Nodup ∧ netCrdtDotsMax < l.length ∧
      ∀ x ∈ l, x ∈ added ∪ added') := by
  have hvalid : ¬ ((!a.valid) = true ∨ (!b.valid) = true ∨ a.kind ≠ b.kind) := by
    rw [(NetCrdt.valid_dots ha).mpr haset, (NetCrdt.valid_dots hb).mpr hbset, ha, hb]
    simp
  have hkind : a.kind ≠ 1 := by
    rw [ha]
    decide
  have hcases := mergeDots_cases hashows haset.sorted.distinctKeys haset.dots_le
    (fun d hd => (hbset.ok d hd).removed_cases) (hbshows.additions_eq.symm ▸ hunambiguous)
  rw [hbshows.additions_eq, hbshows.removals_eq] at hcases
  unfold netCrdtMerge
  rw [if_neg hvalid]
  dsimp only
  rw [if_neg hkind]
  rcases hcases with ⟨out, hout, hkeys, hlength, hshows⟩ | ⟨hnone, hmany⟩
  · rw [hout]
    have hperm := sortDots_perm out
    refine Or.inl ⟨_, rfl, ha, ⟨?_, haset.timestamp_eq, haset.author_eq, haset.value_eq,
      fun d hd => ?_, sortDots_sorted hkeys⟩, fun i => toNat_max _ _, hshows.perm hperm⟩
    · exact hperm.length_eq.trans_le hlength
    · obtain ⟨hadded, hflag⟩ := (hshows.mem_iff d).mp (hperm.mem_iff.mp hd)
      rcases hadded with hadded | hadded
      · obtain ⟨x, hx, hxa⟩ := hashows.exists_dot hadded
        refine ((haset.ok x hx).of_addition hxa hflag).mono fun i => ?_
        rw [UInt64.le_iff_toNat_le, toNat_max]
        exact le_max_left _ _
      · obtain ⟨x, hx, hxa⟩ := hbshows.exists_dot hadded
        refine ((hbset.ok x hx).of_addition hxa hflag).mono fun i => ?_
        rw [UInt64.le_iff_toNat_le, toNat_max]
        exact le_max_right _ _
  · rw [hnone]
    exact Or.inr ⟨rfl, hmany⟩

/-! ### Stored form -/

theorem length_dot_bytes (d : NetDot) : d.bytes.length = 24 := by simp [NetDot.bytes]

theorem NetDot.ofBytes_bytes_append (d : NetDot) (r : List UInt8) :
    NetDot.ofBytes (d.bytes ++ r) = d := by
  simp [NetDot.ofBytes, NetDot.bytes]

theorem NetCrdt.length_headerBytes (s : NetCrdt) : s.headerBytes.length = 40 := by
  simp [NetCrdt.headerBytes, netCrdtMagic]

theorem dotArray_read (hlength : dots.length ≤ netCrdtDotsMax) {l : List UInt8}
    (hl : l.length = 296) : ((List.range netCrdtDotsMax).map fun i => NetDot.ofBytes ((l ++
      (dots ++ List.replicate (netCrdtDotsMax - dots.length) zeroDot).flatMap NetDot.bytes).drop
        (296 + 24 * i))) = dots ++ List.replicate (netCrdtDotsMax - dots.length) zeroDot := by
  have hsize : (dots ++ List.replicate (netCrdtDotsMax - dots.length) zeroDot).length =
      netCrdtDotsMax := by
    rw [List.length_append, List.length_replicate]
    omega
  refine List.ext_get (by rw [List.length_map, List.length_range, hsize]) fun i hi hi' => ?_
  rw [List.get_eq_getElem, List.getElem_map, List.getElem_range, ← List.drop_drop,
    List.drop_left' hl]
  obtain ⟨r, hr⟩ := drop_flatMap NetDot.bytes length_dot_bytes []
    (dots ++ List.replicate (netCrdtDotsMax - dots.length) zeroDot) i hi'
  rw [List.append_nil] at hr
  rw [hr, NetDot.ofBytes_bytes_append]

theorem NetCrdt.lengths_of_valid (h : s.valid = true) :
    s.dots.length ≤ netCrdtDotsMax ∧ s.value.length ≤ netCrdtValueMax := by
  rcases s.kind_of_valid h with hkind | hkind
  · have hreg := (NetCrdt.valid_register hkind).mp h
    rw [hreg.dots_eq]
    exact ⟨Nat.zero_le _, hreg.value_le⟩
  · have hset := (NetCrdt.valid_dots hkind).mp h
    rw [hset.value_eq]
    exact ⟨hset.dots_le, Nat.zero_le _⟩

theorem NetCrdt.length_valueBytes (h : s.valid = true) :
    (s.value ++ List.replicate (netCrdtValueMax - s.value.length) 0).length = 256 := by
  have := (NetCrdt.lengths_of_valid h).2
  rw [List.length_append, List.length_replicate]
  unfold netCrdtValueMax at *
  omega

theorem NetCrdt.length_bytes (h : s.valid = true) : s.bytes.length = netCrdtBytes := by
  have hdots := (NetCrdt.lengths_of_valid h).1
  unfold NetCrdt.bytes
  rw [List.length_append, List.length_append, NetCrdt.length_headerBytes,
    NetCrdt.length_valueBytes h, length_flatMap_const _ length_dot_bytes, List.length_append,
    List.length_replicate]
  unfold netCrdtBytes
  unfold netCrdtDotsMax at *
  omega

/-- The decoder reads the header's fields back. -/
theorem NetCrdt.header_fields (s : NetCrdt) {b r : List UInt8} (hb : b = s.headerBytes ++ r)
    (hdots : s.dots.length < 2 ^ 16) :
    b.take 4 = netCrdtMagic ∧ b.getD 4 0 = 1 ∧ b.getD 5 0 = s.kind.toUInt8 ∧
      ofLeBytes ((b.drop 6).take 2) = s.dots.length ∧ u64At b 8 = s.vector 0 ∧
      u64At b 16 = s.vector 1 ∧ u64At b 24 = s.timestamp ∧ u32At b 32 = s.author ∧
      u32At b 36 = UInt32.ofNat s.value.length := by
  have hfront : ∀ r : List UInt8,
      netCrdtMagic ++ [1, s.kind.toUInt8] ++ leBytes 2 s.dots.length ++ r =
      0x4A :: 0x43 :: 0x35 :: 0x52 :: 1 :: s.kind.toUInt8 :: (leBytes 2 s.dots.length ++ r) := by
    intro r
    simp [netCrdtMagic]
  have hlen : (netCrdtMagic ++ [1, s.kind.toUInt8] ++ leBytes 2 s.dots.length).length = 8 := by
    simp [netCrdtMagic]
  have hsplit : s.headerBytes ++ r =
      (netCrdtMagic ++ [1, s.kind.toUInt8] ++ leBytes 2 s.dots.length) ++ (le64 (s.vector 0) ++
        (le64 (s.vector 1) ++ (le64 s.timestamp ++ (le32 s.author ++
          (le32 (UInt32.ofNat s.value.length) ++ r))))) := by
    simp [NetCrdt.headerBytes]
  rw [hb, hsplit]
  refine ⟨?_, ?_, ?_, ?_, ?_, ?_, ?_, ?_, ?_⟩
  · rw [hfront]
    rfl
  · rw [hfront]
    rfl
  · rw [hfront]
    rfl
  · rw [hfront]
    change ofLeBytes ((leBytes 2 s.dots.length ++ _).take 2) = _
    rw [List.take_left' (length_leBytes 2 _), ofLeBytes_leBytes]
    exact Nat.mod_eq_of_lt hdots
  · rw [show 8 = 8 + 0 from rfl, u64At_append_right hlen]
    simp
  · rw [show 16 = 8 + 8 from rfl, u64At_append_right hlen]
    simp
  · rw [show 24 = 8 + 16 from rfl, u64At_append_right hlen]
    simp
  · rw [show 32 = 8 + 24 from rfl, u32At_append_right hlen]
    simp
  · rw [show 36 = 8 + 28 from rfl, u32At_append_right hlen]
    simp

/-- **Round trip**: a valid state is read back from its stored form. -/
theorem netCrdtDecode_bytes (h : s.valid = true) : netCrdtDecode s.bytes = some s := by
  have hlength := NetCrdt.length_bytes h
  obtain ⟨hdots, hvalue⟩ := NetCrdt.lengths_of_valid h
  have hvalueBytes := NetCrdt.length_valueBytes h
  have hdots16 : s.dots.length < 2 ^ 16 := by
    unfold netCrdtDotsMax at hdots
    omega
  have hdrop : (s.bytes.drop 40).take netCrdtValueMax =
      s.value ++ List.replicate (netCrdtValueMax - s.value.length) 0 := by
    unfold NetCrdt.bytes
    rw [List.append_assoc, List.drop_left' s.length_headerBytes]
    exact List.take_left' hvalueBytes
  have harray := dotArray_read hdots (l := s.headerBytes ++
    (s.value ++ List.replicate (netCrdtValueMax - s.value.length) 0)) (by
      rw [List.length_append, s.length_headerBytes, hvalueBytes])
  have hb : s.bytes = s.headerBytes ++ ((s.value ++
      List.replicate (netCrdtValueMax - s.value.length) 0) ++ (s.dots ++
        List.replicate (netCrdtDotsMax - s.dots.length) zeroDot).flatMap NetDot.bytes) :=
    List.append_assoc _ _ _
  obtain ⟨hmagic, hone, hkind, hcount, hv0, hv1, hts, hauthor, hlen⟩ := s.header_fields hb hdots16
  have hlen' : (u32At s.bytes 36).toNat = s.value.length := by
    rw [hlen]
    refine UInt32.toNat_ofNat_of_lt' ?_
    unfold netCrdtValueMax at hvalue
    change _ < 2 ^ 32
    omega
  have hkind' : (s.bytes.getD 5 0).toUInt32 = s.kind := by
    rw [hkind]
    rcases s.kind_of_valid h with hk | hk <;> rw [hk] <;> rfl
  have hvector : ![u64At s.bytes 8, u64At s.bytes 16] = s.vector :=
    funext (Fin.forall_fin_two.mpr ⟨hv0, hv1⟩)
  have harray' : ((List.range netCrdtDotsMax).map fun i =>
      NetDot.ofBytes (s.bytes.drop (296 + 24 * i))) =
        s.dots ++ List.replicate (netCrdtDotsMax - s.dots.length) zeroDot := harray
  have htails : ¬ (s.dots.length > netCrdtDotsMax ∨ s.value.length > netCrdtValueMax ∨
      (∃ byte ∈ (s.value ++ List.replicate (netCrdtValueMax - s.value.length) 0).drop
        s.value.length, byte ≠ 0) ∨
      ∃ dot ∈ (s.dots ++ List.replicate (netCrdtDotsMax - s.dots.length) zeroDot).drop
        s.dots.length, dot ≠ zeroDot) := by
    rw [List.drop_left, List.drop_left]
    refine not_or.mpr ⟨Nat.not_lt.mpr hdots,
      not_or.mpr ⟨Nat.not_lt.mpr hvalue, not_or.mpr ⟨?_, ?_⟩⟩⟩
    · rintro ⟨byte, hbyte, hne⟩
      exact hne (List.eq_of_mem_replicate hbyte)
    · rintro ⟨dot, hdot, hne⟩
      exact hne (List.eq_of_mem_replicate hdot)
  unfold netCrdtDecode
  rw [if_neg (not_not.mpr hlength), if_neg (not_or.mpr ⟨not_not.mpr hmagic, not_not.mpr hone⟩)]
  dsimp only
  rw [hdrop, harray', hlen', hcount, if_neg htails, hkind', hvector, hts, hauthor, List.take_left,
    List.take_left]
  exact if_pos h

theorem netCrdtEncode_eq_some {bytes : List UInt8} :
    netCrdtEncode s = some bytes ↔ s.valid = true ∧ bytes = s.bytes := by
  unfold netCrdtEncode
  split_ifs with h
  · simp [h, eq_comm]
  · simp [h]

theorem valid_of_netCrdtDecode {bytes : List UInt8} (h : netCrdtDecode bytes = some s) :
    s.valid = true := by
  unfold netCrdtDecode at h
  dsimp only at h
  split_ifs at h with h1 h2 h3 h4
  obtain rfl := Option.some.inj h
  exact h4

end Jani
