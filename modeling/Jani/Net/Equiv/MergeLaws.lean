import Jani.Lib.PartialJoin
import Jani.Net.Equiv.Crdt

/-!
# The laws of a merge

The valid states of one kind are ordered by what they know.  A register is below another one if its
write is earlier or the same and it counts no more operations; a set is below another one if that
has its additions and removals and counts no fewer operations.  In both orders `net_crdt_merge`
gives least upper bounds (`registerState_join`, `setState_join`), and a merge of sets fails only if
there is no upper bound (`setState_bounded`), so the laws are those of a partial join.
-/

namespace Jani

/-! ### Merges without a contradiction -/

theorem mergeDot_agrees {dot : NetDot} : ∀ {dots out : List NetDot}, DistinctKeys dots →
    mergeDot dot dots = some out → ∀ x ∈ dots, x.key = dot.key → x.value = dot.value
  | [], _, _, _, _, hx, _ => absurd hx List.not_mem_nil
  | y :: dots, out, hkeys, h, x, hx, hkey => by
    obtain ⟨hy, hrest⟩ := List.nodup_cons.mp hkeys
    rw [mergeDot] at h
    split at h
    · rename_i hne
      obtain ⟨out', hout', -⟩ := Option.map_eq_some_iff.mp h
      rcases List.mem_cons.mp hx with rfl | hx
      · rw [NetDot.key_inj] at hkey
        exact (hne.elim (absurd hkey.1) (absurd hkey.2))
      · exact mergeDot_agrees hrest hout' x hx hkey
    · rename_i hne
      have hykey : y.key = dot.key := by
        rw [not_or, not_not, not_not] at hne
        exact NetDot.key_inj.mpr hne
      rcases List.mem_cons.mp hx with rfl | hx
      · by_contra hvalue
        rw [if_pos hvalue] at h
        cases h
      · exact absurd (List.mem_map_of_mem hx) (hkey.trans hykey.symm ▸ hy)

/-- A merge of dots keeps the additions of both sides. -/
theorem mergeDots_keeps : ∀ {dots next out : List NetDot}, DistinctKeys next →
    mergeDots next dots = some out →
      DistinctKeys out ∧ additions next ⊆ additions out ∧ additions dots ⊆ additions out
  | [], next, out, hkeys, h => by
    cases h
    exact ⟨hkeys, subset_rfl, fun a ⟨d, hd, _⟩ => absurd hd List.not_mem_nil⟩
  | dot :: dots, next, out, hkeys, h => by
    rw [mergeDots] at h
    cases hmerge : mergeDot dot next with
    | none => rw [hmerge] at h; cases h
    | some merged =>
      rw [hmerge] at h
      dsimp only at h
      split_ifs at h
      have hagrees := mergeDot_agrees hkeys hmerge
      obtain ⟨out', hout', -, hkeys', hmem⟩ := mergeDot_spec hkeys hagrees
      rw [hmerge, Option.some.injEq] at hout'
      subst hout'
      obtain ⟨hdistinct, hnext, hdots⟩ := mergeDots_keeps hkeys' h
      refine ⟨hdistinct, subset_trans ?_ hnext, ?_⟩
      · rintro a ⟨d, hd, rfl⟩
        by_cases hkey : d.key = dot.key
        · exact ⟨_, (hmem _).mpr (Or.inr (Or.inl ⟨d, hd, hkey, rfl⟩)), rfl⟩
        · exact ⟨d, (hmem d).mpr (Or.inl ⟨hd, hkey⟩), rfl⟩
      · rw [additions_cons]
        rintro a (rfl | ha)
        · by_cases hfound : ∃ x ∈ next, x.key = dot.key
          · obtain ⟨x, hx, hkey⟩ := hfound
            have haddition : x.addition = dot.addition := by
              obtain ⟨hnode, hcounter⟩ := NetDot.key_inj.mp hkey
              unfold NetDot.addition
              rw [hnode, hcounter, hagrees x hx hkey]
            exact hnext ⟨_, (hmem _).mpr (Or.inr (Or.inl ⟨x, hx, hkey, rfl⟩)), haddition⟩
          · exact hnext ⟨dot, (hmem dot).mpr
              (Or.inr (Or.inr ⟨fun x hx hkey => hfound ⟨x, hx, hkey⟩, rfl⟩)), rfl⟩
        · exact hdots ha

theorem DistinctKeys.unambiguous {dots : List NetDot} (h : DistinctKeys dots) :
    Unambiguous (additions dots) := by
  rintro _ ⟨x, hx, rfl⟩ _ ⟨y, hy, rfl⟩ hnode hcounter
  rw [h.inj hx hy (NetDot.key_inj.mpr ⟨hnode, hcounter⟩)]

theorem DistinctKeys.shows {dots : List NetDot} (h : DistinctKeys dots)
    (hflags : ∀ d ∈ dots, d.removed = 0 ∨ d.removed = 1) :
    DotsShow dots (additions dots) (removals dots) := by
  have hone : ∀ d ∈ dots, Flags d.removed (d.addition ∈ removals dots) := by
    intro d hd
    rcases hflags d hd with hzero | hone
    · refine Or.inr ⟨hzero, ?_⟩
      rintro ⟨x, hx, hmarked, heq⟩
      have hxd : x = d := h.inj hx hd (NetDot.key_inj.mpr
        ⟨congrArg Addition.node heq, congrArg Addition.counter heq⟩)
      rw [hxd, hzero] at hmarked
      exact absurd hmarked (by decide)
    · exact Or.inl ⟨hone, d, hd, hone, rfl⟩
  refine ⟨fun d => ⟨fun hd => ⟨⟨d, hd, rfl⟩, hone d hd⟩, ?_⟩, fun a ⟨d, hd, _, heq⟩ => ⟨d, hd, heq⟩⟩
  rintro ⟨⟨x, hx, heq⟩, hflag⟩
  have hxflag := hone x hx
  rw [heq] at hxflag
  rw [NetDot.eq_iff.mpr ⟨heq.symm, hxflag.iff_eq.mp hflag⟩]
  exact hx

theorem NetCrdt.DotSet.shows {s : NetCrdt} (h : s.DotSet) :
    DotsShow s.dots (additions s.dots) (removals s.dots) :=
  h.sorted.distinctKeys.shows fun d hd => (h.ok d hd).removed_cases

/-! ### Merging within a set of states -/

section Within

variable {Ok : NetCrdt → Prop}
  (closed : ∀ a b m : NetCrdt, Ok a → Ok b → netCrdtMerge a b = some m → Ok m)

/-- The merge of states of which `Ok` is known, as the merge keeps it. -/
def mergeWithin (a b : Subtype Ok) : Option (Subtype Ok) :=
  (netCrdtMerge a.1 b.1).pmap Subtype.mk fun _ hm => closed _ _ _ a.2 b.2 hm

theorem mergeWithin_val (a b : Subtype Ok) :
    (mergeWithin closed a b).map Subtype.val = netCrdtMerge a.1 b.1 := by
  unfold mergeWithin
  rw [Option.map_pmap]
  simp

theorem mergeWithin_eq_some {a b m : Subtype Ok} :
    mergeWithin closed a b = some m ↔ netCrdtMerge a.1 b.1 = some m.1 := by
  rw [← mergeWithin_val closed, Option.map_eq_some_iff]
  exact ⟨fun h => ⟨m, h, rfl⟩, fun ⟨m', h, heq⟩ => h.trans (congrArg some (Subtype.ext heq))⟩

end Within

/-! ### Registers -/

abbrev RegisterState : Type := { s : NetCrdt // s.kind = 1 ∧ s.Register }

/-- The write of `a` is earlier than that of `b`, or the same. -/
def WriteLe (a b : NetCrdt) : Prop :=
  toLex (a.timestamp.toNat, a.author.toNat) < toLex (b.timestamp.toNat, b.author.toNat) ∨
    (a.timestamp = b.timestamp ∧ a.author = b.author ∧ a.value = b.value)

theorem WriteLe.trans {a b c : NetCrdt} (hab : WriteLe a b) (hbc : WriteLe b c) : WriteLe a c := by
  rcases hab with hab | ⟨ht, ha, hv⟩
  · rcases hbc with hbc | ⟨ht', ha', -⟩
    · exact Or.inl (hab.trans hbc)
    · exact Or.inl (by rw [← ht', ← ha']; exact hab)
  · rcases hbc with hbc | ⟨ht', ha', hv'⟩
    · exact Or.inl (by rw [ht, ha]; exact hbc)
    · exact Or.inr ⟨ht.trans ht', ha.trans ha', hv.trans hv'⟩

theorem WriteLe.antisymm {a b : NetCrdt} (hab : WriteLe a b) (hba : WriteLe b a) :
    a.timestamp = b.timestamp ∧ a.author = b.author ∧ a.value = b.value := by
  rcases hab with hab | hab
  · rcases hba with hba | ⟨ht, ha, -⟩
    · exact absurd (hab.trans hba) (lt_irrefl _)
    · rw [ht, ha] at hab
      exact absurd hab (lt_irrefl _)
  · exact hab

theorem NotLater.writeLe {a b : NetCrdt} (h : NotLater b a)
    (hsame : a.timestamp = b.timestamp → a.author = b.author → a.value = b.value) :
    WriteLe b a := by
  rcases h with hlt | ⟨heq, hle⟩
  · exact Or.inl (Prod.Lex.toLex_lt_toLex.mpr (Or.inl (UInt64.lt_iff_toNat_lt.mp hlt)))
  · by_cases hauthor : b.author = a.author
    · exact Or.inr ⟨heq, hauthor, (hsame heq.symm hauthor.symm).symm⟩
    · refine Or.inl (Prod.Lex.toLex_lt_toLex.mpr (Or.inr ⟨by rw [heq], ?_⟩))
      exact UInt32.lt_iff_toNat_lt.mp (UInt32.lt_of_le_of_ne hle hauthor)

/-- The vector counts no more operations. -/
def VectorLe (u v : Fin 2 → UInt64) : Prop := ∀ i, (u i).toNat ≤ (v i).toNat

theorem VectorLe.antisymm {u v : Fin 2 → UInt64} (h : VectorLe u v) (h' : VectorLe v u) : u = v :=
  funext fun i => UInt64.toNat_inj.mp (le_antisymm (h i) (h' i))

instance : PartialOrder RegisterState where
  le a b := WriteLe a.1 b.1 ∧ VectorLe a.1.vector b.1.vector
  le_refl a := ⟨Or.inr ⟨rfl, rfl, rfl⟩, fun _ => le_rfl⟩
  le_trans a b c hab hbc := ⟨hab.1.trans hbc.1, fun i => (hab.2 i).trans (hbc.2 i)⟩
  le_antisymm a b hab hba := by
    obtain ⟨ht, ha, hv⟩ := hab.1.antisymm hba.1
    exact Subtype.ext (NetCrdt.ext (a.2.1.trans b.2.1.symm) (hab.2.antisymm hba.2) ht ha hv
      (a.2.2.dots_eq.trans b.2.2.dots_eq.symm))

/-- A merge of registers fails exactly if one write was stored with two values. -/
theorem netCrdtMerge_register_none {a b : NetCrdt} (ha : a.kind = 1)
    (ht : a.timestamp = b.timestamp)
    (hauthor : a.author = b.author) (hvalue : a.value ≠ b.value) : netCrdtMerge a b = none := by
  have hconflict : a.timestamp = b.timestamp ∧ a.author = b.author ∧ a.value ≠ b.value :=
    ⟨ht, hauthor, hvalue⟩
  unfold netCrdtMerge
  dsimp only
  rw [if_pos ha, if_pos hconflict, ite_self]

variable {a b m : NetCrdt}

theorem netCrdtMerge_register_some (ha : a.kind = 1 ∧ a.Register) (hb : b.kind = 1 ∧ b.Register)
    (h : netCrdtMerge a b = some m) :
    (a.timestamp = b.timestamp → a.author = b.author → a.value = b.value) ∧ m.kind = 1 ∧
      m.Register ∧ (∀ i, (m.vector i).toNat = max (a.vector i).toNat (b.vector i).toNat) ∧
      ((m.timestamp = a.timestamp ∧ m.author = a.author ∧ m.value = a.value ∧ NotLater b a) ∨
        (m.timestamp = b.timestamp ∧ m.author = b.author ∧ m.value = b.value ∧ NotLater a b)) := by
  have hsame : a.timestamp = b.timestamp → a.author = b.author → a.value = b.value := by
    intro ht hauthor
    by_contra hvalue
    rw [netCrdtMerge_register_none ha.1 ht hauthor hvalue] at h
    cases h
  obtain ⟨s, hs, hrest⟩ := netCrdtMerge_register ha.1 hb.1 ha.2 hb.2 hsame
  rw [h, Option.some.injEq] at hs
  subst hs
  exact ⟨hsame, hrest⟩

theorem registers_closed (a b m : NetCrdt) (ha : a.kind = 1 ∧ a.Register)
    (hb : b.kind = 1 ∧ b.Register) (h : netCrdtMerge a b = some m) : m.kind = 1 ∧ m.Register := by
  obtain ⟨-, hkind, hregister, -⟩ := netCrdtMerge_register_some ha hb h
  exact ⟨hkind, hregister⟩

def RegisterState.merge : RegisterState → RegisterState → Option RegisterState :=
  mergeWithin registers_closed

theorem WriteLe.congr (h : WriteLe a b) (ht : m.timestamp = a.timestamp)
    (hauthor : m.author = a.author) (hvalue : m.value = a.value) : WriteLe m b := by
  unfold WriteLe at h ⊢
  rw [ht, hauthor, hvalue]
  exact h

/-- **A merge of registers** is their least upper bound. -/
theorem registerState_join : PartialJoin RegisterState.merge := by
  refine ⟨fun {a b m} h => ?_, fun {a b} h => ?_, fun {a b} h => ?_⟩
  · obtain ⟨hsame, -, -, hvector, hcases⟩ :=
      netCrdtMerge_register_some a.2 b.2 ((mergeWithin_eq_some registers_closed).mp h)
    have hle : a ≤ m ∧ b ≤ m := by
      have hva : VectorLe a.1.vector m.1.vector := fun i => hvector i ▸ le_max_left _ _
      have hvb : VectorLe b.1.vector m.1.vector := fun i => hvector i ▸ le_max_right _ _
      rcases hcases with ⟨ht, hauthor, hvalue, hnot⟩ | ⟨ht, hauthor, hvalue, hnot⟩
      · have ham : WriteLe a.1 m.1 := Or.inr ⟨ht.symm, hauthor.symm, hvalue.symm⟩
        exact ⟨⟨ham, hva⟩, (hnot.writeLe hsame).trans ham, hvb⟩
      · have hbm : WriteLe b.1 m.1 := Or.inr ⟨ht.symm, hauthor.symm, hvalue.symm⟩
        refine ⟨⟨(hnot.writeLe fun ht ha => ?_).trans hbm, hva⟩, hbm, hvb⟩
        exact (hsame ht.symm ha.symm).symm
    refine ⟨?_, fun u hu => ?_⟩
    · rintro x (rfl | rfl)
      · exact hle.1
      · exact hle.2
    · obtain ⟨hau, hbu⟩ : a ≤ u ∧ b ≤ u := ⟨hu (Or.inl rfl), hu (Or.inr rfl)⟩
      refine ⟨?_, fun i => ?_⟩
      · rcases hcases with ⟨ht, hauthor, hvalue, -⟩ | ⟨ht, hauthor, hvalue, -⟩
        · exact hau.1.congr ht hauthor hvalue
        · exact hbu.1.congr ht hauthor hvalue
      · rw [hvector i]
        exact max_le (hau.2 i) (hbu.2 i)
  · have hsame : a.1.timestamp = b.1.timestamp → a.1.author = b.1.author →
    a.1.value = b.1.value := by
      intro ht hauthor
      rcases h.1 with hlt | ⟨-, -, hvalue⟩
      · rw [ht, hauthor] at hlt
        exact absurd hlt (lt_irrefl _)
      · exact hvalue.symm
    obtain ⟨m, hm, hkind, hreg, hvector, hcases⟩ :=
      netCrdtMerge_register a.2.1 b.2.1 a.2.2 b.2.2 hsame
    have hma : m = a.1 := by
      have hvec : m.vector = a.1.vector := funext fun i => UInt64.toNat_inj.mp
        ((hvector i).trans (max_eq_left (h.2 i)))
      have hdots : m.dots = a.1.dots := hreg.dots_eq.trans a.2.2.dots_eq.symm
      rcases hcases with ⟨ht, hauthor, hvalue, -⟩ | ⟨ht, hauthor, hvalue, hnot⟩
      · exact NetCrdt.ext (hkind.trans a.2.1.symm) hvec ht hauthor hvalue hdots
      · have hab : WriteLe a.1 b.1 := hnot.writeLe fun ht ha => (hsame ht.symm ha.symm).symm
        obtain ⟨ht', hauthor', hvalue'⟩ := h.1.antisymm hab
        exact NetCrdt.ext (hkind.trans a.2.1.symm) hvec (ht.trans ht') (hauthor.trans hauthor')
          (hvalue.trans hvalue') hdots
    exact (mergeWithin_eq_some registers_closed).mpr (hm.trans (congrArg some hma))
  · obtain ⟨m, hm⟩ := Option.isSome_iff_exists.mp h
    obtain ⟨hsame, -⟩ := netCrdtMerge_register_some a.2 b.2
      ((mergeWithin_eq_some registers_closed).mp hm)
    obtain ⟨m', hm', hkind, hreg, -⟩ := netCrdtMerge_register b.2.1 a.2.1 b.2.2 a.2.2
      fun ht hauthor => (hsame ht.symm hauthor.symm).symm
    exact Option.isSome_iff_exists.mpr ⟨⟨m', hkind, hreg⟩,
      (mergeWithin_eq_some registers_closed).mpr hm'⟩

/-! ### Sets -/

abbrev SetState : Type := { s : NetCrdt // s.kind = 2 ∧ s.DotSet }

instance : PartialOrder SetState where
  le a b := additions a.1.dots ⊆ additions b.1.dots ∧ removals a.1.dots ⊆ removals b.1.dots ∧
    VectorLe a.1.vector b.1.vector
  le_refl a := ⟨subset_rfl, subset_rfl, fun _ => le_rfl⟩
  le_trans a b c hab hbc := ⟨hab.1.trans hbc.1, hab.2.1.trans hbc.2.1,
    fun i => (hab.2.2 i).trans (hbc.2.2 i)⟩
  le_antisymm a b hab hba := by
    have hshows : DotsShow b.1.dots (additions a.1.dots) (removals a.1.dots) := by
      rw [hab.1.antisymm hba.1, hab.2.1.antisymm hba.2.1]
      exact b.2.2.shows
    refine Subtype.ext (NetCrdt.ext (a.2.1.trans b.2.1.symm) (hab.2.2.antisymm hba.2.2)
      (a.2.2.timestamp_eq.trans b.2.2.timestamp_eq.symm)
      (a.2.2.author_eq.trans b.2.2.author_eq.symm) (a.2.2.value_eq.trans b.2.2.value_eq.symm) ?_)
    exact a.2.2.shows.unique hshows a.2.2.sorted b.2.2.sorted

theorem netCrdtMerge_dots_some (ha : a.kind = 2 ∧ a.DotSet) (hb : b.kind = 2 ∧ b.DotSet)
    (h : netCrdtMerge a b = some m) :
    m.kind = 2 ∧ m.DotSet ∧ (∀ i, (m.vector i).toNat = max (a.vector i).toNat (b.vector i).toNat) ∧
      additions m.dots = additions a.dots ∪ additions b.dots ∧
      removals m.dots = removals a.dots ∪ removals b.dots := by
  have hunambiguous : Unambiguous (additions a.dots ∪ additions b.dots) := by
    have hmerge := h
    unfold netCrdtMerge at hmerge
    split_ifs at hmerge with h1 h2
    · exact absurd (ha.1.symm.trans h2) (by decide)
    · exact absurd (ha.1.symm.trans h2) (by decide)
    · cases hdots : mergeDots a.dots b.dots with
      | none => rw [hdots] at hmerge; cases hmerge
      | some out =>
        obtain ⟨hdistinct, hleft, hright⟩ := mergeDots_keeps ha.2.sorted.distinctKeys hdots
        exact hdistinct.unambiguous.mono (Set.union_subset hleft hright)
  rcases netCrdtMerge_dots ha.1 hb.1 ha.2 hb.2 ha.2.shows hb.2.shows hunambiguous with
    ⟨s, hs, hkind, hset, hvector, hshows⟩ | ⟨hnone, -⟩
  · rw [h, Option.some.injEq] at hs
    subst hs
    exact ⟨hkind, hset, hvector, hshows.additions_eq, hshows.removals_eq⟩
  · rw [h] at hnone
    cases hnone

theorem sets_closed (a b m : NetCrdt) (ha : a.kind = 2 ∧ a.DotSet) (hb : b.kind = 2 ∧ b.DotSet)
    (h : netCrdtMerge a b = some m) : m.kind = 2 ∧ m.DotSet := by
  obtain ⟨hkind, hset, -⟩ := netCrdtMerge_dots_some ha hb h
  exact ⟨hkind, hset⟩

def SetState.merge : SetState → SetState → Option SetState := mergeWithin sets_closed

theorem setState_isLUB {a b m : SetState} (h : a.merge b = some m) : IsLUB {a, b} m := by
  obtain ⟨-, -, hvector, hadditions, hremovals⟩ :=
    netCrdtMerge_dots_some a.2 b.2 ((mergeWithin_eq_some sets_closed).mp h)
  refine ⟨?_, fun u hu => ?_⟩
  · rintro x (rfl | rfl)
    · exact ⟨hadditions ▸ Set.subset_union_left, hremovals ▸ Set.subset_union_left,
        fun i => hvector i ▸ le_max_left _ _⟩
    · exact ⟨hadditions ▸ Set.subset_union_right, hremovals ▸ Set.subset_union_right,
        fun i => hvector i ▸ le_max_right _ _⟩
  · obtain ⟨hau, hbu⟩ : a ≤ u ∧ b ≤ u := ⟨hu (Or.inl rfl), hu (Or.inr rfl)⟩
    refine ⟨hadditions ▸ Set.union_subset hau.1 hbu.1,
      hremovals ▸ Set.union_subset hau.2.1 hbu.2.1, fun i => ?_⟩
    rw [hvector i]
    exact max_le (hau.2.2 i) (hbu.2.2 i)

/-- **A merge of sets fails only if there is no upper bound**: what is above both has all their
additions, so these are not ambiguous and not too many. -/
theorem setState_bounded {a b u : SetState} (ha : a ≤ u) (hb : b ≤ u) :
    (a.merge b).isSome = true := by
  have hsub : additions a.1.dots ∪ additions b.1.dots ⊆ additions u.1.dots :=
    Set.union_subset ha.1 hb.1
  have hunambiguous := u.2.2.sorted.distinctKeys.unambiguous.mono hsub
  rcases netCrdtMerge_dots a.2.1 b.2.1 a.2.2 b.2.2 a.2.2.shows b.2.2.shows hunambiguous with
    ⟨s, hs, hkind, hset, -⟩ | ⟨-, l, hnodup, hlength, hmem⟩
  · exact Option.isSome_iff_exists.mpr ⟨⟨s, hkind, hset⟩, (mergeWithin_eq_some sets_closed).mpr hs⟩
  · -- the additions are among those of the bound, of which there are at most sixteen
    have hle : l.length ≤ (u.1.dots.map NetDot.addition).length := by
      refine (List.subperm_of_subset hnodup fun x hx => ?_).length_le
      obtain ⟨d, hd, heq⟩ := hsub (hmem x hx)
      exact List.mem_map.mpr ⟨d, hd, heq⟩
    rw [List.length_map] at hle
    exact absurd (hle.trans u.2.2.dots_le) (Nat.not_le.mpr hlength)

theorem setState_join : PartialJoin SetState.merge := by
  have hsome : ∀ {a b u : SetState}, a ≤ u → b ≤ u → ∃ m, a.merge b = some m := fun ha hb =>
    Option.isSome_iff_exists.mp (setState_bounded ha hb)
  refine ⟨setState_isLUB, fun {a b} h => ?_, fun {a b} h => ?_⟩
  · obtain ⟨m, hm⟩ := hsome le_rfl h
    have hlub := setState_isLUB hm
    have hma : m ≤ a := hlub.2 (by rintro x (rfl | rfl); exacts [le_rfl, h])
    rw [hm, le_antisymm hma (hlub.1 (Or.inl rfl))]
  · obtain ⟨m, hm⟩ := Option.isSome_iff_exists.mp h
    have hlub := setState_isLUB hm
    exact setState_bounded (hlub.1 (Or.inr rfl)) (hlub.1 (Or.inl rfl))

/-! ### The laws -/

theorem mergeWithin_bind {Ok : NetCrdt → Prop}
    (closed : ∀ a b m : NetCrdt, Ok a → Ok b → netCrdtMerge a b = some m → Ok m)
    (a b c : Subtype Ok) : ((netCrdtMerge a.1 b.1).bind fun m => netCrdtMerge m c.1) =
      ((mergeWithin closed a b).bind fun m => mergeWithin closed m c).map Subtype.val ∧
    ((netCrdtMerge b.1 c.1).bind fun m => netCrdtMerge a.1 m) =
      ((mergeWithin closed b c).bind fun m => mergeWithin closed a m).map Subtype.val := by
  constructor
  · rw [← mergeWithin_val closed a b]
    cases mergeWithin closed a b with
    | none => rfl
    | some m => exact (mergeWithin_val closed m c).symm
  · rw [← mergeWithin_val closed b c]
    cases mergeWithin closed b c with
    | none => rfl
    | some m => exact (mergeWithin_val closed a m).symm

/-- The laws that the merge of states of both kinds has. -/
structure MergeLaws (a b c : NetCrdt) : Prop where
  comm : netCrdtMerge a b = netCrdtMerge b a
  self : netCrdtMerge a a = some a
  absorb : ∀ m, netCrdtMerge a b = some m → netCrdtMerge m a = some m ∧ netCrdtMerge m b = some m
  assoc : ∀ l r, ((netCrdtMerge a b).bind fun m => netCrdtMerge m c) = some l →
    ((netCrdtMerge b c).bind fun m => netCrdtMerge a m) = some r → l = r

theorem mergeLaws_of_join {Ok : NetCrdt → Prop} [PartialOrder (Subtype Ok)]
    {closed : ∀ a b m : NetCrdt, Ok a → Ok b → netCrdtMerge a b = some m → Ok m}
    (hjoin : PartialJoin (mergeWithin closed)) {a b c : NetCrdt} (ha : Ok a) (hb : Ok b)
    (hc : Ok c) : MergeLaws a b c := by
  have hbind := mergeWithin_bind closed ⟨a, ha⟩ ⟨b, hb⟩ ⟨c, hc⟩
  refine ⟨?_, ?_, fun m hm => ?_, fun l r hl hr => ?_⟩
  · have h := congrArg (Option.map Subtype.val) (hjoin.comm ⟨a, ha⟩ ⟨b, hb⟩)
    rwa [mergeWithin_val, mergeWithin_val] at h
  · exact (mergeWithin_eq_some closed).mp (hjoin.self ⟨a, ha⟩)
  · obtain ⟨hma, hmb⟩ := hjoin.absorb ((mergeWithin_eq_some closed).mpr
      (show netCrdtMerge (⟨a, ha⟩ : Subtype Ok).1 (⟨b, hb⟩ : Subtype Ok).1 =
        some (⟨m, closed a b m ha hb hm⟩ : Subtype Ok).1 from hm))
    exact ⟨(mergeWithin_eq_some closed).mp hma, (mergeWithin_eq_some closed).mp hmb⟩
  · rw [hbind.1, Option.map_eq_some_iff] at hl
    rw [hbind.2, Option.map_eq_some_iff] at hr
    obtain ⟨l', hl', rfl⟩ := hl
    obtain ⟨r', hr', rfl⟩ := hr
    rw [hjoin.assoc hl' hr']

theorem netCrdtMerge_valid (h : netCrdtMerge a b = some m) : m.valid = true := by
  have hguard : a.valid = true ∧ b.valid = true ∧ a.kind = b.kind := by
    unfold netCrdtMerge at h
    by_cases hif : (!a.valid) = true ∨ (!b.valid) = true ∨ a.kind ≠ b.kind
    · rw [if_pos hif] at h
      cases h
    · simpa only [not_or, not_not, Bool.not_eq_true', Bool.not_eq_false] using hif
  obtain ⟨ha, hb, hab⟩ := hguard
  rcases NetCrdt.kind_of_valid ha with hkind | hkind
  · have hb' := hab.symm.trans hkind
    obtain ⟨hmkind, hmreg⟩ := registers_closed a b m
      ⟨hkind, (NetCrdt.valid_register hkind).mp ha⟩ ⟨hb', (NetCrdt.valid_register hb').mp hb⟩ h
    exact (NetCrdt.valid_register hmkind).mpr hmreg
  · have hb' := hab.symm.trans hkind
    obtain ⟨hmkind, hmset⟩ := sets_closed a b m
      ⟨hkind, (NetCrdt.valid_dots hkind).mp ha⟩ ⟨hb', (NetCrdt.valid_dots hb').mp hb⟩ h
    exact (NetCrdt.valid_dots hmkind).mpr hmset

/-- A failed merge writes nothing, and a successful one only its output. -/
theorem netCrdtMergeAt_memory {Address : Type*} [DecidableEq Address]
    (memory : Address → NetCrdt) (out left right : Option Address) :
    ((netCrdtMergeAt memory out left right).1 = false →
      (netCrdtMergeAt memory out left right).2 = memory) ∧
    ((netCrdtMergeAt memory out left right).1 = true →
      ∃ o l r next, out = some o ∧ left = some l ∧ right = some r ∧
        netCrdtMerge (memory l) (memory r) = some next ∧
        (netCrdtMergeAt memory out left right).2 = Function.update memory o next) := by
  cases out with
  | none => exact ⟨fun _ => rfl, fun h => by cases h⟩
  | some o =>
    cases left with
    | none => exact ⟨fun _ => rfl, fun h => by cases h⟩
    | some l =>
      cases right with
      | none => exact ⟨fun _ => rfl, fun h => by cases h⟩
      | some r =>
        unfold netCrdtMergeAt
        cases hmerge : netCrdtMerge (memory l) (memory r) with
        | none => exact ⟨fun _ => by simp only [hmerge],
          fun h => by simp only [hmerge] at h; cases h⟩
        | some next =>
          simp only [hmerge]
          exact ⟨fun h => (by cases h), fun _ => ⟨o, l, r, next, rfl, rfl, rfl, hmerge, rfl⟩⟩

/-- **The laws of a merge** of valid states of one kind: it is commutative and idempotent, it is
valid and absorbs its arguments, and the two ways to merge three states do not give two results; for
sets they also fail together.  Whichever of the three pointers are the same, a failed merge leaves
the memory as it was, and a successful one puts the merge of what both states were before into its
output and changes nothing else. -/
theorem crdt_merge_laws (a b c : NetCrdt) (ha : a.valid = true) (hb : b.valid = true)
    (hc : c.valid = true) (hab : a.kind = b.kind) (hbc : b.kind = c.kind) :
    MergeLaws a b c ∧ (∀ m, netCrdtMerge a b = some m → m.valid = true) ∧
      (a.kind = netCrdtOrset → ((netCrdtMerge a b).bind fun m => netCrdtMerge m c).isSome =
        ((netCrdtMerge b c).bind fun m => netCrdtMerge a m).isSome) ∧
      ∀ (memory : Nat → NetCrdt) (out left right : Option Nat),
        ((netCrdtMergeAt memory out left right).1 = false →
          (netCrdtMergeAt memory out left right).2 = memory) ∧
        ((netCrdtMergeAt memory out left right).1 = true →
          ∃ o l r next, out = some o ∧ left = some l ∧ right = some r ∧
            netCrdtMerge (memory l) (memory r) = some next ∧
            (netCrdtMergeAt memory out left right).2 = Function.update memory o next) := by
  refine ⟨?_, fun m => netCrdtMerge_valid, ?_, netCrdtMergeAt_memory⟩
  · rcases NetCrdt.kind_of_valid ha with hkind | hkind
    · have hb' := hab.symm.trans hkind
      have hc' := hbc.symm.trans hb'
      exact mergeLaws_of_join registerState_join ⟨hkind, (NetCrdt.valid_register hkind).mp ha⟩
        ⟨hb', (NetCrdt.valid_register hb').mp hb⟩ ⟨hc', (NetCrdt.valid_register hc').mp hc⟩
    · have hb' := hab.symm.trans hkind
      have hc' := hbc.symm.trans hb'
      exact mergeLaws_of_join setState_join ⟨hkind, (NetCrdt.valid_dots hkind).mp ha⟩
        ⟨hb', (NetCrdt.valid_dots hb').mp hb⟩ ⟨hc', (NetCrdt.valid_dots hc').mp hc⟩
  · intro hkind
    have hb' := hab.symm.trans hkind
    have hc' := hbc.symm.trans hb'
    have hbind := mergeWithin_bind sets_closed ⟨a, hkind, (NetCrdt.valid_dots hkind).mp ha⟩
      ⟨b, hb', (NetCrdt.valid_dots hb').mp hb⟩ ⟨c, hc', (NetCrdt.valid_dots hc').mp hc⟩
    rw [hbind.1, hbind.2, Option.isSome_map, Option.isSome_map]
    exact setState_join.assoc_isSome setState_bounded _ _ _

/-- Two sets of one addition each, and a third one. -/
theorem crdt_merge_laws_sets : let a : NetCrdt := ⟨2, ![1, 0], 0, 0, [], [⟨0, 0, 1, 7⟩]⟩
    let b : NetCrdt := ⟨2, ![0, 1], 0, 0, [], [⟨1, 1, 1, 7⟩]⟩
    let c : NetCrdt := ⟨2, ![0, 2], 0, 0, [], [⟨1, 0, 2, 9⟩]⟩
    (netCrdtMerge a b).map (·.dots) = some [⟨0, 0, 1, 7⟩, ⟨1, 1, 1, 7⟩] ∧ MergeLaws a b c := by
  intro a b c
  have hvalid : a.valid = true ∧ b.valid = true ∧ c.valid = true := by decide +kernel
  exact ⟨by decide +kernel, (crdt_merge_laws a b c hvalid.1 hvalid.2.1 hvalid.2.2 rfl rfl).1⟩

end Jani
