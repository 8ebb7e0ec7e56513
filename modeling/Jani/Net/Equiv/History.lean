import Jani.Lib.VersionVector
import Jani.Net.Equiv.ReplicaRun

/-!
# What a replicated value knows

The vector of a state counts the operations of each node that went into it: the state is explained
by two logs, one for each node (`Explains`).  The operations of a node extend its log
(`Explains.operation`), a merge joins what both states know (`Explains.merge`), and two states with
equal vectors are equal (`Explains.unique`).

Which operation went into a state does not matter beyond what it tells: that a register was
written, that an item was added, that additions were removed.  These are the *facts* of a history.
-/

namespace Jani

/-- What an operation tells. -/
inductive ReplicaFact where
  | wrote (timestamp : UInt64) (author : UInt32) (value : List UInt8)
  | added (addition : Addition)
  | removed (addition : Addition)

def ReplicaEvent.facts : ReplicaEvent → Set ReplicaFact
  | .set timestamp author value => {.wrote timestamp author value}
  | .add addition => {.added addition}
  | .remove observed => {fact | ∃ a ∈ observed, fact = .removed a}

/-- What some operations tell. -/
def facts (events : Set ReplicaEvent) : Set ReplicaFact := ⋃ e ∈ events, e.facts

variable {events : Set ReplicaEvent} {timestamp : UInt64} {author : UInt32} {value : List UInt8}

theorem mem_facts {fact : ReplicaFact} : fact ∈ facts events ↔ ∃ e ∈ events, fact ∈ e.facts := by
  simp only [facts, Set.mem_iUnion, exists_prop]

theorem facts_empty : facts ∅ = ∅ := Set.biUnion_empty _

theorem facts_union (events events' : Set ReplicaEvent) :
    facts (events ∪ events') = facts events ∪ facts events' := Set.biUnion_union _ _ _

theorem facts_insert (e : ReplicaEvent) (events : Set ReplicaEvent) :
    facts (insert e events) = e.facts ∪ facts events := Set.biUnion_insert _ _ _

theorem facts_mono {events' : Set ReplicaEvent} (h : events ⊆ events') :
    facts events ⊆ facts events' := Set.biUnion_subset_biUnion_left h

theorem wrote_mem_facts :
    .wrote timestamp author value ∈ facts events ↔ .set timestamp author value ∈ events := by
  rw [mem_facts]
  constructor
  · rintro ⟨e, he, hfact⟩
    cases e with
    | set t a v =>
      cases hfact
      exact he
    | add x => cases hfact
    | remove observed =>
      obtain ⟨x, -, hx⟩ := hfact
      cases hx
  · exact fun he => ⟨_, he, rfl⟩

theorem added_mem_facts {a : Addition} : .added a ∈ facts events ↔ .add a ∈ events := by
  rw [mem_facts]
  constructor
  · rintro ⟨e, he, hfact⟩
    cases e with
    | set t a v => cases hfact
    | add x =>
      cases hfact
      exact he
    | remove observed =>
      obtain ⟨x, -, hx⟩ := hfact
      cases hx
  · exact fun he => ⟨_, he, rfl⟩

theorem removed_mem_facts {a : Addition} :
    .removed a ∈ facts events ↔ ∃ observed, .remove observed ∈ events ∧ a ∈ observed := by
  rw [mem_facts]
  constructor
  · rintro ⟨e, he, hfact⟩
    cases e with
    | set t a v => cases hfact
    | add x => cases hfact
    | remove observed =>
      obtain ⟨x, hx, heq⟩ := hfact
      cases heq
      exact ⟨observed, he, hx⟩
  · rintro ⟨observed, he, ha⟩
    exact ⟨_, he, a, ha, rfl⟩

/-- The additions among some facts. -/
def addedIn (known : Set ReplicaFact) : Set Addition := {a | .added a ∈ known}

/-- The removed additions among some facts. -/
def removedIn (known : Set ReplicaFact) : Set Addition := {a | .removed a ∈ known}

/-! ### States that reflect facts -/

/-- A write at a time by an author is not later than that of the register. -/
def NetCrdt.Covers (s : NetCrdt) (timestamp : UInt64) (author : UInt32) : Prop :=
  timestamp < s.timestamp ∨ (timestamp = s.timestamp ∧ author ≤ s.author)

/-- The register holds the latest write among the facts. -/
structure LatestWrite (known : Set ReplicaFact) (s : NetCrdt) : Prop where
  mem : s.timestamp ≠ 0 → .wrote s.timestamp s.author s.value ∈ known
  covers : ∀ timestamp author value, .wrote timestamp author value ∈ known →
    s.Covers timestamp author

/-- The state is what the facts make it. -/
structure Reflects (known : Set ReplicaFact) (s : NetCrdt) : Prop where
  register : s.kind = 1 → LatestWrite known s
  dots : s.kind = 2 → DotsShow s.dots (addedIn known) (removedIn known)

theorem NetCrdt.Covers.trans {a b : NetCrdt} (h : NotLater a b)
    (hcovers : a.Covers timestamp author) : b.Covers timestamp author := by
  rcases hcovers with hlt | ⟨rfl, hle⟩
  · rcases h with h | ⟨h, -⟩
    · exact Or.inl (UInt64.lt_trans hlt h)
    · exact Or.inl (h ▸ hlt)
  · rcases h with h | ⟨h, h'⟩
    · exact Or.inl h
    · exact Or.inr ⟨h, UInt32.le_trans hle h'⟩

theorem NetCrdt.Covers.antisymm {a b : NetCrdt} (h : a.Covers b.timestamp b.author)
    (h' : b.Covers a.timestamp a.author) : a.timestamp = b.timestamp ∧ a.author = b.author := by
  rcases h with hlt | ⟨heq, hle⟩
  · rcases h' with hlt' | ⟨heq', -⟩
    · exact absurd (UInt64.lt_trans hlt hlt') (UInt64.lt_irrefl _)
    · exact absurd (heq' ▸ hlt) (UInt64.lt_irrefl _)
  · rcases h' with hlt' | ⟨-, hle'⟩
    · exact absurd (heq ▸ hlt') (UInt64.lt_irrefl _)
    · exact ⟨heq.symm, UInt32.le_antisymm hle' hle⟩

/-! ### Logs -/

/-- The log of a node holds writes at different times. -/
structure WritesOk (log : List ReplicaEvent) (i : Fin 2) : Prop where
  writes : ∀ e ∈ log, ∃ timestamp author value, e = .set timestamp author value ∧
    timestamp ≠ 0 ∧ nodeIndex author = i
  unique : ∀ timestamp author value author' value', .set timestamp author value ∈ log →
    .set timestamp author' value' ∈ log → value = value'

/-- The log of a node holds additions, counted by their place, and removals. -/
def AdditionsOk (log : List ReplicaEvent) (i : Fin 2) : Prop :=
  ∀ (k : ℕ) (a : Addition), log[k]? = some (.add a) → a.node ≤ 1 ∧ nodeIndex a.node = i ∧
    a.counter.toNat = k + 1

/-- The logs that the operations on a value of a kind make. -/
structure LogOk (kind : UInt32) (log : Fin 2 → List ReplicaEvent) : Prop where
  writes : kind = 1 → ∀ i, WritesOk (log i) i
  additions : kind = 2 → ∀ i, AdditionsOk (log i) i

theorem LogOk.value_unique {log : Fin 2 → List ReplicaEvent} (h : LogOk 1 log) {value' : List UInt8}
    (hw : .wrote timestamp author value ∈ facts (allEvents log))
    (hw' : .wrote timestamp author value' ∈ facts (allEvents log)) : value = value' := by
  obtain ⟨i, hi⟩ := wrote_mem_facts.mp hw
  obtain ⟨j, hj⟩ := wrote_mem_facts.mp hw'
  obtain ⟨_, _, _, heq, -, hnode⟩ := (h.writes rfl i).writes _ hi
  obtain ⟨_, _, _, heq', -, hnode'⟩ := (h.writes rfl j).writes _ hj
  cases heq
  cases heq'
  obtain rfl := hnode.symm.trans hnode'
  exact (h.writes rfl _).unique _ _ _ _ _ hi hj

theorem LogOk.unambiguous {log : Fin 2 → List ReplicaEvent} (h : LogOk 2 log) :
    Unambiguous (addedIn (facts (allEvents log))) := by
  intro a ha b hb hnode hcounter
  obtain ⟨i, hi⟩ := added_mem_facts.mp ha
  obtain ⟨j, hj⟩ := added_mem_facts.mp hb
  obtain ⟨k, hk⟩ := List.mem_iff_getElem?.mp hi
  obtain ⟨k', hk'⟩ := List.mem_iff_getElem?.mp hj
  obtain ⟨-, hai, hak⟩ := h.additions rfl i k a hk
  obtain ⟨-, hbj, hbk⟩ := h.additions rfl j k' b hk'
  obtain rfl : i = j := by rw [← hai, ← hbj, hnode]
  obtain rfl : k = k' := by
    rw [hcounter] at hak
    omega
  cases hk.symm.trans hk'
  rfl

/-! ### Explained states -/

/-- What a state knows of the logs. -/
def NetCrdt.knows (s : NetCrdt) (log : Fin 2 → List ReplicaEvent) : Set ReplicaFact :=
  facts (known log fun i => (s.vector i).toNat)

/-- The state is what the operations that its vector counts make it. -/
structure Explains (log : Fin 2 → List ReplicaEvent) (s : NetCrdt) : Prop where
  valid : s.valid = true
  counted : ∀ i, (s.vector i).toNat ≤ (log i).length
  reflects : Reflects (s.knows log) s

section Explained

variable {kind : UInt32} {log log' : Fin 2 → List ReplicaEvent} {s s' a b : NetCrdt}

theorem NetCrdt.knows_subset (s : NetCrdt) (log : Fin 2 → List ReplicaEvent) :
    s.knows log ⊆ facts (allEvents log) := facts_mono (known_subset log _)

theorem NetCrdt.knows_of_longer (hlog : ∀ i, log i <+: log' i)
    (hcounted : ∀ i, (s.vector i).toNat ≤ (log i).length) : s.knows log' = s.knows log := by
  unfold NetCrdt.knows
  rw [known_of_longer hlog hcounted]

theorem Explains.of_longer (h : Explains log s) (hlog : ∀ i, log i <+: log' i) :
    Explains log' s := by
  refine ⟨h.valid, fun i => (h.counted i).trans (hlog i).length_le, ?_⟩
  rw [NetCrdt.knows_of_longer hlog h.counted]
  exact h.reflects

theorem Explains.init (h : netCrdtInit kind = some s) : Explains log s ∧ s.kind = kind ∧
    s.knows log = ∅ ∧ ∀ i, s.vector i = 0 := by
  obtain ⟨hvalid, rfl⟩ := netCrdtInit_some h
  have hknows : NetCrdt.knows ⟨kind, fun _ => 0, 0, 0, [], []⟩ log = ∅ := by
    unfold NetCrdt.knows
    exact (congrArg facts (known_zero log)).trans facts_empty
  refine ⟨⟨hvalid, fun i => Nat.zero_le _, ?_⟩, rfl, hknows, fun _ => rfl⟩
  rw [hknows]
  refine ⟨fun _ => ⟨fun hne => absurd rfl hne, fun _ _ _ hmem => absurd hmem (Set.notMem_empty _)⟩,
    fun _ => ⟨fun d => ?_, fun x hx => absurd hx (Set.notMem_empty _)⟩⟩
  exact iff_of_false List.not_mem_nil fun hd => absurd hd.1 (Set.notMem_empty _)

/-- **Equal vectors**, equal states. -/
theorem Explains.unique (hlog : LogOk s.kind log) (h : Explains log s) (h' : Explains log s')
    (hkind : s'.kind = s.kind) (hvector : s'.vector = s.vector) : s' = s := by
  have hknows : s'.knows log = s.knows log := by
    unfold NetCrdt.knows
    rw [hvector]
  have hreflects' := h'.reflects
  rw [hknows] at hreflects'
  rcases NetCrdt.kind_of_valid h.valid with h1 | h2
  · have hreg := (NetCrdt.valid_register h1).mp h.valid
    have hreg' := (NetCrdt.valid_register (hkind.trans h1)).mp h'.valid
    have hlatest := h.reflects.register h1
    have hlatest' := hreflects'.register (hkind.trans h1)
    have hzero : ∀ t : NetCrdt, ∀ timestamp author, t.timestamp = 0 →
        t.Covers timestamp author → timestamp = 0 := by
      rintro t timestamp author hzero (hlt | ⟨heq, -⟩)
      · rw [hzero] at hlt
        exact absurd hlt (UInt64.not_lt_zero)
      · exact heq.trans hzero
    have hdots : s'.dots = s.dots := hreg'.dots_eq.trans hreg.dots_eq.symm
    by_cases hts : s.timestamp = 0
    · have hts' : s'.timestamp = 0 := by
        by_contra hne
        exact hne (hzero s _ _ hts (hlatest.covers _ _ _ (hlatest'.mem hne)))
      obtain ⟨hvalue, hauthor, -⟩ := hreg.empty hts
      obtain ⟨hvalue', hauthor', -⟩ := hreg'.empty hts'
      exact NetCrdt.ext hkind hvector (hts'.trans hts.symm) (hauthor'.trans hauthor.symm)
        (hvalue'.trans hvalue.symm) hdots
    · have hts' : s'.timestamp ≠ 0 := fun heq =>
        hts (hzero s' _ _ heq (hlatest'.covers _ _ _ (hlatest.mem hts)))
      obtain ⟨htimestamp, hauthor⟩ := NetCrdt.Covers.antisymm
        (hlatest'.covers _ _ _ (hlatest.mem hts)) (hlatest.covers _ _ _ (hlatest'.mem hts'))
      have hwrote := s.knows_subset log (hlatest.mem hts)
      have hwrote' := s.knows_subset log (hlatest'.mem hts')
      rw [htimestamp, hauthor] at hwrote'
      rw [h1] at hlog
      exact NetCrdt.ext hkind hvector htimestamp hauthor (hlog.value_unique hwrote' hwrote) hdots
  · have hset := (NetCrdt.valid_dots h2).mp h.valid
    have hset' := (NetCrdt.valid_dots (hkind.trans h2)).mp h'.valid
    refine NetCrdt.ext hkind hvector (hset'.timestamp_eq.trans hset.timestamp_eq.symm)
      (hset'.author_eq.trans hset.author_eq.symm) (hset'.value_eq.trans hset.value_eq.symm) ?_
    exact (hreflects'.dots (hkind.trans h2)).unique (h.reflects.dots h2) hset'.sorted hset.sorted

theorem removedIn_union (known known' : Set ReplicaFact) :
    removedIn (known ∪ known') = removedIn known ∪ removedIn known' := rfl

theorem NetCrdt.knows_max (hmax : ∀ i, (s.vector i).toNat = max (a.vector i).toNat
    (b.vector i).toNat) : s.knows log = a.knows log ∪ b.knows log := by
  unfold NetCrdt.knows
  rw [← facts_union, ← known_max]
  simp only [hmax]

theorem LatestWrite.of_later {known known' : Set ReplicaFact} (ha : LatestWrite known a)
    (hb : LatestWrite known' b) (hts : s.timestamp = a.timestamp) (hauthor : s.author = a.author)
    (hvalue : s.value = a.value) (hlater : NotLater b a) : LatestWrite (known ∪ known') s := by
  constructor
  · intro hne
    rw [hts] at hne
    rw [hts, hauthor, hvalue]
    exact Or.inl (ha.mem hne)
  · intro timestamp author value hmem
    have hcovers : a.Covers timestamp author := by
      rcases hmem with hmem | hmem
      · exact ha.covers _ _ _ hmem
      · exact (hb.covers _ _ _ hmem).trans hlater
    unfold NetCrdt.Covers
    rw [hts, hauthor]
    exact hcovers

/-- **A merge** knows what both states know; it fails only if the additions do not fit. -/
theorem Explains.merge (hlog : LogOk kind log) (ha : Explains log a) (hb : Explains log b)
    (hakind : a.kind = kind) (hbkind : b.kind = kind) :
    (∃ s, netCrdtMerge a b = some s ∧ s.kind = kind ∧ Explains log s ∧
      (∀ i, (s.vector i).toNat = max (a.vector i).toNat (b.vector i).toNat)) ∨
    (kind = 2 ∧ netCrdtMerge a b = none ∧ ∃ l : List Addition, l.Nodup ∧
      netCrdtDotsMax < l.length ∧ ∀ x ∈ l, x ∈ additions a.dots ∪ additions b.dots) := by
  have hcounted : ∀ s : NetCrdt, (∀ i, (s.vector i).toNat =
      max (a.vector i).toNat (b.vector i).toNat) → ∀ i, (s.vector i).toNat ≤ (log i).length :=
    fun s hmax i => (hmax i).trans_le (max_le (ha.counted i) (hb.counted i))
  rcases NetCrdt.kind_of_valid ha.valid with h1 | h2
  · obtain rfl := hakind.symm.trans h1
    have hareg := (NetCrdt.valid_register hakind).mp ha.valid
    have hbreg := (NetCrdt.valid_register hbkind).mp hb.valid
    have halatest := ha.reflects.register hakind
    have hblatest := hb.reflects.register hbkind
    -- the writes of both states are in the logs, so they agree on the value
    have hsame : a.timestamp = b.timestamp → a.author = b.author → a.value = b.value := by
      intro hts hauthor
      by_cases hzero : a.timestamp = 0
      · rw [(hareg.empty hzero).1, (hbreg.empty (hts ▸ hzero)).1]
      · have hwrote := a.knows_subset log (halatest.mem hzero)
        have hwrote' := b.knows_subset log (hblatest.mem (hts ▸ hzero))
        rw [← hts, ← hauthor] at hwrote'
        exact hlog.value_unique hwrote hwrote'
    obtain ⟨s, hmerge, hskind, hsreg, hmax, hcases⟩ :=
      netCrdtMerge_register hakind hbkind hareg hbreg hsame
    refine Or.inl ⟨s, hmerge, hskind, ⟨(NetCrdt.valid_register hskind).mpr hsreg, hcounted s hmax,
      ⟨fun _ => ?_, fun h2 => absurd (hskind.symm.trans h2) (by decide)⟩⟩, hmax⟩
    rw [NetCrdt.knows_max hmax]
    rcases hcases with ⟨hts, hauthor, hvalue, hlater⟩ | ⟨hts, hauthor, hvalue, hlater⟩
    · exact halatest.of_later hblatest hts hauthor hvalue hlater
    · rw [Set.union_comm]
      exact hblatest.of_later halatest hts hauthor hvalue hlater
  · obtain rfl := hakind.symm.trans h2
    have haset := (NetCrdt.valid_dots hakind).mp ha.valid
    have hbset := (NetCrdt.valid_dots hbkind).mp hb.valid
    have hashows := ha.reflects.dots hakind
    have hbshows := hb.reflects.dots hbkind
    have hunambiguous : Unambiguous (addedIn (a.knows log) ∪ addedIn (b.knows log)) := by
      refine hlog.unambiguous.mono ?_
      rintro x (hx | hx)
      · exact a.knows_subset log hx
      · exact b.knows_subset log hx
    rcases netCrdtMerge_dots hakind hbkind haset hbset hashows hbshows hunambiguous with
      ⟨s, hmerge, hskind, hsset, hmax, hshows⟩ | ⟨hnone, l, hnodup, hlength, hmem⟩
    · refine Or.inl ⟨s, hmerge, hskind, ⟨(NetCrdt.valid_dots hskind).mpr hsset, hcounted s hmax,
        ⟨fun h1 => absurd (hskind.symm.trans h1) (by decide), fun _ => ?_⟩⟩, hmax⟩
      rw [NetCrdt.knows_max hmax]
      exact hshows
    · rw [← hashows.additions_eq, ← hbshows.additions_eq] at hmem
      exact Or.inr ⟨rfl, hnone, l, hnodup, hlength, hmem⟩

/-! ### Local operations -/

theorem eq_succ_of_toNat {x y : UInt64} (h : y.toNat = x.toNat + 1) : y = x + 1 := by
  refine UInt64.toNat_inj.mp ?_
  have hlt := y.toNat_lt
  rw [UInt64.toNat_add, h]
  exact (Nat.mod_eq_of_lt (h ▸ hlt)).symm

variable {node : UInt32}

theorem NetCrdt.knows_append (e : ReplicaEvent)
    (hfull : (s.vector (nodeIndex node)).toNat = (log (nodeIndex node)).length)
    (hbumped : Bumped s.vector s'.vector node) :
    s'.knows (appendEvent log (nodeIndex node) e) = e.facts ∪ s.knows log := by
  unfold NetCrdt.knows
  have hother : ∀ j, j ≠ nodeIndex node → (s'.vector j).toNat = (s.vector j).toNat := by
    intro j hj
    have := hbumped j
    rwa [if_neg hj] at this
  have hself := hbumped.self
  rw [← facts_insert, ← @known_appendEvent _ _ _ log (fun i => (s.vector i).toNat)
    (fun i => (s'.vector i).toNat) _ e hfull hself hother]

theorem counted_append (e : ReplicaEvent) (hcounted : ∀ i, (s.vector i).toNat ≤ (log i).length)
    (hbumped : Bumped s.vector s'.vector node) (i : Fin 2) :
    (s'.vector i).toNat ≤ (appendEvent log (nodeIndex node) e i).length := by
  have hi := hbumped i
  have hle := hcounted i
  by_cases h : i = nodeIndex node
  · subst h
    rw [if_pos rfl] at hi
    rw [appendEvent_self, List.length_append, List.length_singleton]
    omega
  · rw [if_neg h] at hi
    rw [appendEvent_of_ne log h]
    omega

/-- What a local operation does to the log of its node: it extends it by what it tells, or it tells
nothing new. -/
structure Extends (kind : UInt32) (log log' : Fin 2 → List ReplicaEvent) (s s' : NetCrdt)
    (node : UInt32) (e : ReplicaEvent) : Prop where
  log_ok : LogOk kind log'
  longer : ∀ i, log i <+: log' i
  others : ∀ i, i ≠ nodeIndex node → log' i = log i
  explains : Explains log' s'
  kind_eq : s'.kind = kind
  full : (s'.vector (nodeIndex node)).toNat = (log' (nodeIndex node)).length
  vector_le : ∀ i, s.vector i ≤ s'.vector i
  knows_eq : s'.knows log' = e.facts ∪ s.knows log

theorem Extends.of_append {e : ReplicaEvent}
    (hfull : (s.vector (nodeIndex node)).toNat = (log (nodeIndex node)).length)
    (hexplains : Explains log s) (hbumped : Bumped s.vector s'.vector node) (hkind : s'.kind = kind)
    (hvalid : s'.valid = true) (hlog : LogOk kind (appendEvent log (nodeIndex node) e))
    (hreflects : Reflects (e.facts ∪ s.knows log) s') :
    Extends kind log (appendEvent log (nodeIndex node) e) s s' node e := by
  have hknows := NetCrdt.knows_append e hfull hbumped
  refine ⟨hlog, isPrefix_appendEvent log _ e, fun i hi => appendEvent_of_ne log hi e,
    ⟨hvalid, counted_append e hexplains.counted hbumped, ?_⟩, hkind, ?_, hbumped.le, hknows⟩
  · rw [hknows]
    exact hreflects
  · rw [hbumped.self, appendEvent_self, List.length_append, hfull]
    rfl

theorem LogOk.append (h : LogOk kind log) {i : Fin 2} {e : ReplicaEvent}
    (hwrites : kind = 1 → WritesOk (log i ++ [e]) i) (hadditions : kind = 2 → ∀ a, e = .add a →
      a.node ≤ 1 ∧ nodeIndex a.node = i ∧ a.counter.toNat = (log i).length + 1) :
    LogOk kind (appendEvent log i e) := by
  constructor
  · intro hkind j
    by_cases hj : j = i
    · subst hj
      rw [appendEvent_self]
      exact hwrites hkind
    · rw [appendEvent_of_ne log hj]
      exact h.writes hkind j
  · intro hkind j
    by_cases hj : j = i
    · subst hj
      rw [appendEvent_self]
      intro k a hk
      rw [List.getElem?_append] at hk
      split_ifs at hk with hlt
      · exact h.additions hkind j k a hk
      · obtain ⟨hindex, heq⟩ := List.getElem?_eq_some_iff.mp hk
        rw [List.length_singleton] at hindex
        obtain rfl : k = (log j).length := by omega
        simp only [Nat.sub_self, List.getElem_cons_zero] at heq
        exact hadditions hkind a heq
    · rw [appendEvent_of_ne log hj]
      exact h.additions hkind j

variable (hlog : LogOk s.kind log) (h : Explains log s)
  (hfull : (s.vector (nodeIndex node)).toNat = (log (nodeIndex node)).length)

include hlog h hfull

/-- A set extends its node's log by one event, later than all it knows. -/
theorem Explains.set (hset : netCrdtSet s node value = some s') :
    ∃ log', Extends s.kind log log' s s' node (.set (s.timestamp + 1) node value) := by
  obtain ⟨hkind, hreg, hnode, hkind', hreg', hauthor, hvalue, hts, hbumped⟩ := netCrdtSet_some hset
  have hts' := eq_succ_of_toNat hts
  have hlatest := h.reflects.register hkind
  have hnew : ∀ timestamp author value, .wrote timestamp author value ∈ s.knows log →
      timestamp < s'.timestamp := by
    intro timestamp author value hmem
    rw [UInt64.lt_iff_toNat_lt, hts]
    rcases hlatest.covers _ _ _ hmem with hlt | ⟨rfl, -⟩
    · have := UInt64.lt_iff_toNat_lt.mp hlt
      omega
    · omega
  refine ⟨_, Extends.of_append hfull h hbumped (hkind'.trans hkind.symm)
    ((NetCrdt.valid_register hkind').mpr hreg') (hlog.append (fun _ => ?_) fun h2 => ?_)
    ⟨fun _ => ?_, fun h2 => absurd (hkind'.symm.trans h2) (by decide)⟩⟩
  · obtain ⟨hwrites, hunique⟩ := hlog.writes hkind (nodeIndex node)
    -- the node knows all of its writes, and this one is later
    have hearlier : ∀ author value, .set (s.timestamp + 1) author value ∉ log (nodeIndex node) := by
      intro author value hmem
      have hknown : .wrote (s.timestamp + 1) author value ∈ s.knows log := by
        refine wrote_mem_facts.mpr ⟨nodeIndex node, ?_⟩
        dsimp only
        rwa [hfull, List.take_length]
      have hlt := hnew _ _ _ hknown
      rw [hts'] at hlt
      exact absurd hlt (UInt64.lt_irrefl _)
    refine ⟨fun e he => ?_, fun timestamp author v author' v' hv hv' => ?_⟩
    · rcases List.mem_append.mp he with he | he
      · exact hwrites e he
      · rw [List.mem_singleton.mp he]
        refine ⟨_, _, _, rfl, fun hzero => ?_, rfl⟩
        rw [← hts'] at hzero
        rw [hzero] at hts
        exact absurd hts (by simp)
    · rcases List.mem_append.mp hv with hv | hv <;> rcases List.mem_append.mp hv' with hv' | hv'
      · exact hunique _ _ _ _ _ hv hv'
      · cases List.mem_singleton.mp hv'
        exact absurd hv (hearlier _ _)
      · cases List.mem_singleton.mp hv
        exact absurd hv' (hearlier _ _)
      · cases List.mem_singleton.mp hv
        cases List.mem_singleton.mp hv'
        rfl
  · exact absurd (hkind.symm.trans h2) (by decide)
  · rw [← hts', ← hauthor, ← hvalue]
    refine ⟨fun _ => Or.inl rfl, fun timestamp author v hmem => ?_⟩
    rcases hmem with hmem | hmem
    · cases hmem
      exact Or.inr ⟨rfl, UInt32.le_refl _⟩
    · exact Or.inl (hnew _ _ _ hmem)

/-- An add extends its node's log by one event with a fresh counter. -/
theorem Explains.add {item : UInt64} (hadd : netCrdtAdd s node item = some s') :
    ∃ log', Extends s.kind log log' s s' node
      (.add ⟨node, s.vector (nodeIndex node) + 1, item⟩) := by
  have hkind : s.kind = 2 := by
    rcases NetCrdt.kind_of_valid h.valid with h1 | h2
    · unfold netCrdtAdd at hadd
      rw [if_pos (Or.inr (Or.inl (by rw [h1]; decide)))] at hadd
      cases hadd
    · exact h2
  obtain ⟨-, -, hnode, hkind', hset', hbumped, hshows⟩ :=
    netCrdtAdd_some hadd (h.reflects.dots hkind)
  have hcounter := eq_succ_of_toNat hbumped.self
  rw [hcounter] at hshows
  refine ⟨_, Extends.of_append hfull h hbumped (hkind'.trans hkind.symm)
    ((NetCrdt.valid_dots hkind').mpr hset') (hlog.append (fun h1 => ?_) fun _ a ha => ?_)
    ⟨fun h1 => absurd (hkind'.symm.trans h1) (by decide), fun _ => ?_⟩⟩
  · exact absurd (hkind.symm.trans h1) (by decide)
  · cases ha
    refine ⟨hnode, rfl, ?_⟩
    rw [← hcounter, hbumped.self, hfull]
  · have hadded : addedIn ((ReplicaEvent.add ⟨node, s.vector (nodeIndex node) + 1, item⟩).facts ∪
        s.knows log) = insert ⟨node, s.vector (nodeIndex node) + 1, item⟩
          (addedIn (s.knows log)) := by
      ext a
      refine or_congr_left ⟨fun ha => ?_, fun ha => ?_⟩
      · cases ha
        rfl
      · rw [ha]
        rfl
    have hremoved : removedIn
        ((ReplicaEvent.add ⟨node, s.vector (nodeIndex node) + 1, item⟩).facts ∪ s.knows log) =
        removedIn (s.knows log) := by
      ext a
      refine or_iff_right fun ha => ?_
      cases ha
    rw [hadded, hremoved]
    exact hshows

/-- A remove extends the log by an event over the additions it observed. -/
theorem Explains.remove {item : UInt64}
    (hremove : netCrdtRemove s node item = some s') : ∃ log', Extends s.kind log log' s s' node
      (.remove ((s.dots.filter fun d => d.value = item).map NetDot.addition)) := by
  obtain ⟨hkind, hset, hnode, hkind', hset', hdots, hcases⟩ := netCrdtRemove_some hremove
  have hshows := h.reflects.dots hkind
  generalize he : ReplicaEvent.remove ((s.dots.filter fun d => d.value = item).map
    NetDot.addition) = e
  -- the remove observes the additions of its item
  have hobserved : ∀ a, .removed a ∈ e.facts ↔ a ∈ addedIn (s.knows log) ∧ a.value = item := by
    intro a
    subst he
    constructor
    · rintro ⟨b, hb, heq⟩
      cases heq
      obtain ⟨d, hd, rfl⟩ := List.mem_map.mp hb
      obtain ⟨hd, hvalue⟩ := List.mem_filter.mp hd
      exact ⟨((hshows.mem_iff d).mp hd).1, of_decide_eq_true hvalue⟩
    · rintro ⟨ha, hvalue⟩
      obtain ⟨d, hd, rfl⟩ := hshows.exists_dot ha
      exact ⟨d.addition, List.mem_map.mpr ⟨d, List.mem_filter.mpr ⟨hd, decide_eq_true hvalue⟩, rfl⟩,
        rfl⟩
  have hadded : addedIn (e.facts ∪ s.knows log) = addedIn (s.knows log) := by
    ext a
    refine or_iff_right fun ha => ?_
    subst he
    obtain ⟨b, -, heq⟩ := ha
    cases heq
  have hremoved : removedIn (e.facts ∪ s.knows log) =
      removedIn (s.knows log) ∪ {a ∈ addedIn (s.knows log) | a.value = item} := by
    rw [Set.union_comm, removedIn_union]
    congr 1
    ext a
    exact hobserved a
  have hshows' : DotsShow s'.dots (addedIn (e.facts ∪ s.knows log))
      (removedIn (e.facts ∪ s.knows log)) := by
    rw [hadded, hremoved, hdots]
    exact hshows.map_markRemoved item
  rcases hcases with hbumped | rfl
  · refine ⟨_, Extends.of_append hfull h hbumped (hkind'.trans hkind.symm)
      ((NetCrdt.valid_dots hkind').mpr hset') (hlog.append (fun h1 => ?_) fun _ a ha => ?_)
      ⟨fun h1 => absurd (hkind'.symm.trans h1) (by decide), fun _ => hshows'⟩⟩
    · exact absurd (hkind.symm.trans h1) (by decide)
    · rw [← he] at ha
      cases ha
  · -- nothing was left to remove: the facts are known
    refine ⟨log, hlog, fun i => List.prefix_refl _, fun _ _ => rfl, h, rfl, hfull,
      fun i => UInt64.le_refl _, ?_⟩
    refine (Set.union_eq_self_of_subset_left fun fact hfact => ?_).symm
    have hsame := hshows'.removals_eq.symm.trans hshows.removals_eq
    obtain ⟨a, rfl⟩ : ∃ a, fact = .removed a := by
      rw [← he] at hfact
      obtain ⟨a, -, heq⟩ := hfact
      exact ⟨a, heq⟩
    have hmem : a ∈ removedIn (e.facts ∪ s'.knows log) := Or.inl hfact
    rw [hsame] at hmem
    exact hmem

/-- **A local operation** of a node that knows all its earlier ones. -/
theorem Explains.operation {operation : ReplicaOperation}
    (happly : operation.apply s node = some s') :
    ∃ log', Extends s.kind log log' s s' node (operation.event s node) := by
  cases operation with
  | set value => exact h.set hlog hfull happly
  | add item => exact h.add hlog hfull happly
  | remove item => exact h.remove hlog hfull happly

end Explained

end Jani
