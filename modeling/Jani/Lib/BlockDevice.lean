import Mathlib.Data.List.Basic

/-!
# Programs over a block device with a volatile write cache

A `Disk σ` holds sectors of type `σ`: the durable ones and the whole-sector writes not yet
flushed.  A read sees the newest write (`Disk.view`), a flush makes every pending write durable,
and a power cut keeps an arbitrary subset of the pending writes (`Disk.Survives`).

A `Prog σ α` is a program that reads and writes sectors and flushes, and returns an `α`; each
call tells the program whether it succeeded.  Its executions (`Exec`), with the calls that may
fail given by `Faults`, and the writes and flushes it issues on the way (`Emits`) are relations;
`run` is the execution in which no call fails.

Proofs about programs go through the weakest precondition `wp`: `wp m I p Q d` says that every
execution of `p` from `d` ends in `Q`, and that every write or flush is issued on a disk that
satisfies `I` (`wp_iff`).  `wp_bind` splits a program, `wp_writeAll_view` and
`wp_writeAll_clean` treat a group of writes closed by a flush.
-/

namespace Jani

/-! ### Disks -/

/-- Durable sectors and the writes not flushed yet, newest first. -/
structure Disk (σ : Type) where
  durable : Nat → σ
  pending : List (Nat × σ)

namespace Disk

variable {σ : Type}

/-- What a read of sector `s` returns. -/
def view (d : Disk σ) (s : Nat) : σ := (d.pending.lookup s).getD (d.durable s)

def write (d : Disk σ) (s : Nat) (b : σ) : Disk σ := { d with pending := (s, b) :: d.pending }

def flush (d : Disk σ) : Disk σ := ⟨d.view, []⟩

/-- A disk with nothing pending. -/
def clean (D : Nat → σ) : Disk σ := ⟨D, []⟩

/-- `D` is a possible content after a power cut: every sector is the durable one or one of the
pending writes. -/
def Survives (d : Disk σ) (D : Nat → σ) : Prop :=
  ∀ s, D s = d.durable s ∨ (s, D s) ∈ d.pending

@[simp] theorem view_clean (D : Nat → σ) : (clean D).view = D := rfl

@[simp]
theorem view_write (d : Disk σ) (s : Nat) (b : σ) :
    (d.write s b).view = Function.update d.view s b := by
  funext t
  rcases eq_or_ne t s with rfl | hne
  · simp [view, write]
  · have hbeq : (t == s) = false := by simpa using hne
    simp [view, write, List.lookup_cons, hbeq, hne]

theorem flush_eq_clean (d : Disk σ) : d.flush = clean d.view := rfl

theorem survives_clean_iff {D D' : Nat → σ} : (clean D).Survives D' ↔ D' = D := by
  simp [Survives, clean, funext_iff]

end Disk

/-- The sectors after the writes `ws`, in order. -/
def applyWrites {σ : Type} (D : Nat → σ) : List (Nat × σ) → Nat → σ
  | [] => D
  | (s, b) :: ws => applyWrites (Function.update D s b) ws

theorem applyWrites_of_notMem {σ : Type} : ∀ (ws : List (Nat × σ)) (D : Nat → σ) (s : Nat),
    s ∉ ws.map Prod.fst → applyWrites D ws s = D s
  | [], _, _, _ => rfl
  | (t, b) :: ws, D, s, h => by
    rw [List.map_cons, List.mem_cons, not_or] at h
    rw [applyWrites, applyWrites_of_notMem ws _ s h.2, Function.update_of_ne h.1]

theorem applyWrites_of_mem {σ : Type} : ∀ (ws : List (Nat × σ)) (D : Nat → σ) (s : Nat) (b : σ),
    (ws.map Prod.fst).Nodup → (s, b) ∈ ws → applyWrites D ws s = b
  | (t, c) :: ws, D, s, b, hnd, h => by
    rw [List.map_cons, List.nodup_cons] at hnd
    rw [applyWrites]
    rcases List.mem_cons.mp h with h | h
    · obtain ⟨rfl, rfl⟩ := Prod.mk.inj h
      rw [applyWrites_of_notMem ws _ _ hnd.1, Function.update_self]
    · exact applyWrites_of_mem ws _ s b hnd.2 h

theorem applyWrites_cases {σ : Type} : ∀ (ws : List (Nat × σ)) (D : Nat → σ) (s : Nat),
    applyWrites D ws s = D s ∨ (s, applyWrites D ws s) ∈ ws
  | [], _, _ => Or.inl rfl
  | (t, b) :: ws, D, s => by
    rw [applyWrites]
    rcases applyWrites_cases ws (Function.update D t b) s with h | h
    · by_cases hst : s = t
      · subst hst
        rw [Function.update_self] at h
        rw [h]
        exact Or.inr List.mem_cons_self
      · rw [Function.update_of_ne hst] at h
        exact Or.inl h
    · exact Or.inr (List.mem_cons_of_mem _ h)

/-! ### Programs -/

/-- A program over sectors of type `σ`.  Reads return `none`, and writes and flushes `false`,
when the call fails. -/
inductive Prog (σ α : Type) where
  | ret : α → Prog σ α
  | read : Nat → (Option σ → Prog σ α) → Prog σ α
  | write : Nat → σ → (Bool → Prog σ α) → Prog σ α
  | flush : (Bool → Prog σ α) → Prog σ α

namespace Prog

variable {σ α β : Type}

protected def bind : Prog σ α → (α → Prog σ β) → Prog σ β
  | ret a, f => f a
  | read s k, f => read s fun r => (k r).bind f
  | write s b k, f => write s b fun r => (k r).bind f
  | flush k, f => flush fun r => (k r).bind f

instance : Monad (Prog σ) where
  pure := ret
  bind := Prog.bind

theorem bind_assoc {γ : Type} (p : Prog σ α) (f : α → Prog σ β) (g : β → Prog σ γ) :
    p >>= f >>= g = p >>= fun a => f a >>= g := by
  change (p.bind f).bind g = p.bind fun a => (f a).bind g
  induction p with
  | ret a => rfl
  | read s k ih => exact congrArg (read s) (funext ih)
  | write s b k ih => exact congrArg (write s b) (funext ih)
  | flush k ih => exact congrArg flush (funext ih)

end Prog

section Calls

variable {σ : Type}

def readSector (s : Nat) : Prog σ (Option σ) := .read s .ret

def writeSector (s : Nat) (b : σ) : Prog σ Bool := .write s b .ret

def flushDisk : Prog σ Bool := .flush .ret

/-- Write the given sectors in order and flush, giving up at the first call that fails. -/
def writeAll : List (Nat × σ) → Prog σ Bool
  | [] => flushDisk
  | (s, b) :: ws => do
    if !(← writeSector s b) then
      return false
    writeAll ws

end Calls

/-! ### Executions -/

/-- Which calls of the device may fail. -/
structure Faults where
  reads : Prop
  writes : Prop

/-- A device on which every call succeeds. -/
def Faults.none : Faults := ⟨False, False⟩

/-- A device on which any call may fail. -/
def Faults.all : Faults := ⟨True, True⟩

/-- A write or a flush. -/
inductive Event (σ : Type) where
  | write : Nat → σ → Event σ
  | flush : Event σ

/-- The disk on which a power cut during the event finds itself. -/
def Event.disk {σ : Type} (d : Disk σ) : Event σ → Disk σ
  | .write s b => d.write s b
  | .flush => d

section Semantics

variable {σ α β : Type}

/-- `Exec m p d a d'`: `p` may return `a` and leave `d'`.  A write that reports failure may have
reached the device or not. -/
inductive Exec (m : Faults) : Prog σ α → Disk σ → α → Disk σ → Prop where
  | ret (a : α) (d : Disk σ) : Exec m (.ret a) d a d
  | readOk {s : Nat} {k : Option σ → Prog σ α} {d d' : Disk σ} {a : α} :
      Exec m (k (some (d.view s))) d a d' → Exec m (.read s k) d a d'
  | readFail {s : Nat} {k : Option σ → Prog σ α} {d d' : Disk σ} {a : α} :
      m.reads → Exec m (k Option.none) d a d' → Exec m (.read s k) d a d'
  | writeOk {s : Nat} {b : σ} {k : Bool → Prog σ α} {d d' : Disk σ} {a : α} :
      Exec m (k true) (d.write s b) a d' → Exec m (.write s b k) d a d'
  | writeFail {s : Nat} {b : σ} {k : Bool → Prog σ α} {d d' : Disk σ} {a : α} :
      m.writes → Exec m (k false) d a d' → Exec m (.write s b k) d a d'
  | writeReached {s : Nat} {b : σ} {k : Bool → Prog σ α} {d d' : Disk σ} {a : α} :
      m.writes → Exec m (k false) (d.write s b) a d' → Exec m (.write s b k) d a d'
  | flushOk {k : Bool → Prog σ α} {d d' : Disk σ} {a : α} :
      Exec m (k true) d.flush a d' → Exec m (.flush k) d a d'
  | flushFail {k : Bool → Prog σ α} {d d' : Disk σ} {a : α} :
      m.writes → Exec m (k false) d a d' → Exec m (.flush k) d a d'

/-- `Emits m p d e d'`: on some execution of `p` from `d`, the event `e` is issued on `d'`. -/
inductive Emits (m : Faults) : Prog σ α → Disk σ → Event σ → Disk σ → Prop where
  | write (s : Nat) (b : σ) (k : Bool → Prog σ α) (d : Disk σ) :
      Emits m (.write s b k) d (.write s b) d
  | flush (k : Bool → Prog σ α) (d : Disk σ) : Emits m (.flush k) d .flush d
  | readOk {s : Nat} {k : Option σ → Prog σ α} {d d' : Disk σ} {e : Event σ} :
      Emits m (k (some (d.view s))) d e d' → Emits m (.read s k) d e d'
  | readFail {s : Nat} {k : Option σ → Prog σ α} {d d' : Disk σ} {e : Event σ} :
      m.reads → Emits m (k Option.none) d e d' → Emits m (.read s k) d e d'
  | writeOk {s : Nat} {b : σ} {k : Bool → Prog σ α} {d d' : Disk σ} {e : Event σ} :
      Emits m (k true) (d.write s b) e d' → Emits m (.write s b k) d e d'
  | writeFail {s : Nat} {b : σ} {k : Bool → Prog σ α} {d d' : Disk σ} {e : Event σ} :
      m.writes → Emits m (k false) d e d' → Emits m (.write s b k) d e d'
  | writeReached {s : Nat} {b : σ} {k : Bool → Prog σ α} {d d' : Disk σ} {e : Event σ} :
      m.writes → Emits m (k false) (d.write s b) e d' → Emits m (.write s b k) d e d'
  | flushOk {k : Bool → Prog σ α} {d d' : Disk σ} {e : Event σ} :
      Emits m (k true) d.flush e d' → Emits m (.flush k) d e d'
  | flushFail {k : Bool → Prog σ α} {d d' : Disk σ} {e : Event σ} :
      m.writes → Emits m (k false) d e d' → Emits m (.flush k) d e d'

/-- The execution in which no call fails. -/
def run : Prog σ α → Disk σ → α × Disk σ
  | .ret a, d => (a, d)
  | .read s k, d => run (k (some (d.view s))) d
  | .write s b k, d => run (k true) (d.write s b)
  | .flush k, d => run (k true) d.flush

theorem run_bind (p : Prog σ α) (f : α → Prog σ β) (d : Disk σ) :
    run (p >>= f) d = run (f (run p d).1) (run p d).2 := by
  change run (p.bind f) d = _
  induction p generalizing d with
  | ret a => rfl
  | read s k ih => exact ih _ d
  | write s b k ih => exact ih true _
  | flush k ih => exact ih true _

theorem run_writeAll : ∀ (ws : List (Nat × σ)) (d : Disk σ),
    run (writeAll ws) d = (true, Disk.clean (applyWrites d.view ws))
  | [], _ => rfl
  | (s, b) :: ws, d => by
    rw [writeAll, run_bind]
    change run (writeAll ws) (d.write s b) = _
    rw [run_writeAll ws, Disk.view_write, applyWrites]

theorem exec_run (m : Faults) (p : Prog σ α) (d : Disk σ) : Exec m p d (run p d).1 (run p d).2 := by
  induction p generalizing d with
  | ret a => exact .ret a d
  | read s k ih => exact .readOk (ih _ d)
  | write s b k ih => exact .writeOk (ih true _)
  | flush k ih => exact .flushOk (ih true _)

theorem exec_none_iff (p : Prog σ α) (d d' : Disk σ) (a : α) :
    Exec Faults.none p d a d' ↔ run p d = (a, d') := by
  constructor
  · intro h
    induction h with
    | ret a d => rfl
    | readOk _ ih => exact ih
    | writeOk _ ih => exact ih
    | flushOk _ ih => exact ih
    | readFail h _ _ => exact h.elim
    | writeFail h _ _ => exact h.elim
    | writeReached h _ _ => exact h.elim
    | flushFail h _ _ => exact h.elim
  · intro h
    have := exec_run Faults.none p d
    rwa [h] at this

/-- The execution in which only the call number `n` fails, without having reached the device. -/
def runFault : Nat → Prog σ α → Disk σ → α × Disk σ
  | _, .ret a, d => (a, d)
  | 0, .read _ k, d => run (k none) d
  | n + 1, .read s k, d => runFault n (k (some (d.view s))) d
  | 0, .write _ _ k, d => run (k false) d
  | n + 1, .write s b k, d => runFault n (k true) (d.write s b)
  | 0, .flush k, d => run (k false) d
  | n + 1, .flush k, d => runFault n (k true) d.flush

theorem exec_runFault (p : Prog σ α) (n : Nat) (d : Disk σ) :
    Exec Faults.all p d (runFault n p d).1 (runFault n p d).2 := by
  induction p generalizing n d with
  | ret a =>
    rw [runFault]
    exact .ret a d
  | read s k ih =>
    cases n with
    | zero => exact .readFail trivial (exec_run _ _ d)
    | succ n => exact .readOk (ih _ n d)
  | write s b k ih =>
    cases n with
    | zero => exact .writeFail trivial (exec_run _ _ d)
    | succ n => exact .writeOk (ih true n _)
  | flush k ih =>
    cases n with
    | zero => exact .flushFail trivial (exec_run _ _ d)
    | succ n => exact .flushOk (ih true n _)

/-! ### Weakest preconditions -/

/-- Every execution of the program from `d` ends in `Q`, and every write or flush on the way is
issued on a disk that satisfies `I`. -/
def wp (m : Faults) (I : Event σ → Disk σ → Prop) : Prog σ α → (α → Disk σ → Prop) → Disk σ → Prop
  | .ret a, Q, d => Q a d
  | .read s k, Q, d => wp m I (k (some (d.view s))) Q d ∧ (m.reads → wp m I (k Option.none) Q d)
  | .write s b k, Q, d =>
    I (.write s b) d ∧ wp m I (k true) Q (d.write s b) ∧
      (m.writes → wp m I (k false) Q d ∧ wp m I (k false) Q (d.write s b))
  | .flush k, Q, d => I .flush d ∧ wp m I (k true) Q d.flush ∧ (m.writes → wp m I (k false) Q d)

variable {m : Faults} {I : Event σ → Disk σ → Prop}

theorem wp_exec {p : Prog σ α} {Q : α → Disk σ → Prop} {d d' : Disk σ} {a : α}
    (h : wp m I p Q d) (hx : Exec m p d a d') : Q a d' := by
  induction hx with
  | ret a d => exact h
  | readOk _ ih => exact ih h.1
  | readFail hm _ ih => exact ih (h.2 hm)
  | writeOk _ ih => exact ih h.2.1
  | writeFail hm _ ih => exact ih (h.2.2 hm).1
  | writeReached hm _ ih => exact ih (h.2.2 hm).2
  | flushOk _ ih => exact ih h.2.1
  | flushFail hm _ ih => exact ih (h.2.2 hm)

theorem wp_emits {p : Prog σ α} {Q : α → Disk σ → Prop} {d d' : Disk σ} {e : Event σ}
    (h : wp m I p Q d) (hx : Emits m p d e d') : I e d' := by
  induction hx with
  | write s b k d => exact h.1
  | flush k d => exact h.1
  | readOk _ ih => exact ih h.1
  | readFail hm _ ih => exact ih (h.2 hm)
  | writeOk _ ih => exact ih h.2.1
  | writeFail hm _ ih => exact ih (h.2.2 hm).1
  | writeReached hm _ ih => exact ih (h.2.2 hm).2
  | flushOk _ ih => exact ih h.2.1
  | flushFail hm _ ih => exact ih (h.2.2 hm)

/-- The weakest precondition says neither more nor less than the two relations. -/
theorem wp_iff (p : Prog σ α) (Q : α → Disk σ → Prop) (d : Disk σ) : wp m I p Q d ↔
      (∀ a d', Exec m p d a d' → Q a d') ∧ ∀ e d', Emits m p d e d' → I e d' := by
  refine ⟨fun h => ⟨fun _ _ => wp_exec h, fun _ _ => wp_emits h⟩, ?_⟩
  rintro ⟨hQ, hI⟩
  induction p generalizing d with
  | ret a => exact hQ a d (.ret a d)
  | read s k ih =>
    refine ⟨ih _ d (fun a d' h => hQ a d' (.readOk h)) fun e d' h => hI e d' (.readOk h), ?_⟩
    intro hm
    exact ih _ d (fun a d' h => hQ a d' (.readFail hm h)) fun e d' h => hI e d' (.readFail hm h)
  | write s b k ih =>
    refine ⟨hI _ _ (.write s b k d), ?_, ?_⟩
    · exact ih _ _ (fun a d' h => hQ a d' (.writeOk h)) fun e d' h => hI e d' (.writeOk h)
    · intro hm
      exact ⟨ih _ _ (fun a d' h => hQ a d' (.writeFail hm h))
          fun e d' h => hI e d' (.writeFail hm h),
        ih _ _ (fun a d' h => hQ a d' (.writeReached hm h))
          fun e d' h => hI e d' (.writeReached hm h)⟩
  | flush k ih =>
    refine ⟨hI _ _ (.flush k d), ?_, ?_⟩
    · exact ih _ _ (fun a d' h => hQ a d' (.flushOk h)) fun e d' h => hI e d' (.flushOk h)
    · intro hm
      exact ih _ _ (fun a d' h => hQ a d' (.flushFail hm h)) fun e d' h => hI e d' (.flushFail hm h)

theorem wp_mono {p : Prog σ α} {Q R : α → Disk σ → Prop} {d : Disk σ} (h : wp m I p Q d)
    (hQR : ∀ a d', Q a d' → R a d') : wp m I p R d := by
  rw [wp_iff] at h ⊢
  exact ⟨fun a d' hx => hQR a d' (h.1 a d' hx), h.2⟩

@[simp]
theorem wp_pure (a : α) (Q : α → Disk σ → Prop) (d : Disk σ) :
    wp m I (pure a : Prog σ α) Q d ↔ Q a d := Iff.rfl

@[simp]
theorem wp_bind (p : Prog σ α) (f : α → Prog σ β) (Q : β → Disk σ → Prop) (d : Disk σ) :
    wp m I (p >>= f) Q d ↔ wp m I p (fun a d' => wp m I (f a) Q d') d := by
  change wp m I (p.bind f) Q d ↔ _
  induction p generalizing d with
  | ret a => exact Iff.rfl
  | read s k ih => simp only [Prog.bind, wp, ih]
  | write s b k ih => simp only [Prog.bind, wp, ih]
  | flush k ih => simp only [Prog.bind, wp, ih]

@[simp]
theorem wp_ite (c : Prop) [Decidable c] (p q : Prog σ α) (Q : α → Disk σ → Prop) (d : Disk σ) :
    wp m I (if c then p else q) Q d ↔ (c → wp m I p Q d) ∧ (¬ c → wp m I q Q d) := by
  split_ifs with h <;> simp [h]

@[simp]
theorem wp_unless_true (p q : Prog σ α) (Q : α → Disk σ → Prop) (d : Disk σ) :
    wp m I (if (!true) = true then p else q) Q d ↔ wp m I q Q d := Iff.rfl

@[simp]
theorem wp_unless_false (p q : Prog σ α) (Q : α → Disk σ → Prop) (d : Disk σ) :
    wp m I (if (!false) = true then p else q) Q d ↔ wp m I p Q d := Iff.rfl

@[simp]
theorem wp_readSector (s : Nat) (Q : Option σ → Disk σ → Prop) (d : Disk σ) :
    wp m I (readSector s) Q d ↔ Q (some (d.view s)) d ∧ (m.reads → Q Option.none d) := Iff.rfl

@[simp]
theorem wp_writeSector (s : Nat) (b : σ) (Q : Bool → Disk σ → Prop) (d : Disk σ) :
    wp m I (writeSector s b) Q d ↔
      I (.write s b) d ∧ Q true (d.write s b) ∧
        (m.writes → Q false d ∧ Q false (d.write s b)) := Iff.rfl

/-! ### Groups of writes -/

/-- A group of writes and its flush, as seen through reads: on success every write is there, on
failure only the sectors of the group may have changed. -/
theorem wp_writeAll_view : ∀ (ws : List (Nat × σ)) (Q : Bool → Disk σ → Prop) (d : Disk σ),
    (∀ w ∈ ws, ∀ d', I (.write w.1 w.2) d') → (∀ d', I .flush d') →
    (∀ d', d'.view = applyWrites d.view ws → Q true d') →
    (m.writes → ∀ d', (∀ s, s ∉ ws.map Prod.fst → d'.view s = d.view s) → Q false d') →
    wp m I (writeAll ws) Q d
  | [], Q, d, _, hf, hok, hfail =>
    ⟨hf d, hok _ rfl, fun hm => hfail hm d fun _ _ => rfl⟩
  | (s, b) :: ws, Q, d, hw, hf, hok, hfail => by
    have hrest : wp m I (writeAll ws) Q (d.write s b) := by
      apply wp_writeAll_view ws Q (d.write s b) (fun w hw' => hw w (List.mem_cons_of_mem _ hw')) hf
      · intro d' hd'
        apply hok
        rw [hd', Disk.view_write, applyWrites]
      · intro hm d' hd'
        apply hfail hm
        intro t ht
        rw [List.map_cons, List.mem_cons, not_or] at ht
        rw [hd' t ht.2, Disk.view_write, Function.update_of_ne ht.1]
    have hfail' : m.writes → Q false d ∧ Q false (d.write s b) := by
      intro hm
      refine ⟨hfail hm d fun _ _ => rfl, hfail hm _ fun t ht => ?_⟩
      rw [List.map_cons, List.mem_cons, not_or] at ht
      rw [Disk.view_write, Function.update_of_ne ht.1]
    rw [writeAll]
    simp only [wp_bind, wp_writeSector, wp_ite, wp_pure]
    exact ⟨hw _ List.mem_cons_self _, ⟨by simp, fun _ => hrest⟩,
      fun hm => ⟨⟨fun _ => (hfail' hm).1, by simp⟩, ⟨fun _ => (hfail' hm).2, by simp⟩⟩⟩

/-- The invariant of crash proofs: whatever survives a power cut at the event satisfies `P`. -/
def crashInv (P : (Nat → σ) → Prop) (e : Event σ) (d : Disk σ) : Prop :=
  ∀ D, (e.disk d).Survives D → P D

/-- A group of writes and its flush on a disk with nothing pending, under power cuts: `P` must
hold of every mixture of the old sectors and the group. -/
theorem wp_writeAll_clean {P : (Nat → σ) → Prop} {Q : Bool → Disk σ → Prop} {D : Nat → σ}
    (ws : List (Nat × σ)) (hP : ∀ D', (∀ s, D' s = D s ∨ (s, D' s) ∈ ws) → P D')
    (hQ : Q true (Disk.clean (applyWrites D ws))) :
    wp Faults.none (crashInv P) (writeAll ws) Q (Disk.clean D) := by
  -- the group with the writes `done` already issued
  have key : ∀ (todo done : List (Nat × σ)), (∀ w ∈ done, w ∈ ws) → (∀ w ∈ todo, w ∈ ws) →
      ∀ V : Nat → σ, (⟨D, done⟩ : Disk σ).view = V →
        Q true (Disk.clean (applyWrites V todo)) →
        wp Faults.none (crashInv P) (writeAll todo) Q ⟨D, done⟩ := by
    intro todo
    induction todo with
    | nil =>
      intro done hdone _ V hV hQ'
      refine ⟨fun D' hD' => hP D' fun s => (hD' s).imp id (hdone _), ?_, False.elim⟩
      rw [Disk.flush_eq_clean, hV]
      exact hQ'
    | cons w todo ih =>
      intro done hdone htodo V hV hQ'
      obtain ⟨s, b⟩ := w
      have hmem : ∀ w ∈ (s, b) :: done, w ∈ ws := by
        intro w hw
        rcases List.mem_cons.mp hw with rfl | hw
        · exact htodo _ List.mem_cons_self
        · exact hdone w hw
      have hrest := ih ((s, b) :: done) hmem (fun w hw => htodo w (List.mem_cons_of_mem _ hw))
        (Function.update V s b) (by rw [← hV]; exact Disk.view_write ⟨D, done⟩ s b) hQ'
      rw [writeAll]
      simp only [wp_bind, wp_writeSector, wp_ite, wp_pure]
      refine ⟨fun D' hD' => hP D' fun t => (hD' t).imp id (hmem _), ⟨by simp, fun _ => hrest⟩, ?_⟩
      exact False.elim
  exact key ws [] (by simp) (fun w hw => hw) D rfl hQ

end Semantics

-- from here on programs are taken apart by the `wp` lemmas only
attribute [irreducible] wp

end Jani
