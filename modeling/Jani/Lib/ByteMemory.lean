import Jani.Lib.Bytes
import Mathlib.Data.List.GetD

/-!
# A memory of bytes

`Memory` maps addresses to bytes.  `load64` and `store64` access little-endian words, `storeBytes`
writes a byte string and `copyBytes` is `memcpy` between ranges that do not overlap.  What a store
leaves alone is said by `SameOutside`, and what a load or `bytesAt` depends on by `SameOn`.

`Chain next p l` says that the pointers of `l`, in order, are reached from `p` by following `next`
up to the null pointer, which is how a singly linked list lies in memory.
-/

namespace Jani

abbrev Memory := Nat → UInt8

/-- The bytes from address `a` on. -/
def bytesAt (m : Memory) (a n : Nat) : List UInt8 := (List.range n).map fun i => m (a + i)

def load64 (m : Memory) (a : Nat) : UInt64 := UInt64.ofNat (ofLeBytes (bytesAt m a 8))

def storeBytes (m : Memory) (a : Nat) (bytes : List UInt8) : Memory :=
  fun x => if a ≤ x ∧ x < a + bytes.length then bytes.getD (x - a) 0 else m x

def store64 (m : Memory) (a : Nat) (v : UInt64) : Memory := storeBytes m a (le64 v)

def copyBytes (m : Memory) (destination source n : Nat) : Memory :=
  storeBytes m destination (bytesAt m source n)

/-- The two memories agree on the `n` bytes from `a` on. -/
def SameOn (m m' : Memory) (a n : Nat) : Prop := ∀ x, a ≤ x → x < a + n → m' x = m x

/-- The two memories agree except on the `n` bytes from `a` on. -/
def SameOutside (m m' : Memory) (a n : Nat) : Prop := ∀ x, x < a ∨ a + n ≤ x → m' x = m x

@[simp] theorem length_bytesAt (m : Memory) (a n : Nat) : (bytesAt m a n).length = n := by
  simp [bytesAt]

theorem SameOn.refl (m : Memory) (a n : Nat) : SameOn m m a n := fun _ _ _ => rfl

theorem SameOn.trans {m m' m'' : Memory} {a n : Nat} (h : SameOn m m' a n)
    (h' : SameOn m' m'' a n) : SameOn m m'' a n := fun x hx hx' => (h' x hx hx').trans (h x hx hx')

variable {m m' : Memory}

theorem SameOn.mono {a n b k : Nat} (h : SameOn m m' a n) (hb : a ≤ b) (hk : b + k ≤ a + n) :
    SameOn m m' b k := fun x hx hx' => h x (by omega) (by omega)

theorem SameOutside.sameOn {a n b k : Nat} (h : SameOutside m m' a n)
    (hdisjoint : b + k ≤ a ∨ a + n ≤ b) : SameOn m m' b k := fun x hx hx' => h x (by omega)

theorem SameOutside.trans {m m' m'' : Memory} {a n : Nat} (h : SameOutside m m' a n)
    (h' : SameOutside m' m'' a n) : SameOutside m m'' a n := fun x hx => (h' x hx).trans (h x hx)

theorem SameOutside.mono {a n b k : Nat} (h : SameOutside m m' b k) (hb : a ≤ b)
    (hk : b + k ≤ a + n) : SameOutside m m' a n := fun x hx => h x (by omega)

theorem SameOn.bytesAt {a n : Nat} (h : SameOn m m' a n) : bytesAt m' a n = bytesAt m a n := by
  unfold Jani.bytesAt
  refine List.map_congr_left fun i hi => h _ (Nat.le_add_right _ _) ?_
  have := List.mem_range.mp hi
  omega

theorem SameOn.load64 {a n b : Nat} (h : SameOn m m' a n) (hb : a ≤ b) (hn : b + 8 ≤ a + n) :
    load64 m' b = load64 m b := by
  rw [Jani.load64, (h.mono hb hn).bytesAt, Jani.load64]

theorem storeBytes_sameOutside (m : Memory) (a : Nat) (bytes : List UInt8) :
    SameOutside m (storeBytes m a bytes) a bytes.length := by
  intro x hx
  exact if_neg (by omega)

theorem store64_sameOutside (m : Memory) (a : Nat) (v : UInt64) :
    SameOutside m (store64 m a v) a 8 := by
  have := storeBytes_sameOutside m a (le64 v)
  rwa [length_le64] at this

theorem bytesAt_storeBytes (m : Memory) (a : Nat) (bytes : List UInt8) :
    bytesAt (storeBytes m a bytes) a bytes.length = bytes := by
  refine List.ext_getElem (length_bytesAt _ _ _) fun i hi hi' => ?_
  have hget : (bytesAt (storeBytes m a bytes) a bytes.length)[i] =
      storeBytes m a bytes (a + i) := by simp [bytesAt]
  rw [hget, storeBytes, if_pos (by omega), Nat.add_sub_cancel_left, List.getD_eq_getElem _ _ hi']

theorem load64_store64 (m : Memory) (a : Nat) (v : UInt64) : load64 (store64 m a v) a = v := by
  have hlt : v.toNat < 256 ^ 8 := v.toNat_lt
  have hbytes := bytesAt_storeBytes m a (le64 v)
  rw [length_le64] at hbytes
  rw [load64, store64, hbytes, le64, ofLeBytes_leBytes, Nat.mod_eq_of_lt hlt, UInt64.ofNat_toNat]

theorem load64_store64_of_ne (m : Memory) {a b : Nat} (v : UInt64) (h : b + 8 ≤ a ∨ a + 8 ≤ b) :
    load64 (store64 m a v) b = load64 m b :=
  ((store64_sameOutside m a v).sameOn h).load64 (Nat.le_refl b) (Nat.le_refl _)

/-! ### Linked lists -/

/-- The pointers reached from `p` by following `next`. -/
def Chain (next : UInt64 → UInt64) : UInt64 → List UInt64 → Prop
  | p, [] => p = 0
  | p, q :: l => p = q ∧ q ≠ 0 ∧ Chain next (next q) l

instance Chain.decidable (next : UInt64 → UInt64) : ∀ p l, Decidable (Chain next p l)
  | p, [] => inferInstanceAs (Decidable (p = 0))
  | _, q :: l =>
    have := Chain.decidable next (next q) l
    inferInstanceAs (Decidable (_ ∧ _ ∧ _))

variable {next : UInt64 → UInt64}

theorem Chain.unique : ∀ {l l' : List UInt64} {p : UInt64},
    Chain next p l → Chain next p l' → l = l'
  | [], [], _, _, _ => rfl
  | [], _ :: _, _, h, h' => absurd (h'.1.symm.trans h) h'.2.1
  | _ :: _, [], _, h, h' => absurd (h.1.symm.trans h') h.2.1
  | q :: l, q' :: l', _, h, h' => by
    obtain rfl : q = q' := h.1.symm.trans h'.1
    rw [Chain.unique h.2.2 h'.2.2]

theorem Chain.congr {next next' : UInt64 → UInt64} : ∀ {l : List UInt64} {p : UInt64},
    Chain next p l → (∀ q ∈ l, next' q = next q) → Chain next' p l
  | [], _, h, _ => h
  | q :: l, p, ⟨hp, hq, h⟩, hsame => by
    refine ⟨hp, hq, ?_⟩
    rw [hsame q List.mem_cons_self]
    exact h.congr fun q' hq' => hsame q' (List.mem_cons_of_mem _ hq')

theorem Chain.ne_zero : ∀ {l : List UInt64} {p : UInt64}, Chain next p l → ∀ q ∈ l, q ≠ 0
  | q' :: l, p, ⟨_, hq', h⟩, q, hq => by
    rcases List.mem_cons.mp hq with rfl | hq
    · exact hq'
    · exact h.ne_zero q hq

theorem Chain.next_mem : ∀ {l : List UInt64} {p : UInt64},
    Chain next p l → ∀ q ∈ l, next q = 0 ∨ next q ∈ l
  | q' :: l, p, ⟨_, _, h⟩, q, hq => by
    rcases List.mem_cons.mp hq with rfl | hq
    · cases l with
      | nil => exact Or.inl h
      | cons q'' l =>
        right
        rw [h.1]
        exact List.mem_cons_of_mem _ List.mem_cons_self
    · rcases h.next_mem q hq with h0 | hmem
      · exact Or.inl h0
      · exact Or.inr (List.mem_cons_of_mem _ hmem)

theorem Chain.unlink {next next' : UInt64 → UInt64} {x q : UInt64} {after : List UInt64}
    (hx : next' x = next q) : ∀ {before : List UInt64} {p : UInt64},
    Chain next p (before ++ x :: q :: after) →
    (∀ y ∈ before ++ after, next' y = next y) → Chain next' p (before ++ x :: after)
  | [], p, ⟨hp, hx0, _, _, h⟩, hsame => by
    refine ⟨hp, hx0, ?_⟩
    rw [hx]
    exact h.congr fun y hy => hsame y hy
  | y :: before, p, ⟨hp, hy0, h⟩, hsame => by
    refine ⟨hp, hy0, ?_⟩
    rw [hsame y List.mem_cons_self]
    exact Chain.unlink hx h fun z hz => hsame z (List.mem_cons_of_mem _ hz)

end Jani
