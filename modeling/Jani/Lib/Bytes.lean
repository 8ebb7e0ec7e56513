import Mathlib.Data.List.Basic
import Mathlib.Tactic.Ring
import Mathlib.Tactic.NormNum

/-!
# Little-endian words in byte strings

Byte strings are `List UInt8`.  `leBytes k n` is the `k`-byte little-endian image of `n` and
`ofLeBytes` reads a byte string back as a number (`ofLeBytes_leBytes`).  On top of them:

* `le32`, `le64` and the readers `get32`, `get64`, which take one word off the front of a byte
  string and return the rest, so that a record laid out field after field is read back field
  after field (`get32_le32_append`, `get64_le64_append`);
* `u32At`, `u64At`, the same words at a given offset;
* `Block n`, the byte strings of length exactly `n`, with `Block.ofBytes` the zero-padded image;
* `writeAt` and `moveDown`, the effect of `memcpy` and of a downward `memmove` on a buffer.
-/

namespace Jani

/-! ### Places in small arrays

The arrays of two and of four entries are functions on `Fin 2` and `Fin 4`. -/

instance neZeroTwo : NeZero 2 := ⟨by decide⟩

instance neZeroFour : NeZero 4 := ⟨by decide⟩

/-! ### Words -/

/-- The `k` low-order base-256 digits of `n`, least significant first. -/
def leBytes : Nat → Nat → List UInt8
  | 0, _ => []
  | k + 1, n => UInt8.ofNat n :: leBytes k (n / 256)

/-- The number whose base-256 digits are the given bytes, least significant first. -/
def ofLeBytes : List UInt8 → Nat
  | [] => 0
  | b :: bs => b.toNat + 256 * ofLeBytes bs

@[simp]
theorem length_leBytes : ∀ k n : Nat, (leBytes k n).length = k
  | 0, _ => rfl
  | k + 1, n => by rw [leBytes, List.length_cons, length_leBytes k]

theorem ofLeBytes_leBytes : ∀ k n : Nat, ofLeBytes (leBytes k n) = n % 256 ^ k
  | 0, n => by simp [leBytes, ofLeBytes, Nat.mod_one]
  | k + 1, n => by
    have hbyte : (UInt8.ofNat n).toNat = n % 256 := UInt8.toNat_ofNat'
    rw [leBytes, ofLeBytes, ofLeBytes_leBytes k, hbyte, pow_succ, Nat.mul_comm (256 ^ k) 256,
      Nat.mod_mul]

/-- The image of a 32-bit word. -/
def le32 (x : UInt32) : List UInt8 := leBytes 4 x.toNat

/-- The image of a 64-bit word. -/
def le64 (x : UInt64) : List UInt8 := leBytes 8 x.toNat

@[simp] theorem length_le32 (x : UInt32) : (le32 x).length = 4 := length_leBytes 4 _

@[simp] theorem length_le64 (x : UInt64) : (le64 x).length = 8 := length_leBytes 8 _

/-- Take a 32-bit word off the front. -/
def get32 (l : List UInt8) : UInt32 × List UInt8 := (UInt32.ofNat (ofLeBytes (l.take 4)), l.drop 4)

/-- Take a 64-bit word off the front. -/
def get64 (l : List UInt8) : UInt64 × List UInt8 := (UInt64.ofNat (ofLeBytes (l.take 8)), l.drop 8)

@[simp]
theorem get32_le32_append (x : UInt32) (l : List UInt8) : get32 (le32 x ++ l) = (x, l) := by
  have hlt : x.toNat < 256 ^ 4 := x.toNat_lt
  rw [get32, List.take_left' (length_le32 x), List.drop_left' (length_le32 x), le32,
    ofLeBytes_leBytes, Nat.mod_eq_of_lt hlt, UInt32.ofNat_toNat]

@[simp]
theorem get64_le64_append (x : UInt64) (l : List UInt8) : get64 (le64 x ++ l) = (x, l) := by
  have hlt : x.toNat < 256 ^ 8 := x.toNat_lt
  rw [get64, List.take_left' (length_le64 x), List.drop_left' (length_le64 x), le64,
    ofLeBytes_leBytes, Nat.mod_eq_of_lt hlt, UInt64.ofNat_toNat]

/-- The 32-bit word at offset `off`. -/
def u32At (l : List UInt8) (off : Nat) : UInt32 := (get32 (l.drop off)).1

/-- The 64-bit word at offset `off`. -/
def u64At (l : List UInt8) (off : Nat) : UInt64 := (get64 (l.drop off)).1

theorem u32At_append_right {l r : List UInt8} {off n : Nat} (h : l.length = n) :
    u32At (l ++ r) (n + off) = u32At r off := by
  rw [u32At, u32At, ← List.drop_drop, List.drop_left' h]

theorem u64At_append_right {l r : List UInt8} {off n : Nat} (h : l.length = n) :
    u64At (l ++ r) (n + off) = u64At r off := by
  rw [u64At, u64At, ← List.drop_drop, List.drop_left' h]

@[simp] theorem u32At_le32_append (x : UInt32) (r : List UInt8) : u32At (le32 x ++ r) 0 = x := by
  simp [u32At]

@[simp] theorem u64At_le64_append (x : UInt64) (r : List UInt8) : u64At (le64 x ++ r) 0 = x := by
  simp [u64At]

/-! ### Arrays of fixed-size records -/

theorem drop_flatMap {α : Type*} (f : α → List UInt8) {k : Nat} (hf : ∀ a, (f a).length = k)
    (r : List UInt8) : ∀ (l : List α) (i : Nat) (hi : i < l.length),
      ∃ r', (l.flatMap f ++ r).drop (k * i) = f (l.get ⟨i, hi⟩) ++ r'
  | a :: l, 0, _ => ⟨l.flatMap f ++ r, by simp⟩
  | a :: l, i + 1, hi => by
    obtain ⟨r', hr'⟩ := drop_flatMap f hf r l i (by simpa using hi)
    refine ⟨r', ?_⟩
    rw [List.flatMap_cons, List.append_assoc, Nat.mul_succ, Nat.add_comm, ← List.drop_drop,
      List.drop_left' (hf a), hr']
    rfl

theorem length_flatMap_const {α : Type*} (f : α → List UInt8) {k : Nat}
    (hf : ∀ a, (f a).length = k) : ∀ l : List α, (l.flatMap f).length = k * l.length
  | [] => by simp
  | a :: l => by
    rw [List.flatMap_cons, List.length_append, hf a, length_flatMap_const f hf l,
      List.length_cons, Nat.mul_succ, Nat.add_comm]

theorem drop_flatMap_const {α : Type*} (f : α → List UInt8) {k : Nat} (hf : ∀ a, (f a).length = k) :
    ∀ (l : List α) (n : Nat), (l.flatMap f).drop (k * n) = (l.drop n).flatMap f
  | [], n => by simp
  | _ :: _, 0 => rfl
  | a :: l, n + 1 => by
    rw [List.flatMap_cons, Nat.mul_succ, Nat.add_comm, ← List.drop_drop, List.drop_left' (hf a),
      drop_flatMap_const f hf l n, List.drop_succ_cons]

/-! ### Blocks -/

/-- Byte strings of length exactly `n`. -/
structure Block (n : Nat) where
  bytes : List UInt8
  length_bytes : bytes.length = n
deriving DecidableEq, Repr

namespace Block

variable {n : Nat}

@[ext]
theorem ext {a b : Block n} (h : a.bytes = b.bytes) : a = b := by
  cases a; cases b; cases h; rfl

/-- The image of `l` in a block, padded with zeros (and cut at `n` bytes). -/
def ofBytes (n : Nat) (l : List UInt8) : Block n :=
  ⟨(l ++ List.replicate n 0).take n, by simp⟩

/-- The block of zeros. -/
def zero (n : Nat) : Block n := ⟨List.replicate n 0, List.length_replicate⟩

theorem bytes_ofBytes {l : List UInt8} (h : l.length ≤ n) :
    (ofBytes n l).bytes = l ++ List.replicate (n - l.length) 0 := by
  have hmin : min (n - l.length) n = n - l.length := by omega
  change (l ++ List.replicate n 0).take n = _
  rw [List.take_append, List.take_of_length_le h, List.take_replicate, hmin]

end Block

/-! ### Buffers -/

/-- The buffer after `memcpy(buf + off, bytes, length)`. -/
def writeAt (buf : List UInt8) (off : Nat) (bytes : List UInt8) : List UInt8 :=
  buf.take off ++ bytes ++ buf.drop (off + bytes.length)

/-- The buffer after `memmove(buf + dst, buf + src, count)`, for `dst ≤ src`. -/
def moveDown (buf : List UInt8) (dst src count : Nat) : List UInt8 :=
  buf.take dst ++ (buf.drop src).take count ++ buf.drop (dst + count)

end Jani
