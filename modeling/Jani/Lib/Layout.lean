import Jani.Lib.Bytes
import Mathlib.Data.List.OfFn

/-!
# Layouts of fixed-size records

A `Layout α` is a way to store a value of type `α` in a fixed number of bytes, so that every byte
string of that length is the image of exactly one value.  Words and blocks of bytes have layouts,
and layouts are put together field after field (`Layout.pair`), as arrays (`Layout.array`), and
carried over to a structure from the tuple of its fields (`Layout.map`).

What is written is read back (`Layout.read_write`), whatever follows it.
-/

namespace Jani

variable {α β : Type*}

theorem leBytes_ofLeBytes : ∀ l : List UInt8, leBytes l.length (ofLeBytes l) = l
  | [] => rfl
  | b :: l => by
    have hb := b.toNat_lt
    have hdiv : (b.toNat + 256 * ofLeBytes l) / 256 = ofLeBytes l := by omega
    have hmod : UInt8.ofNat (b.toNat + 256 * ofLeBytes l) = b := by
      apply UInt8.toNat_inj.mp
      rw [UInt8.toNat_ofNat']
      omega
    rw [List.length_cons, leBytes, ofLeBytes, hdiv, hmod, leBytes_ofLeBytes l]

theorem ofLeBytes_lt : ∀ l : List UInt8, ofLeBytes l < 256 ^ l.length
  | [] => by simp [ofLeBytes]
  | b :: l => by
    have hb := b.toNat_lt
    have ih := ofLeBytes_lt l
    rw [ofLeBytes, List.length_cons, pow_succ]
    omega

variable {l : List UInt8} {off : Nat}

theorem le32_u32At (h : off + 4 ≤ l.length) : le32 (u32At l off) = (l.drop off).take 4 := by
  have hlen : ((l.drop off).take 4).length = 4 := by
    rw [List.length_take, List.length_drop]
    omega
  have hlt := ofLeBytes_lt ((l.drop off).take 4)
  rw [hlen] at hlt
  rw [le32, u32At, get32, UInt32.toNat_ofNat_of_lt' hlt]
  have := leBytes_ofLeBytes ((l.drop off).take 4)
  rwa [hlen] at this

theorem le64_u64At (h : off + 8 ≤ l.length) : le64 (u64At l off) = (l.drop off).take 8 := by
  have hlen : ((l.drop off).take 8).length = 8 := by
    rw [List.length_take, List.length_drop]
    omega
  have hlt := ofLeBytes_lt ((l.drop off).take 8)
  rw [hlen] at hlt
  rw [le64, u64At, get64, UInt64.toNat_ofNat_of_lt' hlt]
  have := leBytes_ofLeBytes ((l.drop off).take 8)
  rwa [hlen] at this

/-- The bytes of a string from an offset on begin with those of the word read there. -/
theorem le32_u32At_append (h : off + 4 ≤ l.length) :
    le32 (u32At l off) ++ l.drop (off + 4) = l.drop off := by
  rw [le32_u32At h, ← List.drop_drop, List.take_append_drop]

theorem le64_u64At_append (h : off + 8 ≤ l.length) :
    le64 (u64At l off) ++ l.drop (off + 8) = l.drop off := by
  rw [le64_u64At h, ← List.drop_drop, List.take_append_drop]

structure Layout (α : Type*) where
  size : Nat
  write : α → List UInt8
  read : List UInt8 → α
  length_write : ∀ a, (write a).length = size
  read_append : ∀ a r, read (write a ++ r) = a
  write_read : ∀ l, l.length = size → write (read l) = l

namespace Layout

theorem read_write (f : Layout α) (a : α) : f.read (f.write a) = a := by
  rw [← List.append_nil (f.write a), f.read_append]

theorem write_read_take (f : Layout α) (h : f.size ≤ l.length) :
    f.write (f.read l) = l.take f.size := by
  have htake : (l.take f.size).length = f.size := by rw [List.length_take]; omega
  have hread : f.read l = f.read (l.take f.size) := by
    conv_lhs => rw [← List.take_append_drop f.size l, ← f.write_read _ htake]
    rw [f.read_append]
  rw [hread, f.write_read _ htake]

theorem write_injective (f : Layout α) {a b : α} (h : f.write a = f.write b) : a = b := by
  rw [← f.read_write a, h, f.read_write]

/-! ### Words and blocks -/

def word32 : Layout UInt32 where
  size := 4
  write := le32
  read l := (get32 l).1
  length_write := length_le32
  read_append a r := by rw [get32_le32_append]
  write_read l hl := by
    have htake : l.take 4 = l := List.take_of_length_le hl.le
    have hlt := ofLeBytes_lt l
    have hle := leBytes_ofLeBytes l
    rw [hl] at hlt hle
    rw [get32, htake, le32, UInt32.toNat_ofNat_of_lt' hlt, hle]

def word64 : Layout UInt64 where
  size := 8
  write := le64
  read l := (get64 l).1
  length_write := length_le64
  read_append a r := by rw [get64_le64_append]
  write_read l hl := by
    have htake : l.take 8 = l := List.take_of_length_le hl.le
    have hlt := ofLeBytes_lt l
    have hle := leBytes_ofLeBytes l
    rw [hl] at hlt hle
    rw [get64, htake, le64, UInt64.toNat_ofNat_of_lt' hlt, hle]

/-! ### Putting layouts together -/

/-- One field after the other. -/
def pair (f : Layout α) (g : Layout β) : Layout (α × β) where
  size := f.size + g.size
  write p := f.write p.1 ++ g.write p.2
  read l := (f.read l, g.read (l.drop f.size))
  length_write p := by rw [List.length_append, f.length_write, g.length_write]
  read_append p r := by
    rw [List.append_assoc, f.read_append, List.drop_left' (f.length_write p.1), g.read_append]
  write_read l hl := by
    rw [f.write_read_take (by omega), g.write_read _ (by rw [List.length_drop]; omega),
      List.take_append_drop]

/-- The layout of a structure, from the layout of the tuple of its fields. -/
def map (f : Layout α) (e : β ≃ α) : Layout β where
  size := f.size
  write b := f.write (e b)
  read l := e.symm (f.read l)
  length_write b := f.length_write (e b)
  read_append b r := by rw [f.read_append, e.symm_apply_apply]
  write_read l hl := by rw [e.apply_symm_apply, f.write_read l hl]

/-- The entries of an array one after the other. -/
def array (f : Layout α) (n : Nat) : Layout (Fin n → α) where
  size := f.size * n
  write v := (List.ofFn v).flatMap f.write
  read l i := f.read (l.drop (f.size * i))
  length_write v := by rw [length_flatMap_const f.write f.length_write, List.length_ofFn]
  read_append v r := by
    funext i
    obtain ⟨r', hr'⟩ := drop_flatMap f.write f.length_write r (List.ofFn v) i
      (by rw [List.length_ofFn]; exact i.isLt)
    rw [hr', f.read_append, List.get_eq_getElem, List.getElem_ofFn]
  write_read l hl := by
    induction n generalizing l with
    | zero =>
      rw [Nat.mul_zero, List.length_eq_zero_iff] at hl
      rw [hl, List.ofFn_zero, List.flatMap_nil]
    | succ n ih =>
      have hlen : (l.drop f.size).length = f.size * n := by
        rw [List.length_drop, hl, Nat.mul_succ]
        omega
      have hrest := ih (l.drop f.size) hlen
      rw [List.ofFn_succ, List.flatMap_cons]
      have htail : (fun i : Fin n => f.read (l.drop (f.size * i.succ))) =
          fun i : Fin n => f.read ((l.drop f.size).drop (f.size * i)) := by
        funext i
        rw [List.drop_drop, Fin.val_succ, Nat.mul_succ, Nat.add_comm]
      rw [htail, hrest, Fin.val_zero, Nat.mul_zero, List.drop_zero,
        f.write_read_take (by rw [hl, Nat.mul_succ]; omega), List.take_append_drop]

/-! ### Overwriting a field -/

@[simp]
theorem length_writeAt {buf bytes : List UInt8} (h : off + bytes.length ≤ buf.length) :
    (writeAt buf off bytes).length = buf.length := by
  unfold writeAt
  rw [List.length_append, List.length_append, List.length_take, List.length_drop]
  omega

theorem writeAt_append_left {a b bytes : List UInt8} (h : off + bytes.length ≤ a.length) :
    writeAt (a ++ b) off bytes = writeAt a off bytes ++ b := by
  unfold writeAt
  rw [List.take_append_of_le_length (by omega), List.drop_append_of_le_length h]
  simp only [List.append_assoc]

theorem writeAt_append_right {a b bytes : List UInt8} {n : Nat} (h : a.length = n) :
    writeAt (a ++ b) (n + off) bytes = a ++ writeAt b off bytes := by
  unfold writeAt
  rw [← h, List.take_length_add_append, Nat.add_assoc, List.drop_length_add_append]
  simp only [List.append_assoc]

end Layout

end Jani
