import Jani.Lib.Bytes
import Mathlib.Data.List.GetD

/-!
# Checksums in ones' complement

The checksum of the internet protocols adds the big-endian 16-bit words of a message and folds the
carries back in.  Folding computes modulo `65535`, with the one exception that only zero folds to
zero (`foldCarry_eq_iff`).  So a message whose words fold to `65535` no longer does when one word
is replaced by another one, unless the two are `0` and `65535` (`foldCarry_replace`).
-/

namespace Jani

/-! ### Big-endian words -/

def be16 (x : UInt16) : List UInt8 := [UInt8.ofNat (x.toNat / 256), UInt8.ofNat x.toNat]

def be16At (l : List UInt8) (off : Nat) : UInt16 :=
  UInt16.ofNat (256 * (l.getD off 0).toNat + (l.getD (off + 1) 0).toNat)

@[simp] theorem length_be16 (x : UInt16) : (be16 x).length = 2 := rfl

theorem toNat_be16At (l : List UInt8) (off : Nat) :
    (be16At l off).toNat = 256 * (l.getD off 0).toNat + (l.getD (off + 1) 0).toNat := by
  have h0 := (l.getD off 0).toNat_lt
  have h1 := (l.getD (off + 1) 0).toNat_lt
  exact UInt16.toNat_ofNat_of_lt' (by norm_num at h0 h1 ⊢; omega)

theorem be16_bytes (x : UInt16) :
    256 * (UInt8.ofNat (x.toNat / 256)).toNat + (UInt8.ofNat x.toNat).toNat = x.toNat := by
  have h := x.toNat_lt
  rw [UInt8.toNat_ofNat', UInt8.toNat_ofNat']
  norm_num at h ⊢
  omega

theorem be16At_append {a : List UInt8} {n : Nat} (ha : a.length = n) (x : UInt16)
    (r : List UInt8) : be16At (a ++ (be16 x ++ r)) n = x := by
  have hget : ∀ i, (a ++ (be16 x ++ r)).getD (n + i) 0 = (be16 x ++ r).getD i 0 := by
    intro i
    rw [← ha, List.getD_append_right _ _ _ _ (Nat.le_add_right _ _), Nat.add_sub_cancel_left]
  have h0 := hget 0
  rw [Nat.add_zero] at h0
  rw [← UInt16.toNat_inj, toNat_be16At, hget 1, h0]
  exact be16_bytes x

/-! ### Sums of words -/

/-- The sum of the words; an odd last byte is the upper half of a word. -/
def sumWords : List UInt8 → Nat
  | [] => 0
  | [a] => 256 * a.toNat
  | a :: b :: rest => 256 * a.toNat + b.toNat + sumWords rest

@[simp] theorem sumWords_nil : sumWords [] = 0 := rfl

theorem sumWords_cons_cons (a b : UInt8) (rest : List UInt8) :
    sumWords (a :: b :: rest) = 256 * a.toNat + b.toNat + sumWords rest := rfl

theorem sumWords_be16_append (x : UInt16) (r : List UInt8) :
    sumWords (be16 x ++ r) = x.toNat + sumWords r := by
  rw [be16, List.cons_append, List.cons_append, List.nil_append, sumWords_cons_cons, be16_bytes]

theorem sumWords_le : ∀ l : List UInt8, sumWords l ≤ 65535 * ((l.length + 1) / 2)
  | [] => Nat.zero_le _
  | [a] => by
    have h := a.toNat_lt
    rw [sumWords]
    norm_num at h ⊢
    omega
  | a :: b :: rest => by
    have ih := sumWords_le rest
    have ha := a.toNat_lt
    have hb := b.toNat_lt
    have hlength : ((a :: b :: rest).length + 1) / 2 = (rest.length + 1) / 2 + 1 := by
      simp only [List.length_cons]
      omega
    rw [sumWords, hlength, Nat.mul_add]
    norm_num at ha hb
    omega

theorem sumWords_append : ∀ {l : List UInt8} (r : List UInt8), l.length % 2 = 0 →
    sumWords (l ++ r) = sumWords l + sumWords r
  | [], r, _ => by simp
  | [a], _, h => by simp at h
  | a :: b :: rest, r, h => by
    have hrest : rest.length % 2 = 0 := by
      simp only [List.length_cons] at h
      omega
    rw [List.cons_append, List.cons_append, sumWords_cons_cons, sumWords_cons_cons,
      sumWords_append r hrest]
    omega

theorem writeAt_cons_cons (a b : UInt8) (rest bytes : List UInt8) (off : Nat) :
    writeAt (a :: b :: rest) (off + 2) bytes = a :: b :: writeAt rest off bytes := by
  unfold writeAt
  rw [show off + 2 + bytes.length = (off + bytes.length) + 2 by omega]
  simp

theorem sumWords_writeAt_word (w : UInt16) : ∀ {l : List UInt8} {k : Nat}, 2 * k + 2 ≤ l.length →
    sumWords (writeAt l (2 * k) (be16 w)) + (be16At l (2 * k)).toNat = sumWords l + w.toNat
  | [], _, h => by simp at h
  | [a], _, h => by simp only [List.length_singleton] at h; omega
  | a :: b :: rest, 0, _ => by
    have hnew : writeAt (a :: b :: rest) (2 * 0) (be16 w) = be16 w ++ rest := by simp [writeAt]
    have hold : (be16At (a :: b :: rest) (2 * 0)).toNat = 256 * a.toNat + b.toNat :=
      toNat_be16At _ _
    rw [hnew, hold, sumWords_be16_append, sumWords_cons_cons]
    omega
  | a :: b :: rest, k + 1, h => by
    have hrest : 2 * k + 2 ≤ rest.length := by
      simp only [List.length_cons] at h
      omega
    have ih := sumWords_writeAt_word w hrest
    have hold : (be16At (a :: b :: rest) (2 * (k + 1))).toNat = (be16At rest (2 * k)).toNat := by
      rw [toNat_be16At, toNat_be16At]
      rfl
    rw [show 2 * (k + 1) = 2 * k + 2 by omega] at hold ⊢
    rw [hold, writeAt_cons_cons, sumWords_cons_cons, sumWords_cons_cons]
    omega

theorem sumWords_writeAt_byte (b : UInt8) : ∀ {l : List UInt8} {k : Nat}, l.length = 2 * k + 1 →
    sumWords (writeAt l (2 * k) [b]) + 256 * (l.getD (2 * k) 0).toNat =
      sumWords l + 256 * b.toNat
  | [], _, h => by simp at h
  | [a], k, h => by
    have hk : k = 0 := by
      simp only [List.length_singleton] at h
      omega
    subst hk
    have hnew : writeAt [a] (2 * 0) [b] = [b] := by simp [writeAt]
    rw [hnew, sumWords, sumWords]
    simp only [Nat.mul_zero, List.getD_cons_zero]
    omega
  | x :: y :: rest, 0, h => by simp at h
  | x :: y :: rest, k + 1, h => by
    have hrest : rest.length = 2 * k + 1 := by
      simp only [List.length_cons] at h
      omega
    have ih := sumWords_writeAt_byte b hrest
    rw [show 2 * (k + 1) = 2 * k + 2 by omega, writeAt_cons_cons, sumWords_cons_cons,
      sumWords_cons_cons]
    simp only [List.getD_cons_succ]
    omega

/-! ### Folding -/

/-- `while (sum > 0xffff) sum = (sum & 0xffff) + (sum >> 16)` -/
def foldCarry (sum : Nat) : Nat :=
  if sum > 0xffff then foldCarry (sum % 0x10000 + sum / 0x10000) else sum
termination_by sum

theorem foldCarry_spec (sum : Nat) : foldCarry sum ≤ 65535 ∧ foldCarry sum % 65535 = sum % 65535 ∧
    (foldCarry sum = 0 ↔ sum = 0) := by
  induction sum using Nat.strong_induction_on with
  | _ sum ih =>
    rw [foldCarry]
    split_ifs with h
    · obtain ⟨hle, hmod, hzero⟩ := ih (sum % 0x10000 + sum / 0x10000) (by omega)
      refine ⟨hle, hmod.trans ?_, hzero.trans ?_⟩
      · have hsplit : sum = sum % 0x10000 + 65535 * (sum / 0x10000) + sum / 0x10000 := by omega
        omega
      · omega
    · exact ⟨by omega, rfl, Iff.rfl⟩

/-- **What folds to `65535`**: the multiples of it other than zero. -/
theorem foldCarry_eq_iff (sum : Nat) : foldCarry sum = 65535 ↔ sum ≠ 0 ∧ 65535 ∣ sum := by
  obtain ⟨hle, hmod, hzero⟩ := foldCarry_spec sum
  constructor
  · intro h
    rw [h] at hmod hzero
    exact ⟨fun hsum => absurd (hzero.mpr hsum) (by decide), by omega⟩
  · rintro ⟨hne, hdvd⟩
    have hne' : foldCarry sum ≠ 0 := fun h => hne (hzero.mp h)
    omega

theorem foldCarry_add_complement (sum : Nat) :
    foldCarry (sum + (65535 - foldCarry sum)) = 65535 := by
  obtain ⟨hle, hmod, hzero⟩ := foldCarry_spec sum
  rw [foldCarry_eq_iff]
  constructor
  · intro h
    have hsum : sum = 0 := by omega
    rw [hzero.mpr hsum] at h
    omega
  · omega

/-- **A single replaced word is noticed**, unless `0` and `65535` are exchanged. -/
theorem foldCarry_replace {sum sum' old new : Nat} (hsum : foldCarry sum = 65535)
    (hsum' : foldCarry sum' = 65535) (heq : sum' + old = sum + new) (hold : old ≤ 65535)
    (hnew : new ≤ 65535) : new = old ∨ (old = 0 ∧ new = 65535) ∨ (old = 65535 ∧ new = 0) := by
  obtain ⟨-, hdvd⟩ := (foldCarry_eq_iff sum).mp hsum
  obtain ⟨-, hdvd'⟩ := (foldCarry_eq_iff sum').mp hsum'
  omega

end Jani
