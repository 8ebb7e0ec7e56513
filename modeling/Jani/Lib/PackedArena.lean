import Mathlib.Order.Interval.Finset.Nat
import Jani.Lib.Bytes

/-!
# Packed arenas

Pieces of varying length are kept in one buffer, packed from its start (`Packed`).  A piece is
removed by moving everything behind it down over the hole (`Span.shift`, `moveDown`), and a new
piece goes to the end.  Neither changes the contents of the other pieces
(`window_moveDown`, `window_writeAt`), and the pieces stay packed (`Packed.remove`,
`Packed.append`).  Packed pieces leave no byte out (`Packed.exists_holds`).
-/

namespace Jani

/-- A piece of a buffer. -/
structure Span where
  offset : Nat
  length : Nat

namespace Span

/-- One piece ends before the other starts. -/
def Disjoint (s t : Span) : Prop := s.offset + s.length ≤ t.offset ∨ t.offset + t.length ≤ s.offset

theorem Disjoint.symm {s t : Span} (h : s.Disjoint t) : t.Disjoint s := Or.symm h

/-- The piece holds the byte. -/
def Holds (s : Span) (p : Nat) : Prop := s.offset ≤ p ∧ p < s.offset + s.length

instance (s : Span) (p : Nat) : Decidable (s.Holds p) := inferInstanceAs (Decidable (_ ∧ _))

/-- Where a piece is after the hole was closed. -/
def shift (hole s : Span) : Span :=
  if s.offset > hole.offset then { s with offset := s.offset - hole.length } else s

@[simp]
theorem length_shift (hole s : Span) : (hole.shift s).length = s.length := by
  unfold shift
  split_ifs <;> rfl

/-- The pieces before the hole stay, those behind it move down by its length. -/
theorem shift_cases {hole s : Span} (hpos : 0 < hole.length) (h : hole.Disjoint s) :
    (s.offset + s.length ≤ hole.offset ∧ (hole.shift s).offset = s.offset) ∨
      (hole.offset + hole.length ≤ s.offset ∧
        (hole.shift s).offset = s.offset - hole.length) := by
  unfold Disjoint at h
  unfold shift
  split_ifs with hlt
  · exact Or.inr ⟨by omega, rfl⟩
  · exact Or.inl ⟨by omega, rfl⟩

end Span

/-- The bytes of a piece. -/
def window (buf : List UInt8) (s : Span) : List UInt8 := (buf.drop s.offset).take s.length

/-- The pieces are disjoint and fill the first `used` bytes. -/
structure Packed (used : Nat) (spans : List Span) : Prop where
  pos : ∀ s ∈ spans, 0 < s.length
  inside : ∀ s ∈ spans, s.offset + s.length ≤ used
  disjoint : spans.Pairwise Span.Disjoint
  total : (spans.map Span.length).sum = used

namespace Packed

variable {used : Nat} {hole : Span} {spans rest : List Span}

theorem empty : Packed 0 [] :=
  ⟨fun _ h => (List.not_mem_nil h).elim, fun _ h => (List.not_mem_nil h).elim, List.Pairwise.nil,
    rfl⟩

theorem perm {spans' : List Span} (hperm : spans.Perm spans') (h : Packed used spans) :
    Packed used spans' where
  pos s hs := h.pos s (hperm.mem_iff.mpr hs)
  inside s hs := h.inside s (hperm.mem_iff.mpr hs)
  disjoint := (hperm.pairwise_iff Span.Disjoint.symm).mp h.disjoint
  total := (hperm.map Span.length).sum_eq.symm.trans h.total

/-- **Remove**: closing the hole leaves the other pieces packed. -/
theorem remove (h : Packed used (hole :: rest)) :
    Packed (used - hole.length) (rest.map hole.shift) := by
  have hpos := h.pos hole List.mem_cons_self
  have hinside := h.inside hole List.mem_cons_self
  obtain ⟨hhole, hrest⟩ := List.pairwise_cons.mp h.disjoint
  refine ⟨?_, ?_, ?_, ?_⟩
  · intro s hs
    obtain ⟨t, ht, rfl⟩ := List.mem_map.mp hs
    rw [Span.length_shift]
    exact h.pos t (List.mem_cons_of_mem _ ht)
  · intro s hs
    obtain ⟨t, ht, rfl⟩ := List.mem_map.mp hs
    have := h.inside t (List.mem_cons_of_mem _ ht)
    rw [Span.length_shift]
    rcases Span.shift_cases hpos (hhole t ht) with ⟨hle, heq⟩ | ⟨hle, heq⟩ <;> omega
  · rw [List.pairwise_map]
    refine hrest.imp_of_mem ?_
    intro s t hs ht hst
    unfold Span.Disjoint at hst ⊢
    rw [Span.length_shift, Span.length_shift]
    rcases Span.shift_cases hpos (hhole s hs) with ⟨hs1, hs2⟩ | ⟨hs1, hs2⟩ <;>
      rcases Span.shift_cases hpos (hhole t ht) with ⟨ht1, ht2⟩ | ⟨ht1, ht2⟩ <;> omega
  · have htotal := h.total
    rw [List.map_cons, List.sum_cons] at htotal
    have hlengths : (rest.map hole.shift).map Span.length = rest.map Span.length := by
      rw [List.map_map]
      exact List.map_congr_left fun s _ => Span.length_shift hole s
    rw [hlengths]
    omega

/-- **Append**: a new piece goes to the end. -/
theorem append (h : Packed used spans) {length : Nat} (hpos : 0 < length) :
    Packed (used + length) (spans ++ [⟨used, length⟩]) := by
  refine ⟨?_, ?_, ?_, ?_⟩
  · intro s hs
    rcases List.mem_append.mp hs with hs | hs
    · exact h.pos s hs
    · rw [List.mem_singleton.mp hs]
      exact hpos
  · intro s hs
    rcases List.mem_append.mp hs with hs | hs
    · have := h.inside s hs
      omega
    · rw [List.mem_singleton.mp hs]
  · refine List.pairwise_append.mpr ⟨h.disjoint, List.pairwise_singleton _ _, ?_⟩
    intro s hs t ht
    rw [List.mem_singleton.mp ht]
    exact Or.inl (h.inside s hs)
  · rw [List.map_append, List.sum_append, h.total]
    simp

theorem card_filter : ∀ (spans : List Span), (∀ s ∈ spans, s.offset + s.length ≤ used) →
    spans.Pairwise Span.Disjoint →
    ((Finset.range used).filter fun p => ∃ s ∈ spans, s.Holds p).card =
      (spans.map Span.length).sum
  | [], _, _ => by simp
  | s :: rest, hinside, hdisjoint => by
    obtain ⟨hs, hrest⟩ := List.pairwise_cons.mp hdisjoint
    have hpiece : (Finset.range used).filter s.Holds =
        Finset.Ico s.offset (s.offset + s.length) := by
      have := hinside s List.mem_cons_self
      ext p
      simp only [Finset.mem_filter, Finset.mem_range, Finset.mem_Ico, Span.Holds]
      omega
    have hsplit : (Finset.range used).filter (fun p => ∃ t ∈ s :: rest, t.Holds p) =
        (Finset.range used).filter s.Holds ∪
          (Finset.range used).filter fun p => ∃ t ∈ rest, t.Holds p := by
      ext p
      simp only [Finset.mem_filter, Finset.mem_union, List.exists_mem_cons_iff]
      tauto
    rw [hsplit, Finset.card_union_of_disjoint, hpiece, Nat.card_Ico, Nat.add_sub_cancel_left,
      card_filter rest (fun t ht => hinside t (List.mem_cons_of_mem _ ht)) hrest, List.map_cons,
      List.sum_cons]
    rw [Finset.disjoint_left]
    rintro p hp hq
    obtain ⟨-, t, ht, htp⟩ := Finset.mem_filter.mp hq
    have hsp := (Finset.mem_filter.mp hp).2
    have := hs t ht
    unfold Span.Disjoint at this
    unfold Span.Holds at hsp htp
    omega

/-- **Tiling**: every byte in use belongs to a piece. -/
theorem exists_holds (h : Packed used spans) {p : Nat} (hp : p < used) :
    ∃ s ∈ spans, s.Holds p := by
  have hcard := card_filter spans h.inside h.disjoint
  rw [h.total] at hcard
  have hall : (Finset.range used).filter (fun p => ∃ s ∈ spans, s.Holds p) = Finset.range used :=
    Finset.eq_of_subset_of_card_le (Finset.filter_subset _ _) (by rw [hcard, Finset.card_range])
  have hmem := Finset.mem_range.mpr hp
  rw [← hall, Finset.mem_filter] at hmem
  exact hmem.2

end Packed

/-! ### Contents -/

section Contents

variable {buf : List UInt8}

theorem length_moveDown {dst src count : Nat} (hle : dst ≤ src)
    (hend : src + count ≤ buf.length) : (moveDown buf dst src count).length = buf.length := by
  simp only [moveDown, List.length_append, List.length_take, List.length_drop]
  omega

theorem length_writeAt {off : Nat} {bytes : List UInt8} (hend : off + bytes.length ≤ buf.length) :
    (writeAt buf off bytes).length = buf.length := by
  simp only [writeAt, List.length_append, List.length_take, List.length_drop]
  omega

theorem drop_writeAt {off : Nat} {bytes : List UInt8} (hoff : off ≤ buf.length) :
    (writeAt buf off bytes).drop off = bytes ++ buf.drop (off + bytes.length) := by
  rw [writeAt, List.append_assoc, List.drop_left' (by rw [List.length_take]; omega)]

theorem window_writeAt {off : Nat} {bytes : List UInt8} {s : Span}
    (hoff : off ≤ buf.length) (hs : s.offset + s.length ≤ off) :
    window (writeAt buf off bytes) s = window buf s := by
  rw [window, window, writeAt, List.append_assoc, List.drop_append_of_le_length,
    List.take_append_of_le_length, List.drop_take, List.take_take]
  · congr 1
    omega
  · rw [List.length_drop, List.length_take]
    omega
  · rw [List.length_take]
    omega

/-- Closing a hole moves the later windows with their contents. -/
theorem window_moveDown {used : Nat} {hole s : Span} {rest : List Span}
    (h : Packed used (hole :: rest)) (hused : used ≤ buf.length) (hs : s ∈ rest) :
    window (moveDown buf hole.offset (hole.offset + hole.length)
      (used - (hole.offset + hole.length))) (hole.shift s) = window buf s := by
  have hpos := h.pos hole List.mem_cons_self
  have hhole := h.inside hole List.mem_cons_self
  have hinside := h.inside s (List.mem_cons_of_mem _ hs)
  have hdisjoint := (List.pairwise_cons.mp h.disjoint).1 s hs
  have hfront : (buf.take hole.offset).length = hole.offset := by
    rw [List.length_take]
    omega
  rw [window, window, Span.length_shift]
  rcases Span.shift_cases hpos hdisjoint with ⟨hle, heq⟩ | ⟨hle, heq⟩
  · rw [heq, moveDown, List.append_assoc,
      List.drop_append_of_le_length (by omega), List.take_append_of_le_length, List.drop_take,
      List.take_take]
    · congr 1
      omega
    · rw [List.length_drop]
      omega
  · -- the piece is moved as a whole
    obtain ⟨k, hk⟩ : ∃ k, s.offset = hole.offset + hole.length + k :=
      ⟨_, (Nat.add_sub_of_le hle).symm⟩
    have hoffset : s.offset - hole.length = hole.offset + k := by omega
    rw [heq, hoffset, moveDown, List.append_assoc, ← List.drop_drop, List.drop_left' hfront,
      List.drop_append_of_le_length, List.take_append_of_le_length, List.drop_take, List.take_take,
      List.drop_drop, hk]
    · congr 1
      omega
    · rw [List.length_drop, List.length_take, List.length_drop]
      omega
    · rw [List.length_take, List.length_drop]
      omega

end Contents

end Jani
