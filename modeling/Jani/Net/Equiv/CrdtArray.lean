import Jani.Net.CrdtArray
import Jani.Net.Equiv.Canonical
import Jani.Net.Equiv.MergeLaws
import Mathlib.Data.List.GetD

/-!
# Replicated values and their arrays

A valid state of `NetCrdtArray` is a valid `NetCrdt` with its lists padded (`valid_iff`), and each
function of `crdt.zig` on the arrays is the function on the lists (`set_toArray`, …,
`decode_eq`).  So whatever the functions return has zero tails and can be stored.
-/

namespace Jani

/-- The arrays of a state. -/
def NetCrdt.toArray (s : NetCrdt) : NetCrdtArray where
  kind := s.kind
  count := UInt32.ofNat s.dots.length
  vector := s.vector
  timestamp := s.timestamp
  author := s.author
  length := UInt32.ofNat s.value.length
  value := .ofUsed _ 0 s.value
  dots := .ofUsed _ zeroDot s.dots

namespace NetCrdtArray

/-- What is in use of the arrays. -/
def used (a : NetCrdtArray) : NetCrdt where
  kind := a.kind
  vector := a.vector
  timestamp := a.timestamp
  author := a.author
  value := a.value.entries.take a.length.toNat
  dots := a.dots.entries.take a.count.toNat

/-- The counts are in range and the unused entries are zero. -/
structure Padded (a : NetCrdtArray) : Prop where
  count_le : a.count.toNat ≤ netCrdtDotsMax
  length_le : a.length.toNat ≤ netCrdtValueMax
  value_zero : ∀ byte ∈ a.value.entries.drop a.length.toNat, byte = 0
  dots_zero : ∀ dot ∈ a.dots.entries.drop a.count.toNat, dot = zeroDot

namespace Padded

variable {a : NetCrdtArray}

theorem length_dots (h : a.Padded) : a.used.dots.length = a.count.toNat := by
  have := h.count_le
  change (a.dots.entries.take a.count.toNat).length = _
  rw [List.length_take, a.dots.length_entries]
  omega

theorem length_value (h : a.Padded) : a.used.value.length = a.length.toNat := by
  have := h.length_le
  change (a.value.entries.take a.length.toNat).length = _
  rw [List.length_take, a.value.length_entries]
  omega

theorem toArray_used (h : a.Padded) : a.used.toArray = a := by
  have hdots : FixedArray.ofUsed netCrdtDotsMax zeroDot a.used.dots = a.dots := by
    apply FixedArray.ext
    rw [FixedArray.entries_ofUsed (h.length_dots.trans_le h.count_le)]
    exact pad_take a.dots.length_entries h.count_le h.dots_zero
  have hvalue : FixedArray.ofUsed netCrdtValueMax 0 a.used.value = a.value := by
    apply FixedArray.ext
    rw [FixedArray.entries_ofUsed (h.length_value.trans_le h.length_le)]
    exact pad_take a.value.length_entries h.length_le h.value_zero
  unfold NetCrdt.toArray
  rw [hdots, hvalue, h.length_dots, h.length_value, UInt32.ofNat_toNat, UInt32.ofNat_toNat]
  rfl

/-- With zero tails, `valid` is about the entries in use. -/
theorem valid_eq (h : a.Padded) : a.valid = a.used.valid := by
  have hcount : a.count > 16 ↔ a.used.dots.length > netCrdtDotsMax := by
    rw [h.length_dots, gt_iff_lt, UInt32.lt_iff_toNat_lt]
    rfl
  have hlength : a.length > 256 ↔ a.used.value.length > netCrdtValueMax := by
    rw [h.length_value, gt_iff_lt, UInt32.lt_iff_toNat_lt]
    rfl
  have hnone : a.count ≠ 0 ↔ a.used.dots.length ≠ 0 := by
    rw [h.length_dots, ne_eq, ← UInt32.toNat_inj]
    rfl
  have hempty : a.length = 0 ↔ a.used.value.length = 0 := by
    rw [h.length_value, ← UInt32.toNat_inj]
    rfl
  have hvalue : ¬ ∃ byte ∈ a.value.entries.drop a.length.toNat, byte ≠ 0 :=
    fun ⟨byte, hbyte, hne⟩ => hne (h.value_zero byte hbyte)
  have hdots : ¬ ∃ dot ∈ a.dots.entries.drop a.count.toNat, dot ≠ zeroDot :=
    fun ⟨dot, hdot, hne⟩ => hne (h.dots_zero dot hdot)
  unfold valid NetCrdt.valid
  simp only [if_neg hvalue, if_neg hdots, hcount, hlength, hnone, hempty, ne_eq]
  rfl

end Padded

theorem padded_of_valid {a : NetCrdtArray} (h : a.valid = true) : a.Padded := by
  unfold valid at h
  by_cases hrange : a.kind < 1 ∨ a.kind > 2 ∨ a.count > 16 ∨ a.length > 256 ∨ a.author > 1
  · rw [if_pos hrange] at h
    cases h
  by_cases hvalue : ∃ byte ∈ a.value.entries.drop a.length.toNat, byte ≠ 0
  · rw [if_neg hrange, if_pos hvalue] at h
    cases h
  by_cases hdots : ∃ dot ∈ a.dots.entries.drop a.count.toNat, dot ≠ zeroDot
  · rw [if_neg hrange, if_neg hvalue, if_pos hdots] at h
    cases h
  simp only [not_or, gt_iff_lt, UInt32.not_lt] at hrange
  refine ⟨UInt32.le_iff_toNat_le.mp hrange.2.2.1, UInt32.le_iff_toNat_le.mp hrange.2.2.2.1, ?_, ?_⟩
  · exact fun byte hbyte => by_contra fun hne => hvalue ⟨byte, hbyte, hne⟩
  · exact fun dot hdot => by_contra fun hne => hdots ⟨dot, hdot, hne⟩

end NetCrdtArray

namespace NetCrdt

variable {s : NetCrdt}

@[simp] theorem toArray_kind (s : NetCrdt) : s.toArray.kind = s.kind := rfl

@[simp] theorem toArray_vector (s : NetCrdt) : s.toArray.vector = s.vector := rfl

@[simp] theorem toArray_timestamp (s : NetCrdt) : s.toArray.timestamp = s.timestamp := rfl

@[simp] theorem toArray_author (s : NetCrdt) : s.toArray.author = s.author := rfl

/-- The lists fit into the arrays. -/
structure Fits (s : NetCrdt) : Prop where
  dots_le : s.dots.length ≤ netCrdtDotsMax
  value_le : s.value.length ≤ netCrdtValueMax

theorem fits_of_valid (h : s.valid = true) : s.Fits :=
  ⟨(NetCrdt.lengths_of_valid h).1, (NetCrdt.lengths_of_valid h).2⟩

theorem Fits.toNat_count (h : s.Fits) : s.toArray.count.toNat = s.dots.length := by
  have := h.dots_le
  unfold netCrdtDotsMax at this
  refine UInt32.toNat_ofNat_of_lt' ?_
  change _ < 2 ^ 32
  omega

theorem Fits.toNat_length (h : s.Fits) : s.toArray.length.toNat = s.value.length := by
  have := h.value_le
  unfold netCrdtValueMax at this
  refine UInt32.toNat_ofNat_of_lt' ?_
  change _ < 2 ^ 32
  omega

theorem Fits.entries_dots (h : s.Fits) :
    s.toArray.dots.entries = pad netCrdtDotsMax zeroDot s.dots :=
  FixedArray.entries_ofUsed h.dots_le

theorem Fits.entries_value (h : s.Fits) : s.toArray.value.entries = pad netCrdtValueMax 0 s.value :=
  FixedArray.entries_ofUsed h.value_le

theorem Fits.used_toArray (h : s.Fits) : s.toArray.used = s := by
  unfold NetCrdtArray.used
  rw [h.toNat_count, h.toNat_length, h.entries_dots, h.entries_value, take_pad, take_pad]
  rfl

theorem Fits.valid_toArray (h : s.Fits) : s.toArray.valid = s.valid := by
  have hpadded : s.toArray.Padded := by
    refine ⟨h.toNat_count.trans_le h.dots_le, h.toNat_length.trans_le h.value_le, ?_, ?_⟩
    · rw [h.toNat_length, h.entries_value]
      exact fun byte => eq_zero_of_mem_drop_pad
    · rw [h.toNat_count, h.entries_dots]
      exact fun dot => eq_zero_of_mem_drop_pad
  rw [hpadded.valid_eq, h.used_toArray]

end NetCrdt

namespace NetCrdtArray

/-- **Valid arrays** are the arrays of valid states. -/
theorem valid_iff {a : NetCrdtArray} : a.valid = true ↔ ∃ s : NetCrdt, s.valid = true ∧
    a = s.toArray := by
  constructor
  · intro h
    have hpadded := padded_of_valid h
    exact ⟨a.used, hpadded.valid_eq ▸ h, hpadded.toArray_used.symm⟩
  · rintro ⟨s, hs, rfl⟩
    rw [(NetCrdt.fits_of_valid hs).valid_toArray, hs]

/-! ### Sorting -/

/-- The inner loop puts the dot in its place among those before it. -/
theorem shiftDot_eq (dot : NetDot) : ∀ (done : List NetDot) (x : NetDot) (rest : List NetDot),
    shiftDot dot done.length (done.reverse ++ x :: rest) = (insertDot dot done).reverse ++ rest
  | [], x, rest => rfl
  | last :: done, x, rest => by
    have hlist : (last :: done).reverse ++ x :: rest = done.reverse ++ last :: x :: rest := by
      rw [List.reverse_cons, List.append_assoc, List.singleton_append]
    have hlength : done.reverse.length = done.length := List.length_reverse
    have hget : (done.reverse ++ last :: x :: rest).getD done.length zeroDot = last := by
      rw [List.getD_append_right _ _ _ _ hlength.le, hlength, Nat.sub_self]
      rfl
    have hset : ∀ y, (done.reverse ++ last :: x :: rest).set (done.length + 1) y =
        done.reverse ++ last :: y :: rest := by
      intro y
      rw [List.set_append_right _ _ (by omega), hlength, Nat.add_sub_cancel_left]
      rfl
    rw [hlist, List.length_cons, shiftDot, hget, hset, hset, insertDot]
    split_ifs
    · rw [shiftDot_eq dot done last (last :: rest), List.reverse_cons, List.append_assoc,
        List.singleton_append]
    · simp

theorem sortLoop_eq : ∀ (todo done rest : List NetDot),
    sortLoop todo.length done.length (done.reverse ++ (todo ++ rest)) =
      (todo.foldl (fun done dot => insertDot dot done) done).reverse ++ rest
  | [], done, rest => rfl
  | dot :: todo, done, rest => by
    have hget : (done.reverse ++ (dot :: todo ++ rest)).getD done.length zeroDot = dot := by
      rw [List.getD_append_right _ _ _ _ List.length_reverse.le, List.length_reverse, Nat.sub_self]
      rfl
    have hlength : (insertDot dot done).length = done.length + 1 :=
      (insertDot_perm dot done).length_eq
    rw [List.length_cons, sortLoop, hget, List.cons_append, shiftDot_eq dot done dot (todo ++ rest),
      ← hlength, sortLoop_eq todo (insertDot dot done) rest, List.foldl_cons]

/-- **`sort`** sorts the dots in use and leaves the others alone. -/
theorem sort_ofUsed {dots : List NetDot} (h : dots.length ≤ netCrdtDotsMax) {count : UInt32}
    (hcount : count.toNat = dots.length) :
    sort count (.ofUsed _ zeroDot dots) = .ofUsed _ zeroDot (sortDots dots) := by
  apply FixedArray.ext
  have hsorted : (sortDots dots).length = dots.length := (sortDots_perm dots).length_eq
  rw [FixedArray.entries_ofUsed (hsorted.trans_le h), pad, hsorted]
  change sortLoop (count.toNat - 1) 1 (FixedArray.ofUsed _ zeroDot dots).entries = _
  rw [FixedArray.entries_ofUsed h, pad, hcount]
  cases dots with
  | nil => rfl
  | cons dot dots => exact sortLoop_eq dots [dot] _

/-! ### Operations -/

theorem init_eq (kind : UInt32) : init kind = (netCrdtInit kind).map NetCrdt.toArray := by
  have hfits : (⟨kind, fun _ => 0, 0, 0, [], []⟩ : NetCrdt).Fits := ⟨Nat.zero_le _, Nat.zero_le _⟩
  unfold init netCrdtInit
  change (if (⟨kind, fun _ => 0, 0, 0, [], []⟩ : NetCrdt).toArray.valid = true then
    some (⟨kind, fun _ => 0, 0, 0, [], []⟩ : NetCrdt).toArray else none) = _
  rw [hfits.valid_toArray]
  dsimp only
  split_ifs
  · rfl
  · rfl

section Fits

variable {s : NetCrdt} (h : s.Fits)

include h

theorem set_toArray (node : UInt32) (value : List UInt8) :
    s.toArray.set node value = (netCrdtSet s node value).map NetCrdt.toArray := by
  unfold set netCrdtSet
  simp only [h.valid_toArray, NetCrdt.toArray_kind, NetCrdt.toArray_vector,
    NetCrdt.toArray_timestamp]
  split_ifs
  · rfl
  · rfl

/-- `add` on arrays is `netCrdtAdd` on lists. -/
theorem add_toArray (node : UInt32) (value : UInt64) :
    s.toArray.add node value = (netCrdtAdd s node value).map NetCrdt.toArray := by
  have hle := h.dots_le
  have hfull : s.toArray.count = 16 ↔ s.dots.length = netCrdtDotsMax := by
    rw [← UInt32.toNat_inj, h.toNat_count]
    rfl
  unfold add netCrdtAdd
  simp only [h.valid_toArray, hfull, NetCrdt.toArray_kind, NetCrdt.toArray_vector]
  split_ifs with hif
  · rfl
  · simp only [not_or] at hif
    have hlt : s.dots.length < netCrdtDotsMax := by
      have := hif.2.2.2.1
      omega
    generalize (⟨node, 0, s.vector (nodeIndex node) + 1, value⟩ : NetDot) = dot
    have hlength : (s.dots ++ [dot]).length = s.dots.length + 1 := by
      rw [List.length_append, List.length_singleton]
    have hcount : s.toArray.count + 1 = UInt32.ofNat (s.dots ++ [dot]).length := by
      rw [hlength]
      exact (UInt32.ofNat_add _ _).symm
    have hnat : (UInt32.ofNat (s.dots ++ [dot]).length).toNat = (s.dots ++ [dot]).length := by
      rw [hlength]
      unfold netCrdtDotsMax at hlt
      exact UInt32.toNat_ofNat_of_lt' (by change _ < 2 ^ 32; omega)
    have hset : setDot s.toArray.dots s.toArray.count.toNat dot =
        .ofUsed _ zeroDot (s.dots ++ [dot]) := by
      apply FixedArray.ext
      rw [FixedArray.entries_ofUsed (by omega)]
      change s.toArray.dots.entries.set _ _ = _
      rw [h.entries_dots, h.toNat_count, set_pad hlt]
    have hsorted : (sortDots (s.dots ++ [dot])).length = (s.dots ++ [dot]).length :=
      (sortDots_perm _).length_eq
    rw [hset, hcount, sort_ofUsed (by omega) hnat, Option.map_some]
    unfold NetCrdt.toArray
    dsimp only
    rw [hsorted]

theorem remove_toArray (node : UInt32) (value : UInt64) :
    s.toArray.remove node value = (netCrdtRemove s node value).map NetCrdt.toArray := by
  have hused : s.toArray.dots.entries.take s.toArray.count.toNat = s.dots := by
    rw [h.entries_dots, h.toNat_count, take_pad]
  have hmap : mapUsed (markRemoved value) s.toArray.count s.toArray.dots =
      .ofUsed _ zeroDot (s.dots.map (markRemoved value)) := by
    apply FixedArray.ext
    rw [FixedArray.entries_ofUsed (by rw [List.length_map]; exact h.dots_le)]
    change (s.toArray.dots.entries.take _).map _ ++ s.toArray.dots.entries.drop _ = _
    rw [hused, h.entries_dots, h.toNat_count, drop_pad, pad, List.length_map]
  unfold remove netCrdtRemove
  simp only [h.valid_toArray, hused, hmap, NetCrdt.toArray_kind, NetCrdt.toArray_vector]
  split_ifs
  · rfl
  all_goals
    rw [Option.map_some]
    unfold NetCrdt.toArray
    dsimp only
    rw [List.length_map]

end Fits

/-! ### Merge -/

/-- The inner loop finds the dot and merges it, or there is no such dot. -/
theorem mergeDot_eq (dot : NetDot) : ∀ dots : List NetDot,
    mergeDot dot dots = match mergeFound dot dots with
      | none => none
      | some (true, used) => some used
      | some (false, _) => some (dots ++ [dot])
  | [] => rfl
  | existing :: dots => by
    rw [mergeDot, mergeFound]
    split_ifs
    · rw [mergeDot_eq dot dots]
      cases mergeFound dot dots with
      | none => rfl
      | some result =>
        obtain ⟨found, used⟩ := result
        cases found <;> rfl
    · rfl
    · rfl

/-- The outer loop is the merge of the dots in use. -/
theorem mergeLoop_eq : ∀ {right dots : List NetDot}, dots.length ≤ netCrdtDotsMax →
    mergeLoop (UInt32.ofNat dots.length) (pad netCrdtDotsMax zeroDot dots) right =
      (mergeDots dots right).map fun out =>
        (UInt32.ofNat out.length, pad netCrdtDotsMax zeroDot out)
  | [], _, _ => rfl
  | dot :: right, dots, hle => by
    have hnat : (UInt32.ofNat dots.length).toNat = dots.length := by
      unfold netCrdtDotsMax at hle
      exact UInt32.toNat_ofNat_of_lt' (by change _ < 2 ^ 32; omega)
    have hfull : UInt32.ofNat dots.length = 16 ↔ dots.length = netCrdtDotsMax := by
      rw [← UInt32.toNat_inj, hnat]
      rfl
    rw [mergeLoop, mergeDots, hnat, take_pad, drop_pad, mergeDot_eq]
    cases hfound : mergeFound dot dots with
    | none => rfl
    | some result =>
      obtain ⟨found, used⟩ := result
      cases found with
      | true =>
        have hlength := length_mergeFound hfound
        dsimp only
        rw [if_neg (by omega), ← hlength]
        exact mergeLoop_eq (hlength.trans_le hle)
      | false =>
        have hlength : (dots ++ [dot]).length = dots.length + 1 := by
          rw [List.length_append, List.length_singleton]
        dsimp only
        by_cases hmax : dots.length = netCrdtDotsMax
        · rw [if_pos (hfull.mpr hmax), if_pos (by omega)]
          rfl
        · have hlt : dots.length < netCrdtDotsMax := by omega
          rw [if_neg (fun heq => hmax (hfull.mp heq)), if_neg (by omega), set_pad hlt,
            show UInt32.ofNat dots.length + 1 = UInt32.ofNat (dots ++ [dot]).length by
              rw [hlength]; exact (UInt32.ofNat_add _ _).symm]
          exact mergeLoop_eq (by omega)

theorem length_mergeDots : ∀ {right dots out : List NetDot}, dots.length ≤ netCrdtDotsMax →
    mergeDots dots right = some out → out.length ≤ netCrdtDotsMax
  | [], _, _, hle, h => by
    cases h
    exact hle
  | dot :: right, dots, out, hle, h => by
    rw [mergeDots] at h
    cases hmerge : mergeDot dot dots with
    | none =>
      rw [hmerge] at h
      cases h
    | some merged =>
      rw [hmerge] at h
      dsimp only at h
      split_ifs at h with hmax
      exact length_mergeDots (Nat.not_lt.mp hmax) h

theorem mergeArrays_entries (a b : NetCrdtArray) :
    (mergeArrays a b).map (fun merged => (merged.1, merged.2.entries)) =
      mergeLoop a.count a.dots.entries (b.dots.entries.take b.count.toNat) := by
  unfold mergeArrays
  split
  · rename_i heq
    exact heq.symm
  · rename_i heq
    exact heq.symm

section Merge

variable {a b : NetCrdt} (ha : a.Fits) (hb : b.Fits)

include ha hb

theorem mergeArrays_toArray : mergeArrays a.toArray b.toArray =
    (mergeDots a.dots b.dots).map fun out =>
      (UInt32.ofNat out.length, .ofUsed _ zeroDot out) := by
  have hentries := mergeArrays_entries a.toArray b.toArray
  rw [ha.entries_dots, hb.entries_dots, hb.toNat_count, take_pad,
    show a.toArray.count = UInt32.ofNat a.dots.length from rfl, mergeLoop_eq ha.dots_le] at hentries
  cases hmerge : mergeDots a.dots b.dots with
  | none =>
    rw [hmerge] at hentries
    exact Option.map_eq_none_iff.mp hentries
  | some out =>
    rw [hmerge] at hentries
    obtain ⟨⟨count, dots⟩, hmerged, heq⟩ := Option.map_eq_some_iff.mp hentries
    obtain ⟨rfl, hdots⟩ := Prod.mk.inj heq
    rw [hmerged, Option.map_some]
    refine congrArg some (Prod.ext rfl (FixedArray.ext ?_))
    rw [FixedArray.entries_ofUsed (length_mergeDots ha.dots_le hmerge)]
    exact hdots

theorem value_ne_iff : (a.toArray.length ≠ b.toArray.length ∨ a.toArray.value ≠ b.toArray.value) ↔
    a.value ≠ b.value := by
  constructor
  · rintro hne heq
    rcases hne with hne | hne
    · exact hne (congrArg (fun l : List UInt8 => UInt32.ofNat l.length) heq)
    · exact hne (congrArg (FixedArray.ofUsed _ 0) heq)
  · intro hne
    by_contra hsame
    rw [not_or, not_not, not_not] at hsame
    have hlength : a.value.length = b.value.length := by
      rw [← ha.toNat_length, ← hb.toNat_length, hsame.1]
    have hvalue : a.toArray.value.entries.take a.value.length = a.value := by
      rw [ha.entries_value, take_pad]
    rw [hsame.2, hb.entries_value, hlength, take_pad] at hvalue
    exact hne hvalue.symm

/-- `merge` on arrays is `netCrdtMerge` on lists. -/
theorem merge_toArray : a.toArray.merge b.toArray = (netCrdtMerge a b).map NetCrdt.toArray := by
  unfold merge netCrdtMerge
  simp only [ha.valid_toArray, hb.valid_toArray, value_ne_iff ha hb, NetCrdt.toArray_kind,
    NetCrdt.toArray_vector, NetCrdt.toArray_timestamp, NetCrdt.toArray_author,
    mergeArrays_toArray ha hb]
  by_cases hvalid : (!a.valid) = true ∨ (!b.valid) = true ∨ a.kind ≠ b.kind
  · rw [if_pos hvalid, if_pos hvalid]
    rfl
  rw [if_neg hvalid, if_neg hvalid]
  by_cases hkind : a.kind = 1
  · rw [if_pos hkind, if_pos hkind]
    by_cases hconflict : a.timestamp = b.timestamp ∧ a.author = b.author ∧ a.value ≠ b.value
    · rw [if_pos hconflict, if_pos hconflict]
      rfl
    rw [if_neg hconflict, if_neg hconflict]
    split
    · rename_i hlater
      exact if_pos hlater
    · rename_i hlater
      exact if_neg hlater
  rw [if_neg hkind, if_neg hkind]
  cases hmerge : mergeDots a.dots b.dots with
  | none => rfl
  | some out =>
    have hle := length_mergeDots ha.dots_le hmerge
    have hnat : (UInt32.ofNat out.length).toNat = out.length := by
      unfold netCrdtDotsMax at hle
      exact UInt32.toNat_ofNat_of_lt' (by change _ < 2 ^ 32; omega)
    have hsorted : (sortDots out).length = out.length := (sortDots_perm _).length_eq
    rw [Option.map_some, Option.map_some]
    dsimp only
    rw [sort_ofUsed hle hnat]
    unfold NetCrdt.toArray
    dsimp only
    rw [hsorted]

end Merge

/-! ### Stored form -/

theorem encode_toArray {s : NetCrdt} (h : s.Fits) : s.toArray.encode = netCrdtEncode s := by
  have hbytes : s.toArray.bytes = s.bytes := by
    unfold bytes NetCrdt.bytes NetCrdt.headerBytes
    rw [h.toNat_count, h.entries_value, h.entries_dots]
    rfl
  unfold encode netCrdtEncode
  rw [h.valid_toArray, hbytes]

theorem valid_eq_check (a : NetCrdtArray) : (if a.valid then some a else none) =
    (if a.count.toNat > netCrdtDotsMax ∨ a.length.toNat > netCrdtValueMax ∨
        (∃ byte ∈ a.value.entries.drop a.length.toNat, byte ≠ 0) ∨
        (∃ dot ∈ a.dots.entries.drop a.count.toNat, dot ≠ zeroDot) then none
      else if a.used.valid then some a.used else none).map NetCrdt.toArray := by
  by_cases htails : a.count.toNat > netCrdtDotsMax ∨ a.length.toNat > netCrdtValueMax ∨
      (∃ byte ∈ a.value.entries.drop a.length.toNat, byte ≠ 0) ∨
      (∃ dot ∈ a.dots.entries.drop a.count.toNat, dot ≠ zeroDot)
  · rw [if_pos htails, if_neg]
    · rfl
    · intro hvalid
      have hpadded := padded_of_valid hvalid
      rcases htails with hcount | hlength | ⟨byte, hbyte, hne⟩ | ⟨dot, hdot, hne⟩
      · exact absurd hpadded.count_le (Nat.not_le.mpr hcount)
      · exact absurd hpadded.length_le (Nat.not_le.mpr hlength)
      · exact hne (hpadded.value_zero byte hbyte)
      · exact hne (hpadded.dots_zero dot hdot)
  · rw [if_neg htails]
    obtain ⟨hcount, hlength, hvalue, hdots⟩ := by
      simpa only [not_or, gt_iff_lt, Nat.not_lt, not_exists, not_and, not_not] using htails
    have hpadded : a.Padded := ⟨hcount, hlength, hvalue, hdots⟩
    rw [hpadded.valid_eq]
    split_ifs
    · rw [Option.map_some, hpadded.toArray_used]
    · rfl

/-- **The two decoders** accept the same bytes. -/
theorem decode_eq (b : List UInt8) : decode b = (netCrdtDecode b).map NetCrdt.toArray := by
  have htwo : (UInt32.ofNat (ofLeBytes ((b.drop 6).take 2))).toNat =
      ofLeBytes ((b.drop 6).take 2) := by
    have hlt := ofLeBytes_lt ((b.drop 6).take 2)
    have hpow : 256 ^ ((b.drop 6).take 2).length ≤ 256 ^ 2 :=
      Nat.pow_le_pow_right (by decide) (List.length_take_le _ _)
    exact UInt32.toNat_ofNat_of_lt' (by change _ < 2 ^ 32; omega)
  unfold decode netCrdtDecode
  by_cases hlength : b.length ≠ netCrdtBytes
  · rw [dif_pos hlength, if_pos hlength]
    rfl
  rw [dif_neg hlength, if_neg hlength]
  by_cases hfront : b.take 4 ≠ netCrdtMagic ∨ b.getD 4 0 ≠ 1
  · rw [if_pos hfront, if_pos hfront]
    rfl
  rw [if_neg hfront, if_neg hfront]
  dsimp only
  refine (valid_eq_check _).trans ?_
  unfold used
  dsimp only
  rw [htwo]

/-! ### What the functions return -/

variable {s : NetCrdtArray} {node : UInt32}

theorem exists_toArray (h : s.valid = true) :
    ∃ t : NetCrdt, t.valid = true ∧ t.Fits ∧ s = t.toArray := by
  obtain ⟨t, ht, rfl⟩ := valid_iff.mp h
  exact ⟨t, ht, NetCrdt.fits_of_valid ht, rfl⟩

theorem valid_of_map {x : Option NetCrdt} (h : x.map NetCrdt.toArray = some s)
    (hvalid : ∀ t, x = some t → t.valid = true) : s.valid = true := by
  obtain ⟨t, ht, rfl⟩ := Option.map_eq_some_iff.mp h
  exact valid_iff.mpr ⟨t, hvalid t ht, rfl⟩

theorem init_valid {kind : UInt32} (h : init kind = some s) : s.valid = true :=
  valid_of_map ((init_eq kind).symm.trans h) fun _ ht => (netCrdtInit_some ht).1

theorem set_valid {s' : NetCrdtArray} {value : List UInt8} (h : s.set node value = some s') :
    s'.valid = true := by
  have hs : s.valid = true := by
    by_contra hinvalid
    unfold set at h
    rw [if_pos (Or.inl (by simpa using hinvalid))] at h
    cases h
  obtain ⟨t, -, hfits, rfl⟩ := exists_toArray hs
  refine valid_of_map ((set_toArray hfits node value).symm.trans h) fun t' ht' => ?_
  obtain ⟨-, -, -, hkind, hregister, -⟩ := netCrdtSet_some ht'
  exact (NetCrdt.valid_register hkind).mpr hregister

theorem add_valid {s' : NetCrdtArray} {value : UInt64} (h : s.add node value = some s') :
    s'.valid = true := by
  have hs : s.valid = true ∧ s.kind = 2 := by
    by_contra hinvalid
    unfold add at h
    rw [if_pos] at h
    · cases h
    · by_cases hvalid : s.valid = true
      · exact Or.inr (Or.inl fun hkind => hinvalid ⟨hvalid, hkind⟩)
      · exact Or.inl (by simpa using hvalid)
  obtain ⟨t, ht, hfits, rfl⟩ := exists_toArray hs.1
  refine valid_of_map ((add_toArray hfits node value).symm.trans h) fun t' ht' => ?_
  obtain ⟨-, -, -, hkind, hset, -⟩ :=
    netCrdtAdd_some ht' ((NetCrdt.valid_dots hs.2).mp ht).shows
  exact (NetCrdt.valid_dots hkind).mpr hset

theorem remove_valid {s' : NetCrdtArray} {value : UInt64} (h : s.remove node value = some s') :
    s'.valid = true := by
  have hs : s.valid = true := by
    by_contra hinvalid
    unfold remove at h
    rw [if_pos (Or.inl (by simpa using hinvalid))] at h
    cases h
  obtain ⟨t, -, hfits, rfl⟩ := exists_toArray hs
  refine valid_of_map ((remove_toArray hfits node value).symm.trans h) fun t' ht' => ?_
  obtain ⟨-, -, -, hkind, hset, -⟩ := netCrdtRemove_some ht'
  exact (NetCrdt.valid_dots hkind).mpr hset

theorem merge_valid {a b : NetCrdtArray} (h : a.merge b = some s) : s.valid = true := by
  have hs : a.valid = true ∧ b.valid = true := by
    by_contra hinvalid
    unfold merge at h
    rw [if_pos] at h
    · cases h
    · by_cases ha : a.valid = true
      · exact Or.inr (Or.inl (by simpa using fun hb => hinvalid ⟨ha, hb⟩))
      · exact Or.inl (by simpa using ha)
  obtain ⟨t, -, ht, rfl⟩ := exists_toArray hs.1
  obtain ⟨u, -, hu, rfl⟩ := exists_toArray hs.2
  exact valid_of_map ((merge_toArray ht hu).symm.trans h) fun _ => netCrdtMerge_valid

/-- **Round trip**: a valid state is stored in 680 bytes and read back. -/
theorem decode_encode (h : s.valid = true) :
    ∃ b, s.encode = some b ∧ b.length = netCrdtBytes ∧ decode b = some s := by
  obtain ⟨t, ht, hfits, rfl⟩ := exists_toArray h
  refine ⟨t.bytes, ?_, NetCrdt.length_bytes ht, ?_⟩
  · rw [encode_toArray hfits, netCrdtEncode_eq_some]
    exact ⟨ht, rfl⟩
  · rw [decode_eq, netCrdtDecode_bytes ht, Option.map_some]

/-- **Canonicity**: the bytes that are read as a state are those it is stored as. -/
theorem encode_decode {b : List UInt8} (h : decode b = some s) : s.encode = some b := by
  rw [decode_eq] at h
  obtain ⟨t, ht, rfl⟩ := Option.map_eq_some_iff.mp h
  have hvalid := valid_of_netCrdtDecode ht
  rw [encode_toArray (NetCrdt.fits_of_valid hvalid), netCrdtEncode_eq_some]
  exact ⟨hvalid, (bytes_of_netCrdtDecode ht).symm⟩

theorem encode_isSome (h : s.valid = true) : s.encode.isSome = true := by
  unfold encode
  rw [if_pos h]
  rfl

end NetCrdtArray

end Jani
