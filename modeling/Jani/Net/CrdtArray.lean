import Jani.Lib.PaddedArray
import Jani.Net.Crdt

/-!
# Replicated values with their arrays (`crdt.zig`)

The functions of `crdt.zig` on the structure they work on: `value` and `dots` are arrays of fixed
size, `length` and `count` say how much of them is in use, and `valid` wants the rest to be zero.
`Net.Crdt` is the same with lists of the bytes and dots in use; `Equiv.CrdtArray` connects the two.
-/

namespace Jani

structure NetCrdtArray where
  kind : UInt32
  count : UInt32
  vector : Fin 2 → UInt64
  timestamp : UInt64
  author : UInt32
  length : UInt32
  value : FixedArray UInt8 netCrdtValueMax
  dots : FixedArray NetDot netCrdtDotsMax
deriving DecidableEq

namespace NetCrdtArray

def valid (s : NetCrdtArray) : Bool :=
  if s.kind < 1 ∨ s.kind > 2 ∨ s.count > 16 ∨ s.length > 256 ∨ s.author > 1 then false
  else if ∃ byte ∈ s.value.entries.drop s.length.toNat, byte ≠ 0 then false
  else if ∃ dot ∈ s.dots.entries.drop s.count.toNat, dot ≠ zeroDot then false
  else if s.kind = 1 then
    if s.count ≠ 0 then false
    else if s.timestamp = 0 then
      s.length = 0 ∧ s.author = 0 ∧ s.vector 0 = 0 ∧ s.vector 1 = 0
    else
      s.vector (nodeIndex s.author) ≠ 0 ∧ s.timestamp ≥ max (s.vector 0) (s.vector 1)
  else if s.timestamp ≠ 0 ∨ s.author ≠ 0 ∨ s.length ≠ 0 then false
  else dotsValid s.vector none (s.dots.entries.take s.count.toNat)

/-! ### Sorting -/

/-- The inner loop of `sort`: the dots before `place` that come after `dot` move up by one. -/
def shiftDot (dot : NetDot) : (place : Nat) → List NetDot → List NetDot
  | 0, dots => dots.set 0 dot
  | place + 1, dots =>
    if dotLess dot (dots.getD place zeroDot) then
      shiftDot dot place (dots.set (place + 1) (dots.getD place zeroDot))
    else dots.set (place + 1) dot

/-- The outer loop of `sort`, with `steps` rounds left. -/
def sortLoop : (steps i : Nat) → List NetDot → List NetDot
  | 0, _, dots => dots
  | steps + 1, i, dots => sortLoop steps (i + 1) (shiftDot (dots.getD i zeroDot) i dots)

theorem length_shiftDot (dot : NetDot) : ∀ (place : Nat) (dots : List NetDot),
    (shiftDot dot place dots).length = dots.length
  | 0, dots => List.length_set
  | place + 1, dots => by
    rw [shiftDot]
    split_ifs
    · rw [length_shiftDot, List.length_set]
    · exact List.length_set

theorem length_sortLoop : ∀ (steps i : Nat) (dots : List NetDot),
    (sortLoop steps i dots).length = dots.length
  | 0, _, _ => rfl
  | steps + 1, i, dots => by rw [sortLoop, length_sortLoop, length_shiftDot]

def sort (count : UInt32) (dots : FixedArray NetDot netCrdtDotsMax) :
    FixedArray NetDot netCrdtDotsMax :=
  ⟨sortLoop (count.toNat - 1) 1 dots.entries, by rw [length_sortLoop, dots.length_entries]⟩

/-! ### Operations -/

def setDot (dots : FixedArray NetDot netCrdtDotsMax) (i : Nat) (dot : NetDot) :
    FixedArray NetDot netCrdtDotsMax :=
  ⟨dots.entries.set i dot, by rw [List.length_set, dots.length_entries]⟩

def init (kind : UInt32) : Option NetCrdtArray :=
  let next : NetCrdtArray := ⟨kind, 0, fun _ => 0, 0, 0, 0, .ofUsed _ 0 [], .ofUsed _ zeroDot []⟩
  if next.valid then some next else none

def set (s : NetCrdtArray) (node : UInt32) (value : List UInt8) : Option NetCrdtArray :=
  if !s.valid ∨ s.kind ≠ 1 ∨ node > 1 ∨ value.length > netCrdtValueMax ∨
      s.timestamp = 0xFFFFFFFFFFFFFFFF ∨ s.vector (nodeIndex node) = 0xFFFFFFFFFFFFFFFF then none
  else some { s with
    value := .ofUsed _ 0 value
    length := UInt32.ofNat value.length
    author := node
    timestamp := s.timestamp + 1
    vector := Function.update s.vector (nodeIndex node) (s.vector (nodeIndex node) + 1) }

def add (s : NetCrdtArray) (node : UInt32) (value : UInt64) : Option NetCrdtArray :=
  if !s.valid ∨ s.kind ≠ 2 ∨ node > 1 ∨ s.count = 16 ∨
      s.vector (nodeIndex node) = 0xFFFFFFFFFFFFFFFF then none
  else
    let counter := s.vector (nodeIndex node) + 1
    some { s with
      vector := Function.update s.vector (nodeIndex node) counter
      dots := sort (s.count + 1) (setDot s.dots s.count.toNat ⟨node, 0, counter, value⟩)
      count := s.count + 1 }

/-- The array with a function applied to the dots in use. -/
def mapUsed (f : NetDot → NetDot) (count : UInt32) (dots : FixedArray NetDot netCrdtDotsMax) :
    FixedArray NetDot netCrdtDotsMax :=
  ⟨(dots.entries.take count.toNat).map f ++ dots.entries.drop count.toNat, by
    rw [List.length_append, List.length_map, ← List.length_append, List.take_append_drop,
      dots.length_entries]⟩

def remove (s : NetCrdtArray) (node : UInt32) (value : UInt64) : Option NetCrdtArray :=
  if !s.valid ∨ s.kind ≠ 2 ∨ node > 1 ∨ s.vector (nodeIndex node) = 0xFFFFFFFFFFFFFFFF then none
  else
    let changed := (s.dots.entries.take s.count.toNat).any fun dot =>
      dot.value = value ∧ dot.removed = 0
    some { s with
      dots := mapUsed (markRemoved value) s.count s.dots
      vector :=
        if changed then
          Function.update s.vector (nodeIndex node) (s.vector (nodeIndex node) + 1)
        else s.vector }

/-! ### Merge -/

/-- The inner loop of a merge over the dots in use: whether the dot was found, and the dots. -/
def mergeFound (dot : NetDot) : List NetDot → Option (Bool × List NetDot)
  | [] => some (false, [])
  | existing :: dots =>
    if existing.node ≠ dot.node ∨ existing.counter ≠ dot.counter then
      (mergeFound dot dots).map fun (found, dots) => (found, existing :: dots)
    else if existing.value ≠ dot.value then none
    else some (true, { existing with removed := existing.removed ||| dot.removed } :: dots)

/-- The outer loop, over the dots of the right state. -/
def mergeLoop : (count : UInt32) → (dots right : List NetDot) → Option (UInt32 × List NetDot)
  | count, dots, [] => some (count, dots)
  | count, dots, dot :: right =>
    match mergeFound dot (dots.take count.toNat) with
    | none => none
    | some (true, used) => mergeLoop count (used ++ dots.drop count.toNat) right
    | some (false, _) =>
      if count = 16 then none else mergeLoop (count + 1) (dots.set count.toNat dot) right

theorem length_mergeFound {dot : NetDot} : ∀ {dots used : List NetDot} {found : Bool},
    mergeFound dot dots = some (found, used) → used.length = dots.length
  | [], used, found, h => by
    cases h
    rfl
  | existing :: dots, used, found, h => by
    rw [mergeFound] at h
    split_ifs at h
    · obtain ⟨⟨found', used'⟩, hrest, heq⟩ := Option.map_eq_some_iff.mp h
      cases heq
      rw [List.length_cons, length_mergeFound hrest, List.length_cons]
    · cases h
      rfl

theorem length_mergeLoop : ∀ {right : List NetDot} {count count' : UInt32}
    {dots dots' : List NetDot}, mergeLoop count dots right = some (count', dots') →
      dots'.length = dots.length
  | [], _, _, _, _, h => by
    cases h
    rfl
  | dot :: right, count, count', dots, dots', h => by
    rw [mergeLoop] at h
    cases hfound : mergeFound dot (dots.take count.toNat) with
    | none =>
      rw [hfound] at h
      cases h
    | some result =>
      obtain ⟨found, used⟩ := result
      rw [hfound] at h
      cases found with
      | true =>
        rw [length_mergeLoop h, List.length_append, length_mergeFound hfound,
          ← List.length_append, List.take_append_drop]
      | false =>
        dsimp only at h
        split_ifs at h
        rw [length_mergeLoop h, List.length_set]

/-- The dots of a merge of sets, before they are sorted. -/
def mergeArrays (a b : NetCrdtArray) : Option (UInt32 × FixedArray NetDot netCrdtDotsMax) :=
  match h : mergeLoop a.count a.dots.entries (b.dots.entries.take b.count.toNat) with
  | none => none
  | some (count, dots) => some (count, ⟨dots, by rw [length_mergeLoop h, a.dots.length_entries]⟩)

def merge (a b : NetCrdtArray) : Option NetCrdtArray :=
  if !a.valid ∨ !b.valid ∨ a.kind ≠ b.kind then none
  else
    let vector := fun i => max (a.vector i) (b.vector i)
    if a.kind = 1 then
      if a.timestamp = b.timestamp ∧ a.author = b.author ∧
          (a.length ≠ b.length ∨ a.value ≠ b.value) then none
      else if b.timestamp > a.timestamp ∨ (b.timestamp = a.timestamp ∧ b.author > a.author) then
        some { b with vector := vector }
      else some { a with vector := vector }
    else
      match mergeArrays a b with
      | none => none
      | some (count, dots) =>
        some { a with count := count, dots := sort count dots, vector := vector }

/-! ### Stored form -/

def bytes (s : NetCrdtArray) : List UInt8 :=
  netCrdtMagic ++ [1, s.kind.toUInt8] ++ leBytes 2 s.count.toNat ++ le64 (s.vector 0) ++
    le64 (s.vector 1) ++ le64 s.timestamp ++ le32 s.author ++ le32 s.length ++ s.value.entries ++
      s.dots.entries.flatMap NetDot.bytes

def encode (s : NetCrdtArray) : Option (List UInt8) := if s.valid then some s.bytes else none

def decode (bytes : List UInt8) : Option NetCrdtArray :=
  if h : bytes.length ≠ netCrdtBytes then none
  else if bytes.take 4 ≠ netCrdtMagic ∨ bytes.getD 4 0 ≠ 1 then none
  else
    let next : NetCrdtArray :=
      { kind := (bytes.getD 5 0).toUInt32
        count := UInt32.ofNat (ofLeBytes ((bytes.drop 6).take 2))
        vector := ![u64At bytes 8, u64At bytes 16]
        timestamp := u64At bytes 24
        author := u32At bytes 32
        length := u32At bytes 36
        value := ⟨(bytes.drop 40).take netCrdtValueMax, by
          rw [List.length_take, List.length_drop, not_not.mp h]
          rfl⟩
        dots := ⟨(List.range netCrdtDotsMax).map fun i =>
            NetDot.ofBytes (bytes.drop (296 + 24 * i)), by
          rw [List.length_map, List.length_range]⟩ }
    if next.valid then some next else none

end NetCrdtArray

end Jani
