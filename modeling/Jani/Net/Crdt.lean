import Jani.Lib.Bytes
import Mathlib.Data.Fin.VecNotation
import Mathlib.Data.Fintype.Basic
import Mathlib.Data.List.Sort

/-!
# Replicated values (`crdt.zig`)

A replicated value is a register, where the last write wins, or a set of *dots*.  A dot is one
addition: the node that made it, a counter of that node, the value, and whether the addition was
removed since.  The vector counts the operations of each of the two nodes.

The arrays `value` and `dots` of the source are lists of the bytes and dots in use.  Their unused
tails, which `valid` wants zero, appear in `netCrdtEncode` and `netCrdtDecode`.
-/

namespace Jani

def netCrdtLww : UInt32 := 1

def netCrdtOrset : UInt32 := 2

def netCrdtValueMax : Nat := 256

def netCrdtDotsMax : Nat := 16

def netCrdtBytes : Nat := 680

structure NetDot where
  node : UInt32
  removed : UInt32
  counter : UInt64
  value : UInt64
deriving DecidableEq, Repr

@[ext]
structure NetCrdt where
  kind : UInt32
  vector : Fin 2 → UInt64
  timestamp : UInt64
  author : UInt32
  value : List UInt8
  dots : List NetDot
deriving DecidableEq

/-- The index of a node in a vector; the source uses it for nodes `0` and `1` only. -/
def nodeIndex (node : UInt32) : Fin 2 := if node = 0 then 0 else 1

def dotLess (a b : NetDot) : Prop := a.node < b.node ∨ (a.node = b.node ∧ a.counter < b.counter)

instance (a b : NetDot) : Decidable (dotLess a b) := inferInstanceAs (Decidable (_ ∨ _))

def zeroDot : NetDot := ⟨0, 0, 0, 0⟩

/-! ### Validity -/

/-- The loop of `valid` over the dots in use, after the dot `prior`. -/
def dotsValid (vector : Fin 2 → UInt64) : Option NetDot → List NetDot → Bool
  | _, [] => true
  | prior, dot :: dots =>
    if dot.node > 1 ∨ dot.removed > 1 ∨ dot.counter = 0 ∨
        dot.counter > vector (nodeIndex dot.node) then false
    else if ∃ p ∈ prior, ¬ dotLess p dot then false
    else dotsValid vector (some dot) dots

def NetCrdt.valid (s : NetCrdt) : Bool :=
  if s.kind < 1 ∨ s.kind > 2 ∨ s.dots.length > netCrdtDotsMax ∨
      s.value.length > netCrdtValueMax ∨ s.author > 1 then false
  else if s.kind = 1 then
    if s.dots.length ≠ 0 then false
    else if s.timestamp = 0 then
      s.value.length = 0 ∧ s.author = 0 ∧ s.vector 0 = 0 ∧ s.vector 1 = 0
    else
      s.vector (nodeIndex s.author) ≠ 0 ∧ s.timestamp ≥ max (s.vector 0) (s.vector 1)
  else if s.timestamp ≠ 0 ∨ s.author ≠ 0 ∨ s.value.length ≠ 0 then false
  else dotsValid s.vector none s.dots

/-! ### Sorting -/

/-- Puts a dot behind the sorted dots `done`, which are given from the last to the first, and
moves it forward as far as it goes. -/
def insertDot (dot : NetDot) : (done : List NetDot) → List NetDot
  | [] => [dot]
  | last :: done => if dotLess dot last then last :: insertDot dot done else dot :: last :: done

/-- The insertion sort of `sort`. -/
def sortDots (dots : List NetDot) : List NetDot :=
  (dots.foldl (fun done dot => insertDot dot done) []).reverse

/-! ### Operations -/

def netCrdtInit (kind : UInt32) : Option NetCrdt :=
  let next : NetCrdt := ⟨kind, fun _ => 0, 0, 0, [], []⟩
  if next.valid then some next else none

def netCrdtSet (s : NetCrdt) (node : UInt32) (value : List UInt8) : Option NetCrdt :=
  if !s.valid ∨ s.kind ≠ 1 ∨ node > 1 ∨ value.length > netCrdtValueMax ∨
      s.timestamp = 0xFFFFFFFFFFFFFFFF ∨ s.vector (nodeIndex node) = 0xFFFFFFFFFFFFFFFF then none
  else some { s with
    value := value
    author := node
    timestamp := s.timestamp + 1
    vector := Function.update s.vector (nodeIndex node) (s.vector (nodeIndex node) + 1) }

def netCrdtAdd (s : NetCrdt) (node : UInt32) (value : UInt64) : Option NetCrdt :=
  if !s.valid ∨ s.kind ≠ 2 ∨ node > 1 ∨ s.dots.length = netCrdtDotsMax ∨
      s.vector (nodeIndex node) = 0xFFFFFFFFFFFFFFFF then none
  else
    let counter := s.vector (nodeIndex node) + 1
    some { s with
      vector := Function.update s.vector (nodeIndex node) counter
      dots := sortDots (s.dots ++ [⟨node, 0, counter, value⟩]) }

/-- A remove marks the dots of the value that it finds. -/
def markRemoved (value : UInt64) (dot : NetDot) : NetDot :=
  if dot.value = value ∧ dot.removed = 0 then { dot with removed := 1 } else dot

def netCrdtRemove (s : NetCrdt) (node : UInt32) (value : UInt64) : Option NetCrdt :=
  if !s.valid ∨ s.kind ≠ 2 ∨ node > 1 ∨ s.vector (nodeIndex node) = 0xFFFFFFFFFFFFFFFF then none
  else
    let changed := s.dots.any fun dot => dot.value = value ∧ dot.removed = 0
    some { s with
      dots := s.dots.map (markRemoved value)
      vector :=
        if changed then
          Function.update s.vector (nodeIndex node) (s.vector (nodeIndex node) + 1)
        else s.vector }

/-! ### Merge -/

/-- One dot of the right state is merged into the dots so far: the inner loop looks for a dot of
the same node and counter. -/
def mergeDot (dot : NetDot) : List NetDot → Option (List NetDot)
  | [] => some [dot]
  | existing :: dots =>
    if existing.node ≠ dot.node ∨ existing.counter ≠ dot.counter then
      (mergeDot dot dots).map (existing :: ·)
    else if existing.value ≠ dot.value then none
    else some ({ existing with removed := existing.removed ||| dot.removed } :: dots)

/-- The outer loop: a dot that is not found needs a free place. -/
def mergeDots : (next : List NetDot) → (dots : List NetDot) → Option (List NetDot)
  | next, [] => some next
  | next, dot :: dots =>
    match mergeDot dot next with
    | none => none
    | some merged => if merged.length > netCrdtDotsMax then none else mergeDots merged dots

def netCrdtMerge (a b : NetCrdt) : Option NetCrdt :=
  if !a.valid ∨ !b.valid ∨ a.kind ≠ b.kind then none
  else
    let vector := fun i => max (a.vector i) (b.vector i)
    if a.kind = 1 then
      if a.timestamp = b.timestamp ∧ a.author = b.author ∧ a.value ≠ b.value then none
      else if b.timestamp > a.timestamp ∨ (b.timestamp = a.timestamp ∧ b.author > a.author) then
        some { b with vector := vector }
      else some { a with vector := vector }
    else
      match mergeDots a.dots b.dots with
      | none => none
      | some dots => some { a with dots := sortDots dots, vector := vector }

/-- `net_crdt_merge` on states in memory.  The arguments are copied first, so the output may be one
of the inputs, and it is written only after the merge succeeded. -/
def netCrdtMergeAt {Address : Type*} [DecidableEq Address] (memory : Address → NetCrdt)
    (out left right : Option Address) : Bool × (Address → NetCrdt) :=
  match out, left, right with
  | some out, some left, some right =>
    match netCrdtMerge (memory left) (memory right) with
    | none => (false, memory)
    | some next => (true, Function.update memory out next)
  | _, _, _ => (false, memory)

/-! ### Stored form -/

/-- The bytes of `"JC5R"`. -/
def netCrdtMagic : List UInt8 := [0x4A, 0x43, 0x35, 0x52]

def NetDot.bytes (dot : NetDot) : List UInt8 :=
  le32 dot.node ++ le32 dot.removed ++ le64 dot.counter ++ le64 dot.value

def NetDot.ofBytes (bytes : List UInt8) : NetDot :=
  ⟨u32At bytes 0, u32At bytes 4, u64At bytes 8, u64At bytes 16⟩

/-- The fields of a state before the arrays, with `length` the number of bytes of the value. -/
def NetCrdt.headerBytes (s : NetCrdt) : List UInt8 :=
  netCrdtMagic ++ [1, s.kind.toUInt8] ++ leBytes 2 s.dots.length ++ le64 (s.vector 0) ++
    le64 (s.vector 1) ++ le64 s.timestamp ++ le32 s.author ++ le32 (UInt32.ofNat s.value.length)

def NetCrdt.bytes (s : NetCrdt) : List UInt8 :=
  s.headerBytes ++ (s.value ++ List.replicate (netCrdtValueMax - s.value.length) 0) ++
    (s.dots ++ List.replicate (netCrdtDotsMax - s.dots.length) zeroDot).flatMap NetDot.bytes

def netCrdtEncode (s : NetCrdt) : Option (List UInt8) :=
  if s.valid then some s.bytes else none

def netCrdtDecode (bytes : List UInt8) : Option NetCrdt :=
  if bytes.length ≠ netCrdtBytes then none
  else if bytes.take 4 ≠ netCrdtMagic ∨ bytes.getD 4 0 ≠ 1 then none
  else
    let count := ofLeBytes ((bytes.drop 6).take 2)
    let length := (u32At bytes 36).toNat
    let value := (bytes.drop 40).take netCrdtValueMax
    let dots := (List.range netCrdtDotsMax).map fun i => NetDot.ofBytes (bytes.drop (296 + 24 * i))
    -- the part of `valid` about the unused tails
    if count > netCrdtDotsMax ∨ length > netCrdtValueMax ∨ (∃ byte ∈ value.drop length, byte ≠ 0) ∨
        (∃ dot ∈ dots.drop count, dot ≠ zeroDot) then none
    else
      let next : NetCrdt :=
        { kind := (bytes.getD 5 0).toUInt32
          vector := ![u64At bytes 8, u64At bytes 16]
          timestamp := u64At bytes 24
          author := u32At bytes 32
          value := value.take length
          dots := dots.take count }
      if next.valid then some next else none

end Jani
