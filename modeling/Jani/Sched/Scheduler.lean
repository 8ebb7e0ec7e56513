import Jani.Cap.Domain

/-!
# The scheduler (`scheduler.c`, `trace_validate.zig`)

The scheduler runs one handler of one component per step.  Time is cut into frames of `frameTicks`
ticks; in each frame a component may use `budgetCycles` cycles, all of them together `frameCycles`.
The unused budgets of interactive components are set aside: another component is admitted only if
its own remaining budget still fits beside them.

A handler runs inside a transaction of the capability domain.  What it does there is the `effect` of
a `HandlerRun`, which may be anything that syscalls can do to the domain and to the trace; whether
the instance hands out its memory, and what the cycle counter shows before and after the handler,
are inputs of the step as well.  The replay session shows only in the success of the handler, and
`running`, which refuses calls made from inside a handler, is set in no state between two calls.
-/

namespace Jani

/-! ### The trace -/

def traceRun : UInt32 := 1

def traceWait : UInt32 := 2

def traceFail : UInt32 := 4

def traceSwap : UInt32 := 5

structure TraceEvent where
  component : ObjectId
  time : UInt64
  value : UInt64
  kind : UInt32
  reserved : UInt32
deriving DecidableEq

def TraceEvent.zero : TraceEvent := ⟨⟨0, 0⟩, 0, 0, 0, 0⟩

/-- The last events, as a ring; `next` is the place of the next event. -/
structure SchedulerTrace where
  count : UInt32
  next : UInt32
  events : Fin 64 → TraceEvent
deriving DecidableEq

def SchedulerTrace.zero : SchedulerTrace := ⟨0, 0, fun _ => TraceEvent.zero⟩

/-- `emit_trace` for the component with the given root. -/
def emitTrace (t : SchedulerTrace) (root : ObjectId) (kind : UInt32) (time value : UInt64) :
    SchedulerTrace :=
  if kind < traceRun ∨ kind > traceSwap then t
  else
    { events := fun i => if i.val = t.next.toNat then ⟨root, time, value, kind, 0⟩ else t.events i
      next := (t.next + 1) % 64
      count := if t.count < 64 then t.count + 1 else t.count }

def schedulerTrace (t : SchedulerTrace) (c : Component) (kind : UInt32) (value : UInt64) :
    SchedulerTrace :=
  emitTrace t c.rootId kind c.logicalTime value

def traceEventLayout : Layout TraceEvent :=
  (objectIdLayout.pair (Layout.word64.pair (Layout.word64.pair
    (Layout.word32.pair Layout.word32)))).map
    ⟨fun e => (e.component, e.time, e.value, e.kind, e.reserved),
      fun p => ⟨p.1, p.2.1, p.2.2.1, p.2.2.2.1, p.2.2.2.2⟩, fun _ => rfl, fun _ => rfl⟩

def traceEventsLayout : Layout (Fin 64 → TraceEvent) := traceEventLayout.array 64

structure TraceHeader where
  magic : UInt64
  count : UInt32
  next : UInt32
  payloadCrc32c : UInt32
  reserved : UInt32

def traceHeaderLayout : Layout TraceHeader :=
  (Layout.word64.pair (Layout.word32.pair (Layout.word32.pair
    (Layout.word32.pair Layout.word32)))).map
    ⟨fun h => (h.magic, h.count, h.next, h.payloadCrc32c, h.reserved),
      fun p => ⟨p.1, p.2.1, p.2.2.1, p.2.2.2.1, p.2.2.2.2⟩, fun _ => rfl, fun _ => rfl⟩

def traceMagic : UInt64 := 0x4A414E4954524331

def traceId : ObjectId := ⟨6, 0⟩

def traceType : ObjectId := ⟨0, 9⟩

def traceBytes (t : SchedulerTrace) : List UInt8 :=
  let events := traceEventsLayout.write t.events
  traceHeaderLayout.write ⟨traceMagic, t.count, t.next, objectCrc32c events, 0⟩ ++ events

/-- The check of one place of the ring. -/
def traceEventValid (count : UInt32) (i : Fin 64) (e : TraceEvent) : Bool :=
  if i.val ≥ count.toNat then e = TraceEvent.zero
  else !(objectIdIsZero e.component || e.kind < 1 || e.kind > 5 || e.reserved ≠ 0)

def schedulerTraceValidate (bytes : List UInt8) : Bool :=
  let header := traceHeaderLayout.read bytes
  let events := traceEventsLayout.read (bytes.drop 24)
  if bytes.length ≠ 24 + 64 * 40 then false
  else if header.magic ≠ traceMagic ∨ header.reserved ≠ 0 then false
  else if header.count > 64 ∨ header.next ≥ 64 ∨ (header.count < 64 ∧ header.next ≠ header.count) ∨
      objectCrc32c (bytes.drop 24) ≠ header.payloadCrc32c then false
  else (List.finRange 64).all fun i => traceEventValid header.count i (events i)

def traceRequest (t : SchedulerTrace) (frameStart : UInt64) : ObjectStorePutRequest where
  id := traceId
  typeId := traceType
  creatorId := ⟨0, 0⟩
  modifierId := ⟨0, 0⟩
  logicalTimestamp := frameStart
  payload := traceBytes t

/-! ### Schedulers -/

structure SchedulerPolicy where
  interactive : UInt32
  priority : UInt32
  budgetCycles : UInt64
deriving DecidableEq, Repr

structure Scheduler where
  domain : CapabilityDomain
  policies : Fin 4 → SchedulerPolicy
  lastRun : Fin 4 → UInt64
  used : Fin 4 → UInt64
  frameStart : UInt64
  frameTicks : UInt64
  frameCycles : UInt64
  consumed : UInt64
  cursor : UInt32
  running : Bool
  waiting : Fin 4 → UInt32
  trace : SchedulerTrace
deriving DecidableEq

/-- The stored trace a scheduler starts with. -/
def openTrace (store : ObjectMap) (readable : ObjectId → Bool) : Option SchedulerTrace :=
  if (store.find traceId).isNone then some SchedulerTrace.zero
  else match store.get readable traceId with
    | none => none
    | some object =>
      if object.typeId ≠ traceType ∨ !schedulerTraceValidate object.payload then none
      else
        let header := traceHeaderLayout.read object.payload
        some ⟨header.count, header.next, traceEventsLayout.read (object.payload.drop 24)⟩

def schedulerInit (domain : CapabilityDomain) (readable : ObjectId → Bool)
    (frameTicks frameCycles : UInt64) : Option Scheduler :=
  if frameTicks = 0 ∨ frameCycles = 0 then none
  else (openTrace domain.store readable).map fun trace =>
    { domain := domain
      policies := fun _ => ⟨0, 0, frameCycles / 4⟩
      lastRun := fun _ => 0
      used := fun _ => 0
      frameStart := 0
      frameTicks := frameTicks
      frameCycles := frameCycles
      consumed := 0
      cursor := 0
      running := false
      waiting := fun _ => 0
      trace := trace }

/-- The loop of `scheduler_configure`: the budgets of the interactive components fit in a frame. -/
def reserveBudgets (frameCycles : UInt64) (policies : Fin 4 → SchedulerPolicy) :
    List (Fin 4) → UInt64 → Option UInt64
  | [], reserved => some reserved
  | i :: rest, reserved =>
    let candidate := policies i
    if candidate.interactive ≠ 0 then
      if candidate.budgetCycles > frameCycles - reserved then none
      else reserveBudgets frameCycles policies rest (reserved + candidate.budgetCycles)
    else reserveBudgets frameCycles policies rest reserved

def schedulerConfigure (s : Scheduler) (index : UInt32) (p : SchedulerPolicy) : Option Scheduler :=
  if s.running then none
  else if h : index.toNat < 4 then
    if p.interactive > 1 ∨ p.priority > 7 ∨ p.budgetCycles = 0 ∨ p.budgetCycles > s.frameCycles then
      none
    else
      let policies := Function.update s.policies ⟨index.toNat, h⟩ p
      (reserveBudgets s.frameCycles policies (List.finRange 4) 0).map fun _ =>
        { s with policies := policies }
  else none

/-! ### Selecting a component -/

def runnable (store : ObjectMap) (component : Option Component) (now : UInt64) : Bool :=
  match component with
  | none => false
  | some c =>
    !c.exited && !componentIsFenced store c.rootId &&
      (c.mailbox.length ≠ 0 || (c.timerArmed && c.timerDeadline ≤ now))

def addSaturated (a b : UInt64) : UInt64 :=
  if b > 0xffffffffffffffff - a then 0xffffffffffffffff else a + b

/-- A new frame, when the time of the current one is over. -/
def openFrame (s : Scheduler) (now : UInt64) : Scheduler :=
  if now - s.frameStart ≥ s.frameTicks then
    { s with frameStart := now, consumed := 0, used := fun _ => 0 }
  else s

/-- The cycles set aside for interactive components. -/
def reservedCycles (s : Scheduler) : UInt64 :=
  (List.finRange 4).foldl (fun reserved i =>
    if (s.policies i).interactive ≠ 0 ∧ s.used i < (s.policies i).budgetCycles then
      reserved + ((s.policies i).budgetCycles - s.used i)
    else reserved) 0

/-- Whether the selection loop takes a component into account. -/
def admitted (s : Scheduler) (now : UInt64) (i : Fin 4) : Bool :=
  let p := s.policies i
  if !runnable s.domain.store (s.domain.components i) now ∨ s.used i ≥ p.budgetCycles ∨
      s.consumed ≥ s.frameCycles then false
  else if p.interactive = 0 ∧ (reservedCycles s ≥ s.frameCycles - s.consumed ∨
      p.budgetCycles - s.used i > s.frameCycles - s.consumed - reservedCycles s) then false
  else true

/-- Interactive components come first, then those of higher priority or that waited longer. -/
def candidateScore (s : Scheduler) (now : UInt64) (i : Fin 4) : UInt64 :=
  let p := s.policies i
  let age := if now ≥ s.lastRun i then now - s.lastRun i else 0
  (if p.interactive ≠ 0 then (1 : UInt64) <<< 63 else 0) + (p.priority * 8).toUInt64 +
    (if age > 64 then 64 else age)

/-- One round of the selection loop, on the selected component and its score. -/
def selectRound (s : Scheduler) (now : UInt64) (best : Option (Fin 4 × UInt64)) (i : Fin 4) :
    Option (Fin 4 × UInt64) :=
  if !admitted s now i then best
  else match best with
    | none => some (i, candidateScore s now i)
    | some (_, score) =>
      if candidateScore s now i > score then some (i, candidateScore s now i) else best

/-- The places of the components, from the cursor on. -/
def rotation (cursor : UInt32) : List (Fin 4) :=
  (List.range 4).map fun offset => Fin.ofNat 4 ((cursor + UInt32.ofNat offset) % 4).toNat

def selectComponent (s : Scheduler) (now : UInt64) : Option (Fin 4) :=
  ((rotation s.cursor).foldl (selectRound s now) none).map Prod.fst

/-! ### Steps -/

/-- One round of the loop that traces why components wait. -/
def noteWaiting (now : UInt64) (selected : Option (Fin 4)) (s : Scheduler) (i : Fin 4) :
    Scheduler :=
  match s.domain.components i with
  | none => s
  | some c =>
    if c.exited then s
    else
      let reason : UInt32 :=
        if selected = some i then 0
        else if !runnable s.domain.store (some c) now then (if c.timerArmed then 2 else 1) else 3
      let trace := if reason ≠ 0 ∧ reason ≠ s.waiting i then
        emitTrace s.trace c.rootId traceWait now reason.toUInt64 else s.trace
      { s with trace := trace, waiting := Function.update s.waiting i reason }

/-- What happens while a handler runs. -/
structure HandlerRun where
  /-- The instance hands out its memory, and there is room for a copy. -/
  prepared : Bool
  /-- The cycle counter before and after the handler. -/
  start : UInt64
  stop : UInt64
  /-- What the handler does through its syscalls, and whether it succeeds. -/
  effect : CapabilityDomain → SchedulerTrace → Bool × CapabilityDomain × SchedulerTrace
  /-- The fate of the batch that commits it. -/
  fate : CommitFate

def HandlerRun.elapsed (run : HandlerRun) : UInt64 := run.stop - run.start

/-- The domain with the component at a place changed. -/
def CapabilityDomain.modifyComponent (d : CapabilityDomain) (i : Fin 4)
    (f : Component → Component) : CapabilityDomain :=
  { d with components := Function.update d.components i ((d.components i).map f) }

/-- What is set in a component before its handler runs. -/
def Component.enter (c : Component) (now : UInt64) : Component :=
  { c with logicalTime := now, timerArmed := if c.mailbox.length = 0 then false else c.timerArmed }

def Component.account (c : Component) (elapsed : UInt64) : Component :=
  { c with metrics :=
    { c.metrics with
      invocations := addSaturated c.metrics.invocations 1
      cycles := addSaturated c.metrics.cycles elapsed } }

/-- What is left of a component whose handler failed: its old memory, cleared behind, and what the
handler cost. -/
def Component.fail (c : Component) (saved : List UInt8) (observed : ComponentMetrics) : Component :=
  { c with
    metrics := observed
    memory := if c.memory.length ≥ saved.length then
      saved ++ List.replicate (c.memory.length - saved.length) 0 else c.memory
    exited := true
    exitCode := janiEinval }

/-- The end of a handler that succeeded: its trace is staged and the transaction committed. -/
def commitHandler (d : CapabilityDomain) (i : Fin 4) (request : ObjectStorePutRequest)
    (fate : CommitFate) : Bool × CapabilityDomain :=
  let d := capabilityDomainStateChanged d i
  match capabilityDomainWrite d request with
  | none => (false, d)
  | some d =>
    let (result, d) := capabilityDomainCommit d fate
    (result = .committed, d)

/-- The handler of the component `c` at place `i`, inside a transaction that was just begun. -/
def runHandler (s : Scheduler) (i : Fin 4) (c : Component) (now : UInt64) (run : HandlerRun) :
    Int × Scheduler :=
  let timer := c.mailbox.length = 0
  let d := s.domain.setComponent i (c.enter now)
  let trace := schedulerTrace s.trace (c.enter now) traceRun (if timer then 1 else 2)
  let (ok, d, trace) := run.effect d trace
  let d := d.modifyComponent i fun c => c.account run.elapsed
  let s := { s with
    used := Function.update s.used i (addSaturated (s.used i) run.elapsed)
    consumed := addSaturated s.consumed run.elapsed
    lastRun := Function.update s.lastRun i now
    cursor := (UInt32.ofNat i.val + 1) % 4
    trace := trace }
  let observed := match d.components i with
    | none => c.metrics
    | some c => c.metrics
  let live := match d.components i with
    | none => false
    | some c => !c.exited
  let (ok, d) := if ok && live then commitHandler d i (traceRequest trace s.frameStart) run.fate
    else (false, d)
  if ok then (1, { s with domain := d })
  else
    let d := (capabilityDomainAbort d).modifyComponent i fun current =>
      current.fail c.memory observed
    let trace := match d.components i with
      | none => trace
      | some c => schedulerTrace trace c traceFail run.elapsed
    (-1, { s with domain := d, trace := trace })

/-- Whether a step is refused without any effect. -/
def stepRefused (s : Scheduler) (now : UInt64) : Bool :=
  s.running || s.domain.halted || now < s.frameStart

def schedulerStep (s : Scheduler) (now : UInt64) (run : HandlerRun) : Int × Scheduler :=
  if stepRefused s now then (-1, s)
  else
    let s := openFrame s now
    let selected := selectComponent s now
    let s := (List.finRange 4).foldl (noteWaiting now selected) s
    match selected with
    | none => (0, s)
    | some i => match s.domain.components i with
      | none => (-1, s)
      | some c =>
        if !run.prepared then (-1, s)
        else match capabilityDomainBegin s.domain with
          | none => (-1, s)
          | some d => runHandler { s with domain := d } i c now run

end Jani
