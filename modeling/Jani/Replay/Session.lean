import Jani.Replay.Record
import Jani.Wasm.Component

/-!
# The life of a replay session (`record.c`)

A session is begun by `replay_start`, which keeps the state of the component at that time, or by
`replay_load`, from what `replay_save` stored.  While it is active it records; `replay_verify` plays
the log to a fresh copy of the component and goes back to recording.

The copy is arbitrary code, so what it does in each of the handlers that `replay_verify` starts is
an input of it.
-/

namespace Jani

/-- `struct replay_session`: the log, the state it starts from, the state a loaded log is to end in,
and the module. -/
structure ReplayRecording where
  log : ReplaySession
  initial : List UInt8
  expected : Option (List UInt8)
  moduleId : ObjectId
deriving DecidableEq

/-! ### Starting -/

/-- `replay_start`; `idle` says that no session is active, `domainActive` that the domain of the
component is in a transaction. -/
def replayStartFor (owner : Component) (idle domainActive : Bool) : Option ReplayRecording :=
  if owner.rootId.high ≠ componentSequenceIdHigh ∨ !idle ∨ domainActive then none
  else (instanceStateSerialize owner).map fun initial =>
    ⟨replayStart, initial, none, owner.moduleId⟩

/-! ### Recording -/

/-- The session after a handler start or a syscall of its owner. -/
def replayRecordEvent (s : ReplaySession) : ReplayEvent → ReplaySession
  | .handler now timer => (replayHandler s now timer.toUInt32).2
  | .syscall kind _ arguments input output result =>
    match replayBefore s ⟨kind, arguments, input, output.length⟩ with
    | (.live, s) => (replayAfter s kind arguments input output result).2
    | (_, s) => s

/-! ### Verifying -/

/-- What the copy does in one handler: its syscalls, and whether the handler returns. -/
structure HandlerPlay where
  calls : List ReplayCall
  ok : Bool
deriving DecidableEq

/-- What the copy does in each handler, and its memory in the end. -/
structure VerifyPlay where
  handlers : Nat → HandlerPlay
  memory : List UInt8

/-- The loop of `replay_verify`, from handler number `k` on.  Each round takes a record off the log
or stops. -/
def playHandlers (handlers : Nat → HandlerPlay) : Nat → Nat → ReplaySession → ReplaySession
  | 0, _, s => s
  | fuel + 1, k, s =>
    if s.cursor < s.bytes.length then
      let record := ReplayRecord.ofBytes (s.bytes.drop s.cursor)
      if record.kind ≠ 0 ∨ record.arguments 1 > 1 then { s with failed := true }
      else match replayHandler s (record.arguments 0) (record.arguments 1).toUInt32 with
        | (false, s) => s
        | (true, s) =>
          let s := (replayCalls s (handlers k).calls).2
          if !(handlers k).ok then { s with failed := true }
          else playHandlers handlers fuel (k + 1) s
    else s

/-- Whether `replay_verify` gets as far as playing the log. -/
def verifyPlays (r : ReplayRecording) (owner : Component) (store : ObjectMap)
    (readable : ObjectId → Bool) (runtime : WasmRuntime) : Bool :=
  r.log.mode = .record && !r.log.failed && !r.log.bytes.isEmpty && replayLogValidate r.log.bytes &&
    match store.get readable r.moduleId with
    | none => false
    | some module => module.typeId = componentTypeModule &&
      match runtime.create module.payload with
      | none => false
      | some memory => instanceStateBytesValidate r.initial &&
        match runtime.grow memory.length (savedMemorySize r.initial) with
        | none => false
        | some size => (instanceStateDeserialize owner size r.initial).isSome

/-- The memory the copy is to end with. -/
def expectedMemory (r : ReplayRecording) (owner : Component) : Option (List UInt8) :=
  match r.expected with
  | none => some owner.memory
  | some bytes =>
    if instanceStateBytesValidate bytes then
      let header := instanceStateHeaderLayout.read bytes
      some ((bytes.drop (64 + header.mailboxUsed.toNat)).take header.memorySize.toNat)
    else none

def replayVerify (r : ReplayRecording) (owner : Component) (store : ObjectMap)
    (readable : ObjectId → Bool) (runtime : WasmRuntime) (play : VerifyPlay) :
    Bool × ReplayRecording :=
  if !verifyPlays r owner store readable runtime then (false, r)
  else
    let s := playHandlers play.handlers r.log.bytes.length 0 r.log.rewind
    let ok := !s.failed && s.cursor = s.bytes.length &&
      expectedMemory r owner = some play.memory
    (ok, { r with log := { s with mode := .record } })

/-! ### Saving and loading -/

def replayObjectId (i : UInt64) : ObjectId := ⟨7, i⟩

def replayTypeState : ObjectId := ⟨0, 10⟩

def replayTypeLog : ObjectId := ⟨0, 11⟩

/-- A stored object of a session of the given component. -/
def replayObject (owner : Component) (store : ObjectMap) (readable : ObjectId → Bool) (i : UInt64)
    (typeId : ObjectId) : Option (List UInt8) :=
  match store.get readable (replayObjectId i) with
  | none => none
  | some object =>
    if object.typeId ≠ typeId ∨ object.creatorId ≠ owner.rootId then none else some object.payload

def replayLoad (owner : Component) (store : ObjectMap) (readable : ObjectId → Bool) (idle : Bool) :
    Option ReplayRecording :=
  if !idle then none
  else match replayObject owner store readable 0 replayTypeState,
      replayObject owner store readable 1 replayTypeLog,
      replayObject owner store readable 2 componentTypeModule,
      replayObject owner store readable 3 replayTypeState with
    | some initial, some log, some _, some final =>
      if !instanceStateBytesValidate initial ∨ !replayLogValidate log ∨
          !instanceStateBytesValidate final then none
      else some ⟨⟨.record, log, 0, 0, false⟩, initial, some final, replayObjectId 2⟩
    | _, _, _, _ => none

/-! ### Sessions over time -/

/-- What happens to a session: its owner starts a handler or makes a syscall, it is verified or
saved, or the scheduler gives it up because a handler failed. -/
inductive ReplayStep where
  | record (e : ReplayEvent)
  | verify (owner : Component) (store : ObjectMap) (readable : ObjectId → Bool)
      (runtime : WasmRuntime) (play : VerifyPlay)
  | save
  | fail

/-- The session after a step.  `replay_save` reads the session and changes the store only. -/
def ReplayStep.apply (r : ReplayRecording) : ReplayStep → ReplayRecording
  | .record e => { r with log := replayRecordEvent r.log e }
  | .verify owner store readable runtime play =>
    (replayVerify r owner store readable runtime play).2
  | .save => r
  | .fail => { r with log := { r.log with failed := true } }

def replayRun (r : ReplayRecording) (steps : List ReplayStep) : ReplayRecording :=
  steps.foldl ReplayStep.apply r

end Jani
