import Mathlib.Data.Fin.VecNotation
import Mathlib.Data.Fintype.Basic
import Jani.Lib.Bytes

/-!
# Recording and replaying syscalls (`record.c`, `record_validate.zig`)

A replay session records the handler starts and syscalls of one component in a log of
variable-length records: a 96-byte `ReplayRecord`, the input bytes and the output bytes.  In play
mode the same log answers the calls instead of the kernel.

The log buffer is modelled by its used part, so `used` is `bytes.length`.
-/

namespace Jani

def replayBytes : Nat := 65536

def replayIoMax : Nat := 8192

def replayRecordSize : Nat := 96

/-- The largest syscall number either side accepts. -/
def replayKindMax : UInt32 := 32

/-! ### Records -/

structure ReplayRecord where
  kind : UInt32
  reserved : UInt32
  sequence : UInt64
  arguments : Fin 8 → UInt64
  result : Int64
  inputSize : UInt32
  outputSize : UInt32
deriving DecidableEq

namespace ReplayRecord

def bytes (r : ReplayRecord) : List UInt8 :=
  le32 r.kind ++ (le32 r.reserved ++ (le64 r.sequence ++
  ((List.ofFn r.arguments).flatMap le64 ++ (le64 r.result.toUInt64 ++
  (le32 r.inputSize ++ le32 r.outputSize)))))

def ofBytes (l : List UInt8) : ReplayRecord where
  kind := u32At l 0
  reserved := u32At l 4
  sequence := u64At l 8
  arguments := fun i => u64At l (16 + 8 * i)
  result := (u64At l 80).toInt64
  inputSize := u32At l 88
  outputSize := u32At l 92

end ReplayRecord

/-! ### Sessions -/

inductive ReplayMode where
  | off
  | record
  | play
deriving DecidableEq, Repr

/-- The part of `struct replay_session` the recorder and the player use. -/
structure ReplaySession where
  mode : ReplayMode
  bytes : List UInt8
  cursor : Nat
  sequence : UInt64
  failed : Bool
deriving DecidableEq

/-- The session `replay_start` leaves behind. -/
def replayStart : ReplaySession := ⟨.record, [], 0, 0, false⟩

/-- The session as `replay_verify` rewinds it, to play the log from its start. -/
def ReplaySession.rewind (s : ReplaySession) : ReplaySession :=
  { s with mode := .play, cursor := 0, sequence := 0 }

/-- What one call shows to the recorder or the player before it runs. -/
@[ext]
structure ReplayCall where
  kind : UInt32
  arguments : Fin 8 → UInt64
  input : List UInt8
  outputSize : Nat
deriving DecidableEq

/-- The results of `replay_before`: `1` invokes the live syscall, `0` supplies the recorded output
and result, `-1` fails. -/
inductive ReplayDecision where
  | live
  | supply (output : List UInt8) (result : Int64)
  | fail
deriving DecidableEq

/-- The bytes `call` takes in the log. -/
def ReplayCall.needed (call : ReplayCall) : Nat :=
  replayRecordSize + call.input.length + call.outputSize

def replayBefore (s : ReplaySession) (call : ReplayCall) : ReplayDecision × ReplaySession :=
  let failure : ReplayDecision × ReplaySession := (.fail, { s with failed := true })
  if s.mode = .off then (.live, s)
  else if s.failed ∨ s.bytes.length > replayBytes ∨ call.kind > replayKindMax ∨
      call.input.length > replayIoMax ∨ call.outputSize > replayIoMax then failure
  else if s.mode = .record then
    if call.needed > replayBytes - s.bytes.length ∨ s.sequence = 0xFFFFFFFFFFFFFFFF then failure
    else (.live, s)
  else if s.cursor > s.bytes.length ∨ s.bytes.length - s.cursor < replayRecordSize then failure
  else
    let record := ReplayRecord.ofBytes (s.bytes.drop s.cursor)
    if call.needed > s.bytes.length - s.cursor ∨ record.kind ≠ call.kind ∨
        record.sequence ≠ s.sequence ∨ record.inputSize.toNat ≠ call.input.length ∨
        record.outputSize.toNat ≠ call.outputSize ∨ record.reserved ≠ 0 then failure
    else if ∃ i, call.arguments i ≠ record.arguments i then failure
    else
      let savedInput := s.bytes.drop (s.cursor + replayRecordSize)
      if call.input ≠ savedInput.take call.input.length then failure
      else
        (.supply ((savedInput.drop call.input.length).take call.outputSize) record.result,
          { s with cursor := s.cursor + call.needed, sequence := s.sequence + 1 })

/-- `replay_after`, with the output bytes and the result of the live call. -/
def replayAfter (s : ReplaySession) (kind : UInt32) (arguments : Fin 8 → UInt64)
    (input output : List UInt8) (result : Int64) : Bool × ReplaySession :=
  if s.mode ≠ .record then (true, s)
  else if s.failed ∨ s.bytes.length > replayBytes ∨ s.sequence = 0xFFFFFFFFFFFFFFFF ∨
      kind > replayKindMax ∨ input.length > replayIoMax ∨ output.length > replayIoMax ∨
      input.length + output.length + replayRecordSize > replayBytes - s.bytes.length then
    (false, { s with failed := true })
  else
    let record : ReplayRecord :=
      ⟨kind, 0, s.sequence, arguments, result, UInt32.ofNat input.length,
        UInt32.ofNat output.length⟩
    (true, { s with
      bytes := s.bytes ++ (record.bytes ++ (input ++ output)), sequence := s.sequence + 1 })

/-- The arguments of a handler start: the time, and whether the timer or a message started it. -/
def handlerArguments (now : UInt64) (timer : UInt32) : Fin 8 → UInt64 :=
  ![now, timer.toUInt64, 0, 0, 0, 0, 0, 0]

/-- `replay_handler` on the owner of the active session. -/
def replayHandler (s : ReplaySession) (now : UInt64) (timer : UInt32) : Bool × ReplaySession :=
  match replayBefore s ⟨0, handlerArguments now timer, [], 0⟩ with
  | (.fail, s') => (false, s')
  | (.supply _ _, s') => (true, s')
  | (.live, s') => replayAfter s' 0 (handlerArguments now timer) [] [] 0

/-! ### The validator -/

/-- The checks `replay_log_validate` makes on one record, at the front of `rest`. -/
def replayRecordValid (rest : List UInt8) (sequence : UInt64) : Bool :=
  decide (replayRecordSize ≤ rest.length) &&
  decide (u32At rest 0 ≤ replayKindMax) && u32At rest 4 = 0 && u64At rest 8 = sequence &&
  (sequence ≠ 0 || u32At rest 0 = 0) &&
  decide ((u32At rest 88).toNat ≤ replayIoMax) && decide ((u32At rest 92).toNat ≤ replayIoMax) &&
  (u32At rest 0 ≠ 0 ||
    (u32At rest 88 = 0 && u32At rest 92 = 0 && decide (u64At rest 24 ≤ 1) &&
      ((rest.drop 32).take 56).all (· = 0))) &&
  decide ((u32At rest 88).toNat + (u32At rest 92).toNat ≤ rest.length - replayRecordSize)

/-- The loop of `replay_log_validate` over what is left of the log; each round takes at least
one record header off it. -/
def replayRecordsValid : Nat → List UInt8 → UInt64 → Bool
  | 0, rest, _ => rest.isEmpty
  | n + 1, rest, sequence =>
    rest.isEmpty || (replayRecordValid rest sequence &&
      replayRecordsValid n
        (rest.drop (replayRecordSize + (u32At rest 88).toNat + (u32At rest 92).toNat))
        (sequence + 1))

def replayLogValidate (bytes : List UInt8) : Bool :=
  bytes.length ≠ 0 && decide (bytes.length ≤ replayBytes) &&
    replayRecordsValid bytes.length bytes 0

/-! ### Recorded runs -/

/-- What a component does while it is recorded: a handler start, by the timer or by a message, or
a syscall that took `input` and gave `output` and `result`.  The syscalls are numbered from `1`
on. -/
inductive ReplayEvent where
  | handler (now : UInt64) (timer : Bool)
  | syscall (kind : UInt32) (isSyscall : kind ≠ 0) (arguments : Fin 8 → UInt64)
      (input output : List UInt8) (result : Int64)

namespace ReplayEvent

/-- The call the event makes. -/
def call : ReplayEvent → ReplayCall
  | handler now timer => ⟨0, handlerArguments now timer.toUInt32, [], 0⟩
  | syscall kind _ arguments input output _ => ⟨kind, arguments, input, output.length⟩

def output : ReplayEvent → List UInt8
  | handler _ _ => []
  | syscall _ _ _ _ output _ => output

def result : ReplayEvent → Int64
  | handler _ _ => 0
  | syscall _ _ _ _ _ result => result

end ReplayEvent

/-- Record one event; `none` if the recorder fails.  A syscall asks `replay_before`, runs, and
reports to `replay_after` (`capture_before`, `capture_after`). -/
def recordEvent (s : ReplaySession) : ReplayEvent → Option ReplaySession
  | .handler now timer =>
    match replayHandler s now timer.toUInt32 with
    | (true, s') => some s'
    | (false, _) => none
  | .syscall kind _ arguments input output result =>
    match replayBefore s ⟨kind, arguments, input, output.length⟩ with
    | (.live, s') =>
      match replayAfter s' kind arguments input output result with
      | (true, s'') => some s''
      | (false, _) => none
    | _ => none

def recordEvents (s : ReplaySession) (events : List ReplayEvent) : Option ReplaySession :=
  events.foldlM recordEvent s

/-- The decisions of `replay_before` on a sequence of calls, and the session after them. -/
def replayCalls : ReplaySession → List ReplayCall → List ReplayDecision × ReplaySession
  | s, [] => ([], s)
  | s, call :: calls =>
    let (decision, s') := replayBefore s call
    let (decisions, s'') := replayCalls s' calls
    (decision :: decisions, s'')

end Jani
