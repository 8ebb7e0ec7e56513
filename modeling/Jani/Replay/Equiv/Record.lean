import Jani.Obj.Equiv.DiskFormat
import Jani.Replay.Record

/-!
# What was recorded is what is replayed

`logFrom sequence events` is the log a recording of `events` leaves (`recordEvents_some`).  The
validator accepts it (`replayLogValidate_logFrom`), and the player, standing at the start of the
log of an event, answers the call of that event and fails on every other one
(`replayBefore_same`, `replayBefore_differs`).
-/

namespace Jani

/-! ### One record -/

@[simp]
theorem ReplayRecord.length_bytes (r : ReplayRecord) : r.bytes.length = replayRecordSize := by
  simp [ReplayRecord.bytes, replayRecordSize]

theorem u64At_arguments (arguments : Fin 8 → UInt64) (r : List UInt8) (i : Fin 8) :
    u64At ((List.ofFn arguments).flatMap le64 ++ r) (8 * i) = arguments i := by
  have hi : i.val < (List.ofFn arguments).length := by
    rw [List.length_ofFn]
    exact i.isLt
  obtain ⟨r', hr'⟩ := drop_flatMap le64 length_le64 r (List.ofFn arguments) i.val hi
  rw [u64At, hr', get64_le64_append, List.get_ofFn]
  rfl

theorem ReplayRecord.ofBytes_bytes_append (rec : ReplayRecord) (r : List UInt8) :
    ReplayRecord.ofBytes (rec.bytes ++ r) = rec := by
  obtain ⟨kind, reserved, sequence, arguments, result, inputSize, outputSize⟩ := rec
  have hargs : ∀ tail : List UInt8, (fun i : Fin 8 =>
      u64At (le32 kind ++ (le32 reserved ++ (le64 sequence ++
        ((List.ofFn arguments).flatMap le64 ++ tail)))) (16 + 8 * i)) = arguments := by
    intro tail
    funext i
    rw [show 16 + 8 * i.val = 8 * i.val + 8 + 4 + 4 by omega, u64At_le32_append_add,
      u64At_le32_append_add, u64At_le64_append_add, u64At_arguments]
  simp only [ReplayRecord.ofBytes, ReplayRecord.bytes, List.append_assoc, hargs]
  simp

/-! ### The log of a recording -/

variable {e : ReplayEvent}

namespace ReplayEvent

/-- The record written for the event as number `sequence` of the log. -/
def record (e : ReplayEvent) (sequence : UInt64) : ReplayRecord :=
  ⟨e.call.kind, 0, sequence, e.call.arguments, e.result, UInt32.ofNat e.call.input.length,
    UInt32.ofNat e.output.length⟩

/-- What the event leaves in the log. -/
def logBytes (e : ReplayEvent) (sequence : UInt64) : List UInt8 :=
  (e.record sequence).bytes ++ (e.call.input ++ e.output)

/-- The bounds the recorder puts on one event. -/
structure Fits (e : ReplayEvent) : Prop where
  kind : e.call.kind ≤ replayKindMax
  input : e.call.input.length ≤ replayIoMax
  output : e.output.length ≤ replayIoMax

@[simp]
theorem call_outputSize (e : ReplayEvent) : e.call.outputSize = e.output.length := by
  cases e <;> rfl

theorem length_logBytes (e : ReplayEvent) (sequence : UInt64) :
    (e.logBytes sequence).length = e.call.needed := by
  rw [logBytes, ReplayCall.needed, List.length_append, List.length_append,
    ReplayRecord.length_bytes, call_outputSize, Nat.add_assoc]

theorem Fits.toNat_input (h : e.Fits) :
    (UInt32.ofNat e.call.input.length).toNat = e.call.input.length :=
  UInt32.toNat_ofNat_of_lt' (lt_of_le_of_lt h.input (by decide))

theorem Fits.toNat_output (h : e.Fits) : (UInt32.ofNat e.output.length).toNat = e.output.length :=
  UInt32.toNat_ofNat_of_lt' (lt_of_le_of_lt h.output (by decide))

end ReplayEvent

/-- The log of `events`, numbered from `sequence` on. -/
def logFrom : UInt64 → List ReplayEvent → List UInt8
  | _, [] => []
  | sequence, e :: events => e.logBytes sequence ++ logFrom (sequence + 1) events

theorem length_logFrom_ge : ∀ (sequence : UInt64) (events : List ReplayEvent),
    replayRecordSize * events.length ≤ (logFrom sequence events).length
  | _, [] => Nat.le_refl 0
  | sequence, e :: events => by
    have ih := length_logFrom_ge (sequence + 1) events
    rw [logFrom, List.length_append, e.length_logBytes, List.length_cons, ReplayCall.needed]
    rw [Nat.mul_succ]
    omega

variable {s : ReplaySession} {events : List ReplayEvent}

theorem replayBefore_record (hmode : s.mode = .record) (call : ReplayCall) :
    replayBefore s call = (.live, s) ∨
      replayBefore s call = (.fail, { s with failed := true }) := by
  have hoff : s.mode ≠ .off := by rw [hmode]; decide
  dsimp only [replayBefore]
  rw [if_neg hoff, if_pos hmode]
  split_ifs
  · exact .inr rfl
  · exact .inr rfl
  · exact .inl rfl

theorem replayAfter_true {s' : ReplaySession} (hmode : s.mode = .record)
    (h : replayAfter s e.call.kind e.call.arguments e.call.input e.output e.result = (true, s')) :
    s.failed = false ∧ e.Fits ∧ s.bytes.length + e.call.needed ≤ replayBytes ∧
      s' = { s with bytes := s.bytes ++ e.logBytes s.sequence, sequence := s.sequence + 1 } := by
  unfold replayAfter at h
  rw [if_neg (not_not.mpr hmode)] at h
  split_ifs at h with hbad
  · exact absurd (Prod.mk.inj h).1 (by decide)
  simp only [not_or, Bool.not_eq_true, not_lt, gt_iff_lt] at hbad
  obtain ⟨hfailed, hlen, -, hkind, hin, hout, hroom⟩ := hbad
  refine ⟨hfailed, ⟨UInt32.not_lt.mp hkind, hin, hout⟩, ?_, (Prod.mk.inj h).2.symm⟩
  rw [ReplayCall.needed, e.call_outputSize]
  omega

/-- **One recorded event**: the recorder had room, and appends the log of the event. -/
theorem recordEvent_some {s' : ReplaySession} (hmode : s.mode = .record)
    (h : recordEvent s e = some s') :
    s.failed = false ∧ e.Fits ∧ s.bytes.length + e.call.needed ≤ replayBytes ∧
      s' = { s with bytes := s.bytes ++ e.logBytes s.sequence, sequence := s.sequence + 1 } := by
  cases e with
  | handler now timer =>
    simp only [recordEvent, replayHandler] at h
    rcases replayBefore_record hmode ⟨0, handlerArguments now timer.toUInt32, [], 0⟩ with hb | hb
    · rw [hb] at h
      dsimp only at h
      split at h
      · rename_i s'' hafter
        cases h
        exact replayAfter_true (e := .handler now timer) hmode hafter
      · cases h
    · rw [hb] at h
      cases h
  | syscall kind isSyscall arguments input output result =>
    simp only [recordEvent] at h
    rcases replayBefore_record hmode ⟨kind, arguments, input, output.length⟩ with hb | hb
    · rw [hb] at h
      dsimp only at h
      split at h
      · rename_i s'' hafter
        cases h
        exact replayAfter_true (e := .syscall kind isSyscall arguments input output result) hmode
          hafter
      · cases h
    · rw [hb] at h
      cases h

/-- **A recording**: every event fits, and the log is the log of the events. -/
theorem recordEvents_some {s' : ReplaySession} (hmode : s.mode = .record)
    (hlen : s.bytes.length ≤ replayBytes) (h : recordEvents s events = some s') :
    (∀ e ∈ events, e.Fits) ∧ s'.bytes = s.bytes ++ logFrom s.sequence events ∧
      s'.failed = s.failed ∧ s'.bytes.length ≤ replayBytes := by
  induction events generalizing s with
  | nil =>
    cases h
    exact ⟨fun e he => absurd he List.not_mem_nil, (List.append_nil _).symm, rfl, hlen⟩
  | cons e events ih =>
    rw [recordEvents, List.foldlM_cons] at h
    obtain ⟨s1, h1, hrest⟩ := Option.bind_eq_some_iff.mp h
    obtain ⟨-, hfits, hroom, rfl⟩ := recordEvent_some hmode h1
    have hlen1 : (s.bytes ++ e.logBytes s.sequence).length ≤ replayBytes := by
      rw [List.length_append, e.length_logBytes]
      exact hroom
    obtain ⟨hall, hbytes, hfailed, hlen'⟩ :=
      @ih { s with bytes := s.bytes ++ e.logBytes s.sequence, sequence := s.sequence + 1 }
        hmode hlen1 hrest
    refine ⟨List.forall_mem_cons.mpr ⟨hfits, hall⟩, ?_, hfailed, hlen'⟩
    rw [hbytes, logFrom, List.append_assoc]

/-! ### The validator -/

theorem ReplayEvent.logBytes_fields (e : ReplayEvent) (sequence : UInt64) (r : List UInt8) :
    ReplayRecord.ofBytes (e.logBytes sequence ++ r) = e.record sequence := by
  rw [ReplayEvent.logBytes, List.append_assoc, ReplayRecord.ofBytes_bytes_append]

theorem handler_tail_zero (now : UInt64) (timer : Bool) (sequence : UInt64) (r : List UInt8) :
    (((((ReplayEvent.handler now timer).logBytes sequence ++ r).drop 32).take 56).all (· = 0)) =
      true := by
  have hsplit : (ReplayEvent.handler now timer).logBytes sequence =
      (le32 0 ++ le32 0 ++ le64 sequence ++ le64 now ++ le64 timer.toUInt32.toUInt64) ++
        List.replicate 64 0 := by
    have hargs : List.ofFn (handlerArguments now timer.toUInt32) =
        [now, timer.toUInt32.toUInt64, 0, 0, 0, 0, 0, 0] := rfl
    have hzeros : le64 0 ++ (le64 0 ++ (le64 0 ++ (le64 0 ++ (le64 0 ++ (le64 0 ++
        (le64 (0 : Int64).toUInt64 ++ (le32 (UInt32.ofNat 0) ++ le32 (UInt32.ofNat 0)))))))) =
        List.replicate 64 0 := by decide
    simp only [ReplayEvent.logBytes, ReplayEvent.record, ReplayEvent.call, ReplayEvent.result,
      ReplayEvent.output, ReplayRecord.bytes, hargs, List.flatMap_cons, List.flatMap_nil,
      List.append_assoc, List.append_nil, List.length_nil, hzeros]
  rw [hsplit, List.append_assoc, List.drop_left' (by simp), List.take_append]
  simp

/-- **The validator accepts a recorded event**, in front of whatever follows it in the log. -/
theorem replayRecordValid_logBytes {sequence : UInt64} (hfits : e.Fits)
    (hfirst : sequence = 0 → e.call.kind = 0) (r : List UInt8) :
    replayRecordValid (e.logBytes sequence ++ r) sequence = true := by
  have hrec := e.logBytes_fields sequence r
  simp only [ReplayRecord.ofBytes, ReplayEvent.record, ReplayRecord.mk.injEq] at hrec
  obtain ⟨hk, hres, hseq, hargs, -, hinput, houtput⟩ := hrec
  have hin : (u32At (e.logBytes sequence ++ r) 88).toNat = e.call.input.length := by
    rw [hinput, hfits.toNat_input]
  have hout : (u32At (e.logBytes sequence ++ r) 92).toNat = e.output.length := by
    rw [houtput, hfits.toNat_output]
  have hlen : (e.logBytes sequence ++ r).length =
      replayRecordSize + e.call.input.length + e.output.length + r.length := by
    rw [List.length_append, e.length_logBytes, ReplayCall.needed, e.call_outputSize]
  have hsize : replayRecordSize ≤ (e.logBytes sequence ++ r).length := by omega
  have hroom : e.call.input.length + e.output.length ≤
      (e.logBytes sequence ++ r).length - replayRecordSize := by omega
  have hzero : sequence ≠ 0 ∨ e.call.kind = 0 := by
    by_cases h0 : sequence = 0
    · exact .inr (hfirst h0)
    · exact .inl h0
  have hshape : u32At (e.logBytes sequence ++ r) 0 ≠ 0 ∨
      (u32At (e.logBytes sequence ++ r) 88 = 0 ∧ u32At (e.logBytes sequence ++ r) 92 = 0 ∧
        u64At (e.logBytes sequence ++ r) 24 ≤ 1 ∧
        (((e.logBytes sequence ++ r).drop 32).take 56).all (· = 0) = true) := by
    cases e with
    | handler now timer =>
      refine .inr ⟨hinput, houtput, ?_, handler_tail_zero now timer sequence r⟩
      have htimer : u64At ((ReplayEvent.handler now timer).logBytes sequence ++ r) 24 =
          timer.toUInt32.toUInt64 := congrFun hargs 1
      rw [htimer]
      cases timer <;> decide
    | syscall kind isSyscall arguments input output result =>
      rw [hk]
      exact .inl isSyscall
  simp only [replayRecordValid, hres, hseq, hin, hout, hsize, hroom, hfits.input, hfits.output,
    decide_true, Bool.and_true, Bool.true_and, Bool.and_eq_true, Bool.or_eq_true,
    decide_eq_true_eq]
  rw [← hk] at hzero
  exact ⟨⟨hk ▸ hfits.kind, hzero⟩, by simpa only [and_assoc] using hshape⟩

theorem drop_logFrom_cons (e : ReplayEvent) (sequence : UInt64) (events : List ReplayEvent) :
    (logFrom sequence (e :: events)).drop e.call.needed = logFrom (sequence + 1) events :=
  List.drop_left' (e.length_logBytes sequence)

theorem toNat_succ_of_room {x : UInt64} {n : Nat} (h : x.toNat + (n + 1) < 2 ^ 64) :
    x + 1 ≠ 0 ∧ (x + 1).toNat = x.toNat + 1 := by
  have hadd : (x + 1).toNat = x.toNat + 1 := by
    rw [UInt64.toNat_add, UInt64.toNat_one, Nat.mod_eq_of_lt (by omega)]
  refine ⟨fun h0 => ?_, hadd⟩
  rw [h0, UInt64.toNat_zero] at hadd
  omega

/-- **The loop of the validator accepts a recorded log**; the fuel is at least its length. -/
theorem replayRecordsValid_logFrom : ∀ {events : List ReplayEvent} {sequence : UInt64} {n : Nat},
    (∀ e ∈ events, e.Fits) → (sequence = 0 → ∀ e ∈ events.head?, e.call.kind = 0) →
    sequence.toNat + events.length < 2 ^ 64 → (logFrom sequence events).length ≤ n →
    replayRecordsValid n (logFrom sequence events) sequence
  | [], _, n, _, _, _, _ => by cases n <;> rfl
  | e :: events, sequence, 0, _, _, _, hlen => by
    have hge := length_logFrom_ge sequence (e :: events)
    rw [List.length_cons, Nat.mul_succ, replayRecordSize] at hge
    omega
  | e :: events, sequence, n + 1, hfits, hfirst, hseq, hlen => by
    obtain ⟨he, hrest⟩ := List.forall_mem_cons.mp hfits
    obtain ⟨hne, hsucc⟩ := toNat_succ_of_room (n := events.length) hseq
    have hvalid := replayRecordValid_logBytes he (fun h0 => hfirst h0 e rfl)
      (logFrom (sequence + 1) events)
    have hrec := e.logBytes_fields sequence (logFrom (sequence + 1) events)
    simp only [ReplayRecord.ofBytes, ReplayEvent.record, ReplayRecord.mk.injEq] at hrec
    obtain ⟨-, -, -, -, -, hinput, houtput⟩ := hrec
    have hskip : replayRecordSize +
        (u32At (logFrom sequence (e :: events)) 88).toNat +
        (u32At (logFrom sequence (e :: events)) 92).toNat = e.call.needed := by
      rw [logFrom, hinput, houtput, he.toNat_input, he.toNat_output, ReplayCall.needed,
        e.call_outputSize]
    have hlen' : (logFrom (sequence + 1) events).length ≤ n := by
      rw [logFrom, List.length_append, e.length_logBytes, ReplayCall.needed, replayRecordSize]
        at hlen
      omega
    rw [replayRecordsValid, hskip, drop_logFrom_cons, logFrom, hvalid, Bool.true_and,
      replayRecordsValid_logFrom hrest (fun h0 => absurd h0 hne) (by
        rw [hsucc]
        simp only [List.length_cons] at hseq
        omega) hlen', Bool.or_true]

theorem replayLogValidate_logFrom (hne : events ≠ []) (hfits : ∀ e ∈ events, e.Fits)
    (hfirst : ∀ e ∈ events.head?, e.call.kind = 0)
    (hlen : (logFrom 0 events).length ≤ replayBytes) :
    replayLogValidate (logFrom 0 events) = true := by
  have hge := length_logFrom_ge 0 events
  have hpos := List.length_pos_iff.mpr hne
  rw [replayRecordSize] at hge
  have hlen0 : (logFrom 0 events).length ≠ 0 := by omega
  have hcount : (0 : UInt64).toNat + events.length < 2 ^ 64 := by
    rw [UInt64.toNat_zero]
    rw [replayBytes] at hlen
    omega
  rw [replayLogValidate, replayRecordsValid_logFrom hfits (fun _ => hfirst) hcount le_rfl]
  simp [hlen0, hlen]

/-! ### The player -/

/-- The player stands at the start of the log of `events`, in a log that ends with them. -/
structure PlaysAt (s : ReplaySession) (events : List ReplayEvent) : Prop where
  mode : s.mode = .play
  failed : s.failed = false
  length_le : s.bytes.length ≤ replayBytes
  cursor_le : s.cursor ≤ s.bytes.length
  rest : s.bytes.drop s.cursor = logFrom s.sequence events
  fits : ∀ e ∈ events, e.Fits

theorem replayBefore_failed (hmode : s.mode = .play) (hfailed : s.failed = true)
    (call : ReplayCall) : replayBefore s call = (.fail, s) := by
  have hoff : s.mode ≠ .off := by rw [hmode]; decide
  dsimp only [replayBefore]
  rw [if_neg hoff, if_pos (.inl hfailed)]
  cases s
  cases hfailed
  rfl

theorem replayCalls_failed {s : ReplaySession} (hmode : s.mode = .play)
    (hfailed : s.failed = true) : ∀ calls : List ReplayCall,
      replayCalls s calls = (List.replicate calls.length .fail, s)
  | [] => rfl
  | call :: calls => by
    rw [replayCalls, replayBefore_failed hmode hfailed]
    dsimp only
    rw [replayCalls_failed hmode hfailed calls]
    rfl

theorem replayBefore_past_end (h : PlaysAt s []) (call : ReplayCall) :
    replayBefore s call = (.fail, { s with failed := true }) := by
  have hoff : s.mode ≠ .off := by rw [h.mode]; decide
  have hrec : s.mode ≠ .record := by rw [h.mode]; decide
  have hend : s.bytes.length - s.cursor < replayRecordSize := by
    have hlen := congrArg List.length h.rest
    rw [List.length_drop, logFrom, List.length_nil] at hlen
    rw [hlen]
    decide
  dsimp only [replayBefore]
  rw [if_neg hoff, if_neg hrec]
  split_ifs with hbounds hpos
  · rfl
  · rfl
  all_goals exact absurd (.inr hend) hpos

section

variable (h : PlaysAt s (e :: events))

include h

theorem PlaysAt.record : ReplayRecord.ofBytes (s.bytes.drop s.cursor) = e.record s.sequence := by
  rw [h.rest, logFrom, e.logBytes_fields]

theorem PlaysAt.savedInput : s.bytes.drop (s.cursor + replayRecordSize) =
      e.call.input ++ (e.output ++ logFrom (s.sequence + 1) events) := by
  rw [← List.drop_drop, h.rest, logFrom, ReplayEvent.logBytes, List.append_assoc,
    List.drop_left' (ReplayRecord.length_bytes _), List.append_assoc]

theorem PlaysAt.room : e.call.needed ≤ s.bytes.length - s.cursor := by
  have hlen := congrArg List.length h.rest
  rw [List.length_drop, logFrom, List.length_append, e.length_logBytes] at hlen
  omega

theorem PlaysAt.bounds :
    ¬(s.failed = true ∨ s.bytes.length > replayBytes ∨ e.call.kind > replayKindMax ∨
      e.call.input.length > replayIoMax ∨ e.call.outputSize > replayIoMax) := by
  have hfits := h.fits e List.mem_cons_self
  have hlen := h.length_le
  have hin := hfits.input
  have hout := hfits.output
  rw [e.call_outputSize]
  rintro (hf | hb | hk | hi | ho)
  · rw [h.failed] at hf
    cases hf
  · omega
  · exact UInt32.not_lt.mpr hfits.kind hk
  · omega
  · omega

end

/-- **The player on one call**: the recorded call is answered with the recorded output and
result, any other call fails. -/
theorem replayBefore_play (h : PlaysAt s (e :: events)) (call : ReplayCall) :
    replayBefore s call = if call = e.call then
      (.supply e.output e.result,
        { s with cursor := s.cursor + e.call.needed, sequence := s.sequence + 1 })
      else (.fail, { s with failed := true }) := by
  have hfits := h.fits e List.mem_cons_self
  have hoff : s.mode ≠ .off := by rw [h.mode]; decide
  have hrec : s.mode ≠ .record := by rw [h.mode]; decide
  have hroom := h.room
  have hneeded : replayRecordSize ≤ e.call.needed := by rw [ReplayCall.needed]; omega
  dsimp only [replayBefore]
  rw [if_neg hoff, if_neg hrec, h.record, h.savedInput]
  have hin : (e.record s.sequence).inputSize.toNat = e.call.input.length := hfits.toNat_input
  have hout : (e.record s.sequence).outputSize.toNat = e.output.length := hfits.toNat_output
  by_cases hcall : call = e.call
  · subst hcall
    rw [if_pos rfl, if_neg h.bounds]
    split_ifs with hpos hmatch hargs hinput
    · have hcursor := h.cursor_le
      omega
    · rw [hin, hout, e.call_outputSize] at hmatch
      rcases hmatch with hm | hm | hm | hm | hm | hm
      · omega
      all_goals exact absurd rfl hm
    · obtain ⟨_, hi⟩ := hargs
      exact absurd rfl hi
    · exact absurd List.take_left.symm hinput
    · rw [List.drop_left, e.call_outputSize, List.take_left]
      rfl
  · rw [if_neg hcall]
    split_ifs with hb hpos hmatch hargs hinput
    · rfl
    · rfl
    · rfl
    · rfl
    · rfl
    · -- every field of the call agrees with the record
      simp only [not_or, not_not] at hmatch
      obtain ⟨-, hkind, -, hsameIn, hsameOut, -⟩ := hmatch
      rw [hin] at hsameIn
      rw [hout] at hsameOut
      refine absurd ?_ hcall
      have harguments : call.arguments = e.call.arguments := by
        funext i
        by_contra hi
        exact hargs ⟨i, hi⟩
      have hbytes : call.input = e.call.input := by
        rw [not_not.mp hinput, ← hsameIn, List.take_left]
      have hsize : call.outputSize = e.call.outputSize := by rw [← hsameOut, e.call_outputSize]
      exact ReplayCall.ext hkind.symm harguments hbytes hsize

theorem PlaysAt.next (h : PlaysAt s (e :: events)) :
    PlaysAt { s with cursor := s.cursor + e.call.needed, sequence := s.sequence + 1 } events where
  mode := h.mode
  failed := h.failed
  length_le := h.length_le
  cursor_le := by
    have hroom := h.room
    have hcursor := h.cursor_le
    dsimp only
    omega
  rest := by
    dsimp only
    rw [← List.drop_drop, h.rest, drop_logFrom_cons]
  fits := fun e' he' => h.fits e' (.tail _ he')

/-- **A call other than the next recorded one fails**, or any call at the end of the log. -/
theorem replayBefore_differs (h : PlaysAt s events) {call : ReplayCall}
    (hne : events.head?.map ReplayEvent.call ≠ some call) :
    replayBefore s call = (.fail, { s with failed := true }) := by
  cases events with
  | nil => exact replayBefore_past_end h call
  | cons e events =>
    rw [replayBefore_play h, if_neg]
    rintro rfl
    exact hne rfl

/-- What the player answers to the call of an event. -/
def ReplayEvent.answer (e : ReplayEvent) : ReplayDecision := .supply e.output e.result

/-- **The recorded calls are answered in order**, and the player then stands after them. -/
theorem replayCalls_same {later : List ReplayEvent} : ∀ {events : List ReplayEvent}
    {s : ReplaySession}, PlaysAt s (events ++ later) → ∀ calls : List ReplayCall,
      ∃ s', PlaysAt s' later ∧ s'.bytes = s.bytes ∧
        replayCalls s (events.map ReplayEvent.call ++ calls) =
          (events.map ReplayEvent.answer ++ (replayCalls s' calls).1, (replayCalls s' calls).2)
  | [], s, h, calls => ⟨s, h, rfl, rfl⟩
  | e :: events, s, h, calls => by
    obtain ⟨s', hs', hbytes, hcalls⟩ := replayCalls_same h.next calls
    refine ⟨s', hs', hbytes, ?_⟩
    rw [List.map_cons, List.cons_append, replayCalls, replayBefore_play h, if_pos rfl]
    dsimp only
    rw [hcalls]
    rfl

theorem recordEvents_plays (h : recordEvents replayStart events = some s) :
    PlaysAt s.rewind events := by
  obtain ⟨hfits, hbytes, hfailed, hlen⟩ := recordEvents_some rfl (by decide) h
  exact ⟨rfl, hfailed, hlen, Nat.zero_le _, hbytes, hfits⟩

theorem PlaysAt.cursor_eq (h : PlaysAt s []) : s.cursor = s.bytes.length := by
  have hlen := congrArg List.length h.rest
  have hle := h.cursor_le
  rw [List.length_drop, logFrom, List.length_nil] at hlen
  omega

/-- **Record and replay agree.**  Take a recording that starts with a handler and that the
recorder accepted.  Its log passes the validator; the same calls, played from its start, get the
recorded outputs and results and reach the end of the log; and from the first call that differs
from the recorded one on, every call fails. -/
theorem record_replay (now : UInt64) (timer : Bool) (rest events : List ReplayEvent)
    (s : ReplaySession) (hevents : events = .handler now timer :: rest)
    (h : recordEvents replayStart events = some s) : replayLogValidate s.bytes = true ∧
    (∃ s', replayCalls s.rewind (events.map ReplayEvent.call) =
        (events.map ReplayEvent.answer, s') ∧ s'.failed = false ∧ s'.cursor = s.bytes.length) ∧
    ∀ (calls : List ReplayCall) (n : Nat), n < calls.length →
      calls.take n = (events.map ReplayEvent.call).take n →
      calls[n]? ≠ (events.map ReplayEvent.call)[n]? →
      (replayCalls s.rewind calls).1 =
        (events.take n).map ReplayEvent.answer ++ List.replicate (calls.length - n) .fail := by
  have hplays := recordEvents_plays h
  refine ⟨?_, ?_, ?_⟩
  · obtain ⟨hfits, hbytes, -, hlen⟩ := recordEvents_some rfl (by decide) h
    have hbytes : s.bytes = logFrom 0 events := hbytes
    rw [hbytes] at hlen ⊢
    refine replayLogValidate_logFrom (by rw [hevents]; exact List.cons_ne_nil _ _) hfits ?_ hlen
    subst hevents
    rintro e ⟨⟩
    rfl
  · obtain ⟨s', hs', hbytes, hcalls⟩ := @replayCalls_same [] events s.rewind
      (by rw [List.append_nil]; exact hplays) []
    rw [List.append_nil] at hcalls
    refine ⟨s', by rw [hcalls, replayCalls, List.append_nil], hs'.failed, ?_⟩
    rw [hs'.cursor_eq, hbytes]
    rfl
  · intro calls n hn hsame hdiffers
    obtain ⟨s', hs', -, hcalls⟩ := @replayCalls_same (events.drop n) (events.take n) s.rewind
      (by rw [List.take_append_drop]; exact hplays) (calls.drop n)
    have hsplit : calls = (events.take n).map ReplayEvent.call ++ calls.drop n := by
      rw [List.map_take, ← hsame, List.take_append_drop]
    have hcall : calls.drop n = calls[n] :: calls.drop (n + 1) := List.drop_eq_getElem_cons hn
    have hfail : replayBefore s' calls[n] = (.fail, { s' with failed := true }) := by
      refine replayBefore_differs hs' ?_
      rw [List.head?_drop, ← List.getElem?_map, ← List.getElem?_eq_getElem hn]
      exact hdiffers.symm
    have hreplicate : calls.length - n = (calls.drop (n + 1)).length + 1 := by
      rw [List.length_drop]
      omega
    conv_lhs => rw [hsplit]
    rw [hcalls, hcall, replayCalls, hfail, hreplicate, List.replicate_succ]
    dsimp only
    rw [replayCalls_failed (s := { s' with failed := true }) hs'.mode rfl]

/-- A timer handler that reads the time, recorded and played. -/
theorem record_replay_time : ∃ s,
    recordEvents replayStart [.handler 7 true, .syscall 12 (by decide) (fun _ => 0) [] [] 7] =
      some s ∧ replayLogValidate s.bytes = true ∧
    (replayCalls s.rewind [⟨0, handlerArguments 7 1, [], 0⟩, ⟨11, fun _ => 0, [], 0⟩]).1 =
      [.supply [] 0, .fail] := by
  have hagree := record_replay 7 true [.syscall 12 (by decide) (fun _ => 0) [] [] 7] _ _ rfl rfl
  refine ⟨_, rfl, hagree.1, ?_⟩
  exact hagree.2.2 [⟨0, handlerArguments 7 1, [], 0⟩, ⟨11, fun _ => 0, [], 0⟩] 1 (by decide) rfl
    (by decide)

end Jani
