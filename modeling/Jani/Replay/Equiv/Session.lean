import Jani.Replay.Equiv.Record
import Jani.Replay.Session
import Mathlib.Tactic.FinCases

/-!
# The log of a replay session over its life

Every log the validator accepts is the log of some events (`replayLogValidate_events`), so that a
loaded log is as good as a recorded one.  Recording keeps the log that of the events recorded so far
as long as the sequence number is their count (`Counted`), and `replay_verify`, which counts the
records it plays, leaves it so whenever the session has not failed (`replayVerify_counted`).

`replay_load` however leaves the sequence number at zero.
-/

namespace Jani

/-! ### Words and records -/

theorem take_drop_append (l : List UInt8) {a b : Nat} (n m : Nat) (hb : b = a + n) :
    (l.drop a).take n ++ (l.drop b).take m = (l.drop a).take (n + m) := by
  rw [hb, List.take_add, List.drop_drop]

theorem ReplayRecord.bytes_ofBytes {l : List UInt8} (h : replayRecordSize ≤ l.length) :
    (ReplayRecord.ofBytes l).bytes = l.take replayRecordSize := by
  rw [replayRecordSize] at h ⊢
  have hargs : (List.ofFn fun i : Fin 8 => u64At l (16 + 8 * i)).flatMap le64 =
      (l.drop 16).take 64 := by
    simp only [List.ofFn_succ, List.ofFn_zero, List.flatMap_cons, List.flatMap_nil, List.append_nil]
    rw [le64_u64At, le64_u64At, le64_u64At, le64_u64At, le64_u64At, le64_u64At, le64_u64At,
      le64_u64At]
    · rw [take_drop_append l 8 8 (by rfl), take_drop_append l 8 16 (by rfl),
        take_drop_append l 8 24 (by rfl), take_drop_append l 8 32 (by rfl),
        take_drop_append l 8 40 (by rfl), take_drop_append l 8 48 (by rfl),
        take_drop_append l 8 56 (by rfl)]
      rfl
    all_goals
      simp only [Fin.val_zero, Fin.val_succ]
      omega
  have hresult : le64 (u64At l 80).toInt64.toUInt64 = (l.drop 80).take 8 := by
    rw [UInt64.toUInt64_toInt64, le64_u64At (by omega)]
  unfold ReplayRecord.bytes ReplayRecord.ofBytes
  dsimp only
  rw [hargs, hresult, le32_u32At (by omega), le32_u32At (by omega), le64_u64At (by omega),
    le32_u32At (by omega), le32_u32At (by omega), take_drop_append l 4 4 (by rfl),
    take_drop_append l 8 8 (by rfl), take_drop_append l 64 16 (by rfl),
    take_drop_append l 8 80 (by rfl), take_drop_append l 4 88 (by rfl),
    take_drop_append l 4 92 (by rfl), List.drop_zero]

/-! ### Logs that the validator accepts -/

theorem ofLeBytes_eq_zero : ∀ {l : List UInt8}, (∀ b ∈ l, b = 0) → ofLeBytes l = 0
  | [], _ => rfl
  | b :: l, h => by
    rw [ofLeBytes, h b List.mem_cons_self,
      ofLeBytes_eq_zero fun b' hb' => h b' (List.mem_cons_of_mem _ hb')]
    rfl

variable {n : Nat} {rest bytes : List UInt8} {sequence : UInt64} {events : List ReplayEvent}

theorem u64At_eq_zero {l : List UInt8} {a off : Nat} (h : ((l.drop a).take n).all (· = 0) = true)
    (ha : a ≤ off) (hoff : off + 8 ≤ a + n) : u64At l off = 0 := by
  have hzero : ∀ b ∈ (l.drop off).take 8, b = 0 := by
    intro b hb
    have hmem : b ∈ (l.drop a).take n := by
      have hsplit : (l.drop off).take 8 = (((l.drop a).take n).drop (off - a)).take 8 := by
        rw [List.drop_take, List.take_take, List.drop_drop, Nat.add_sub_cancel' ha,
          Nat.min_eq_left (by omega)]
      rw [hsplit] at hb
      exact List.mem_of_mem_drop (List.mem_of_mem_take hb)
    simpa using List.all_eq_true.mp h b hmem
  rw [u64At, get64, ofLeBytes_eq_zero hzero]
  rfl

theorem eq_logBytes_append {e : ReplayEvent} {m : Nat} (hsize : replayRecordSize ≤ rest.length)
    (hrecord : e.record sequence = .ofBytes rest)
    (hinput : e.call.input = (rest.drop replayRecordSize).take n)
    (houtput : e.output = (rest.drop (replayRecordSize + n)).take m) :
    rest = e.logBytes sequence ++ rest.drop (replayRecordSize + n + m) := by
  have hhead := take_drop_append rest replayRecordSize (n + m)
    (show replayRecordSize = 0 + replayRecordSize by omega)
  rw [List.drop_zero] at hhead
  rw [ReplayEvent.logBytes, hrecord, ReplayRecord.bytes_ofBytes hsize, hinput, houtput,
    take_drop_append rest n m rfl, hhead, Nat.add_assoc, List.take_append_drop]

theorem toUInt64_timer {x : UInt64} (h : x ≤ 1) : (decide (x = 1)).toUInt32.toUInt64 = x := by
  have hle : x.toNat ≤ 1 := UInt64.le_iff_toNat_le.mp h
  by_cases hone : x = 1
  · rw [decide_eq_true hone, hone]
    rfl
  · have hne : x.toNat ≠ 1 := fun h => hone (UInt64.toNat_inj.mp h)
    have hzero : x = 0 := UInt64.toNat_inj.mp (show x.toNat = 0 by omega)
    rw [decide_eq_false hone, hzero]
    rfl

theorem handler_record (hkind : u32At rest 0 = 0) (hreserved : u32At rest 4 = 0)
    (hsequence : u64At rest 8 = sequence) (hin : u32At rest 88 = 0) (hout : u32At rest 92 = 0)
    (htimer : u64At rest 24 ≤ 1) (htail : ((rest.drop 32).take 56).all (· = 0) = true) :
    (ReplayEvent.handler (u64At rest 16) (decide (u64At rest 24 = 1))).record sequence =
      .ofBytes rest := by
  have hargs : handlerArguments (u64At rest 16) (decide (u64At rest 24 = 1)).toUInt32 =
      fun i : Fin 8 => u64At rest (16 + 8 * i) := by
    funext i
    fin_cases i
    · rfl
    · exact toUInt64_timer htimer
    all_goals exact (u64At_eq_zero htail (by norm_num) (by norm_num)).symm
  have hresult : u64At rest 80 = 0 := u64At_eq_zero htail (by norm_num) (by norm_num)
  change ReplayRecord.mk 0 0 sequence (handlerArguments _ _) 0 0 0 = .ofBytes rest
  unfold ReplayRecord.ofBytes
  rw [hargs, hkind, hreserved, hsequence, hresult, hin, hout]
  rfl

/-- **A record that the validator accepts** is that of an event. -/
theorem replayRecordValid_event (h : replayRecordValid rest sequence = true) :
    ∃ e : ReplayEvent, e.Fits ∧ (sequence = 0 → e.call.kind = 0) ∧
      e.call.needed = replayRecordSize + (u32At rest 88).toNat + (u32At rest 92).toNat ∧
      rest = e.logBytes sequence ++ rest.drop e.call.needed := by
  simp only [replayRecordValid, Bool.and_eq_true, decide_eq_true_eq, Bool.or_eq_true] at h
  obtain ⟨⟨⟨⟨⟨⟨⟨⟨hsize, hkind⟩, hreserved⟩, hsequence⟩, hfirst⟩, hinput⟩, houtput⟩, hhandler⟩,
    hroom⟩ := h
  by_cases hzero : u32At rest 0 = 0
  · obtain ⟨⟨⟨hin, hout⟩, htimer⟩, htail⟩ := hhandler.resolve_left (fun hne => hne hzero)
    refine ⟨.handler (u64At rest 16) (decide (u64At rest 24 = 1)),
      ⟨UInt32.le_iff_toNat_le.mpr (Nat.zero_le _), Nat.zero_le _, Nat.zero_le _⟩, fun _ => rfl, ?_,
      ?_⟩
    · rw [hin, hout]
      rfl
    · exact eq_logBytes_append hsize
        (handler_record hzero hreserved hsequence hin hout htimer htail) List.take_zero.symm
        List.take_zero.symm
  · -- a syscall, with its input and output behind the header
    have hinputLength : ((rest.drop replayRecordSize).take (u32At rest 88).toNat).length =
        (u32At rest 88).toNat := by
      rw [List.length_take, List.length_drop]
      omega
    have houtputLength : ((rest.drop (replayRecordSize + (u32At rest 88).toNat)).take
        (u32At rest 92).toNat).length = (u32At rest 92).toNat := by
      rw [List.length_take, List.length_drop]
      omega
    set e := ReplayEvent.syscall (u32At rest 0) hzero (ReplayRecord.ofBytes rest).arguments
        ((rest.drop replayRecordSize).take (u32At rest 88).toNat)
        ((rest.drop (replayRecordSize + (u32At rest 88).toNat)).take (u32At rest 92).toNat)
        (ReplayRecord.ofBytes rest).result with he
    have hneeded : e.call.needed =
        replayRecordSize + (u32At rest 88).toNat + (u32At rest 92).toNat := by
      rw [ReplayCall.needed, he, ReplayEvent.call]
      dsimp only
      rw [hinputLength, houtputLength]
    refine ⟨e, ⟨hkind, ?_, ?_⟩, fun h0 => absurd (hfirst.resolve_left (fun h => h h0)) hzero,
      hneeded, ?_⟩
    · exact hinputLength.trans_le hinput
    · exact houtputLength.trans_le houtput
    · rw [hneeded]
      refine eq_logBytes_append hsize ?_ rfl rfl
      change ReplayRecord.mk (u32At rest 0) 0 sequence (ReplayRecord.ofBytes rest).arguments
        (ReplayRecord.ofBytes rest).result (UInt32.ofNat e.call.input.length)
        (UInt32.ofNat e.output.length) = .ofBytes rest
      rw [show e.call.input.length = _ from hinputLength,
        show e.output.length = _ from houtputLength, UInt32.ofNat_toNat, UInt32.ofNat_toNat,
        ← hsequence,
        ← hreserved]
      rfl

/-- **A log that the validator accepts** is the log of some events. -/
theorem replayRecordsValid_events : ∀ {n : Nat} {rest : List UInt8} {sequence : UInt64},
    replayRecordsValid n rest sequence = true →
      ∃ events, rest = logFrom sequence events ∧ (∀ e ∈ events, e.Fits) ∧
        (sequence = 0 → ∀ e ∈ events.head?, e.call.kind = 0)
  | 0, rest, sequence, h => by
    refine ⟨[], ?_, fun e he => absurd he List.not_mem_nil, fun _ e he => (by cases he)⟩
    exact List.isEmpty_iff.mp h
  | n + 1, rest, sequence, h => by
    rw [replayRecordsValid, Bool.or_eq_true, Bool.and_eq_true] at h
    rcases h with h | ⟨hrecord, hrest⟩
    · refine ⟨[], List.isEmpty_iff.mp h, fun e he => absurd he List.not_mem_nil, fun _ e he => ?_⟩
      cases he
    · obtain ⟨e, hfits, hfirst, hneeded, hsplit⟩ := replayRecordValid_event hrecord
      rw [← hneeded] at hrest
      obtain ⟨events, heq, hall, -⟩ := replayRecordsValid_events hrest
      refine ⟨e :: events, ?_, fun e' he' => ?_, fun h0 e' he' => ?_⟩
      · rw [logFrom, ← heq]
        exact hsplit
      · rcases List.mem_cons.mp he' with rfl | he'
        · exact hfits
        · exact hall e' he'
      · cases he'
        exact hfirst h0

/-- The log of a session is the log of these events. -/
structure LogOf (bytes : List UInt8) (events : List ReplayEvent) : Prop where
  eq : bytes = logFrom 0 events
  fits : ∀ e ∈ events, e.Fits
  first : ∀ e ∈ events.head?, e.call.kind = 0
  length_le : bytes.length ≤ replayBytes

theorem replayLogValidate_events (h : replayLogValidate bytes = true) :
    ∃ events, events ≠ [] ∧ LogOf bytes events := by
  simp only [replayLogValidate, Bool.and_eq_true, decide_eq_true_eq] at h
  obtain ⟨⟨hne, hlen⟩, hrecords⟩ := h
  obtain ⟨events, heq, hfits, hfirst⟩ := replayRecordsValid_events hrecords
  refine ⟨events, ?_, heq, hfits, hfirst rfl, hlen⟩
  rintro rfl
  exact hne (by rw [heq]; rfl)

theorem LogOf.validate (h : LogOf bytes events) (hne : events ≠ []) :
    replayLogValidate bytes = true := by
  have hlen := h.length_le
  rw [h.eq] at hlen ⊢
  exact replayLogValidate_logFrom hne h.fits h.first hlen

/-- The number of records of a log, by its headers. -/
def countRecords : Nat → List UInt8 → Nat
  | 0, _ => 0
  | n + 1, rest =>
    if rest.isEmpty then 0
    else 1 + countRecords n
      (rest.drop (replayRecordSize + (u32At rest 88).toNat + (u32At rest 92).toNat))

def replayRecordCount (bytes : List UInt8) : Nat := countRecords bytes.length bytes

theorem countRecords_logFrom : ∀ {events : List ReplayEvent} {sequence : UInt64} {n : Nat},
    (∀ e ∈ events, e.Fits) → (logFrom sequence events).length ≤ n →
      countRecords n (logFrom sequence events) = events.length
  | [], _, n, _, _ => by cases n <;> rfl
  | e :: events, sequence, 0, _, hlen => by
    have hge := length_logFrom_ge sequence (e :: events)
    rw [List.length_cons, replayRecordSize] at hge
    omega
  | e :: events, sequence, n + 1, hfits, hlen => by
    have hrecord := e.logBytes_fields sequence (logFrom (sequence + 1) events)
    simp only [ReplayRecord.ofBytes, ReplayEvent.record, ReplayRecord.mk.injEq] at hrecord
    obtain ⟨-, -, -, -, -, hin, hout⟩ := hrecord
    have hfit := hfits e List.mem_cons_self
    have hneeded : replayRecordSize + (u32At (logFrom sequence (e :: events)) 88).toNat +
        (u32At (logFrom sequence (e :: events)) 92).toNat = e.call.needed := by
      rw [logFrom, hin, hout, hfit.toNat_input, hfit.toNat_output, ReplayCall.needed,
        e.call_outputSize]
    have hlength : (logFrom sequence (e :: events)).length =
        e.call.needed + (logFrom (sequence + 1) events).length := by
      rw [logFrom, List.length_append, e.length_logBytes]
    have hpos : 0 < e.call.needed := by
      rw [ReplayCall.needed, replayRecordSize]
      omega
    rw [countRecords, if_neg, hneeded, drop_logFrom_cons,
      countRecords_logFrom (fun e' he' => hfits e' (.tail _ he')) (by omega), List.length_cons,
      Nat.add_comm]
    intro hempty
    rw [List.isEmpty_iff.mp hempty, List.length_nil] at hlength
    omega

theorem LogOf.count (h : LogOf bytes events) : replayRecordCount bytes = events.length := by
  rw [replayRecordCount, h.eq]
  exact countRecords_logFrom h.fits (Nat.le_refl _)

/-! ### Recording -/

theorem logFrom_append : ∀ (events : List ReplayEvent) (sequence : UInt64) (e : ReplayEvent),
    logFrom sequence (events ++ [e]) =
      logFrom sequence events ++ e.logBytes (sequence + UInt64.ofNat events.length)
  | [], sequence, e => by
    rw [List.nil_append, logFrom, logFrom, logFrom, List.append_nil, List.nil_append,
      show UInt64.ofNat [].length = 0 from rfl, UInt64.add_zero]
  | e' :: events, sequence, e => by
    rw [List.cons_append, logFrom, logFrom_append events, logFrom, List.append_assoc,
      List.length_cons, UInt64.ofNat_add, UInt64.add_assoc, UInt64.add_comm 1]
    rfl

/-- A session that records has as many records as its sequence number says. -/
structure Counted (s : ReplaySession) : Prop where
  mode : s.mode = .record
  log : s.failed = false → ∃ events, LogOf s.bytes events ∧ s.sequence.toNat = events.length

variable {s : ReplaySession}

theorem replayAfter_cases (hmode : s.mode = .record) (kind : UInt32) (arguments : Fin 8 → UInt64)
    (input output : List UInt8) (result : Int64) :
    replayAfter s kind arguments input output result =
        (true, (replayAfter s kind arguments input output result).2) ∨
      ((replayAfter s kind arguments input output result).2.failed = true ∧
        (replayAfter s kind arguments input output result).2.mode = .record) := by
  unfold replayAfter
  split_ifs
  · exact Or.inl rfl
  · exact Or.inr ⟨rfl, hmode⟩
  · exact Or.inl rfl

/-- Recording an event either writes it whole or fails the log. -/
theorem replayRecordEvent_cases (hmode : s.mode = .record) (e : ReplayEvent) :
    recordEvent s e = some (replayRecordEvent s e) ∨
      ((replayRecordEvent s e).failed = true ∧ (replayRecordEvent s e).mode = .record) := by
  cases e with
  | handler now timer =>
    unfold recordEvent replayRecordEvent replayHandler
    rcases replayBefore_record hmode ⟨0, handlerArguments now timer.toUInt32, [], 0⟩ with h | h
    · dsimp only
      rw [h]
      rcases replayAfter_cases hmode 0 (handlerArguments now timer.toUInt32) [] [] 0 with
        hok | hfailed
      · dsimp only
        rw [hok]
        exact Or.inl rfl
      · exact Or.inr hfailed
    · dsimp only
      rw [h]
      exact Or.inr ⟨rfl, hmode⟩
  | syscall kind hkind arguments input output result =>
    unfold recordEvent replayRecordEvent
    rcases replayBefore_record hmode ⟨kind, arguments, input, output.length⟩ with h | h
    · dsimp only
      rw [h]
      rcases replayAfter_cases hmode kind arguments input output result with hok | hfailed
      · dsimp only
        rw [hok]
        exact Or.inl rfl
      · exact Or.inr hfailed
    · dsimp only
      rw [h]
      exact Or.inr ⟨rfl, hmode⟩

/-- **Recording** keeps the count. -/
theorem Counted.record (h : Counted s) {e : ReplayEvent}
    (hfirst : s.failed = false → s.bytes = [] → e.call.kind = 0) :
    Counted (replayRecordEvent s e) := by
  rcases replayRecordEvent_cases h.mode e with hsome | ⟨hfailed, hmode⟩
  · obtain ⟨hfailed, hfits, hroom, heq⟩ := recordEvent_some h.mode hsome
    obtain ⟨events, hlog, hsequence⟩ := h.log hfailed
    have hge := length_logFrom_ge 0 events
    have hlen := hlog.length_le
    rw [← hlog.eq, replayRecordSize] at hge
    rw [replayBytes] at hlen
    have hcount : UInt64.ofNat events.length = s.sequence := by
      rw [← hsequence, UInt64.ofNat_toNat]
    rw [heq]
    refine ⟨h.mode, fun _ => ⟨events ++ [e], ⟨?_, ?_, ?_, ?_⟩, ?_⟩⟩
    · dsimp only
      rw [logFrom_append, ← hlog.eq, hcount, UInt64.zero_add]
    · intro e' he'
      rcases List.mem_append.mp he' with he' | he'
      · exact hlog.fits e' he'
      · rw [List.mem_singleton.mp he']
        exact hfits
    · intro e' he'
      cases events with
      | nil =>
        cases he'
        exact hfirst hfailed hlog.eq
      | cons e'' events => exact hlog.first e' he'
    · dsimp only
      rw [List.length_append, e.length_logBytes]
      exact hroom
    · dsimp only
      rw [UInt64.toNat_add, UInt64.toNat_one, hsequence, List.length_append, List.length_singleton,
        Nat.mod_eq_of_lt (by omega)]
  · exact ⟨hmode, fun h => (by rw [hfailed] at h; cases h)⟩

/-! ### Verifying -/

/-- A session that plays the log of some events, with at most `n` of them still to come. -/
structure Playing (events : List ReplayEvent) (n : Nat) (s : ReplaySession) : Prop where
  mode : s.mode = .play
  bytes : LogOf s.bytes events
  place : s.failed = false → ∃ played later, events = played ++ later ∧ PlaysAt s later ∧
    s.sequence.toNat = played.length ∧ later.length ≤ n

theorem Playing.fail (h : Playing events n s) : Playing events n { s with failed := true } :=
  ⟨h.mode, h.bytes, fun h => (by cases h)⟩

theorem LogOf.length_lt (h : LogOf bytes events) : events.length < 2 ^ 63 := by
  have hge := length_logFrom_ge 0 events
  have hlen := h.length_le
  rw [← h.eq, replayRecordSize] at hge
  rw [replayBytes] at hlen
  omega

theorem Playing.before (h : Playing events n s) (call : ReplayCall) :
    (replayBefore s call = (.fail, { s with failed := true })) ∨
      ∃ output result s', replayBefore s call = (.supply output result, s') ∧
        Playing events (n - 1) s' := by
  cases hfailed : s.failed with
  | true =>
    left
    rw [replayBefore_failed h.mode hfailed]
    rw [← hfailed]
  | false =>
    obtain ⟨played, later, rfl, hplays, hsequence, hle⟩ := h.place hfailed
    cases later with
    | nil => exact Or.inl (replayBefore_past_end hplays call)
    | cons e later =>
      rw [replayBefore_play hplays]
      split_ifs with hcall
      · refine Or.inr ⟨_, _, _, rfl, h.mode, h.bytes, fun _ =>
          ⟨played ++ [e], later, ?_, hplays.next, ?_, ?_⟩⟩
        · rw [List.append_assoc]
          rfl
        · have hlt := h.bytes.length_lt
          rw [List.length_append, List.length_cons] at hlt
          dsimp only
          rw [UInt64.toNat_add, UInt64.toNat_one, hsequence, List.length_append,
            List.length_singleton, Nat.mod_eq_of_lt (by omega)]
        · rw [List.length_cons] at hle
          omega
      · exact Or.inl rfl

theorem Playing.mono {m : Nat} (h : Playing events n s) (hle : n ≤ m) : Playing events m s := by
  refine ⟨h.mode, h.bytes, fun hfailed => ?_⟩
  obtain ⟨played, later, heq, hplays, hsequence, hn⟩ := h.place hfailed
  exact ⟨played, later, heq, hplays, hsequence, Nat.le_trans hn hle⟩

theorem Playing.calls {events : List ReplayEvent} {n : Nat} {s : ReplaySession}
    (h : Playing events n s) (calls : List ReplayCall) :
    Playing events n (replayCalls s calls).2 := by
  induction calls generalizing s with
  | nil => exact h
  | cons call calls ih =>
    rcases h.before call with hfail | ⟨output, result, s', hs', hplaying⟩
    · have := ih h.fail
      rw [replayCalls, hfail]
      exact this
    · have := ih (hplaying.mono (Nat.sub_le n 1))
      rw [replayCalls, hs']
      exact this

theorem PlaysAt.later_eq_nil {later : List ReplayEvent} (h : PlaysAt s later)
    (hend : ¬ s.cursor < s.bytes.length) : later = [] := by
  have hge := length_logFrom_ge s.sequence later
  rw [← h.rest, List.length_drop, replayRecordSize] at hge
  exact List.length_eq_zero_iff.mp (by omega)

/-- A session that has counted all events of its log, if it has not failed. -/
def PlayedAll (events : List ReplayEvent) (s : ReplaySession) : Prop :=
  LogOf s.bytes events ∧ (s.failed = false → s.sequence.toNat = events.length)

theorem Playing.playedAll_fail (h : Playing events n s) :
    PlayedAll events { s with failed := true } :=
  ⟨h.bytes, fun h => (by cases h)⟩

/-- **The loop of `replay_verify`** plays the whole log, or the session fails. -/
theorem playHandlers_spec {handlers : Nat → HandlerPlay} {events : List ReplayEvent} :
    ∀ {fuel k : Nat} {s : ReplaySession}, Playing events fuel s →
      PlayedAll events (playHandlers handlers fuel k s)
  | 0, k, s, h => by
    refine ⟨h.bytes, fun hfailed => ?_⟩
    obtain ⟨played, later, rfl, -, hsequence, hle⟩ := h.place hfailed
    rw [List.length_eq_zero_iff.mp (Nat.le_zero.mp hle), List.append_nil]
    exact hsequence
  | fuel + 1, k, s, h => by
    unfold playHandlers
    by_cases hend : s.cursor < s.bytes.length
    · rw [if_pos hend]
      dsimp only
      generalize ReplayRecord.ofBytes (s.bytes.drop s.cursor) = record
      split
      · exact h.playedAll_fail
      · unfold replayHandler
        rcases h.before ⟨0, handlerArguments (record.arguments 0) (record.arguments 1).toUInt32, [],
          0⟩ with hfail | ⟨output, result, s', hs', hplaying⟩
        · rw [hfail]
          exact h.playedAll_fail
        · rw [hs']
          have hcalls := hplaying.calls (handlers k).calls
          cases hok : (handlers k).ok with
          | false => exact hcalls.playedAll_fail
          | true => exact playHandlers_spec hcalls
    · rw [if_neg hend]
      refine ⟨h.bytes, fun hfailed => ?_⟩
      obtain ⟨played, later, rfl, hplays, hsequence, -⟩ := h.place hfailed
      rw [hplays.later_eq_nil hend, List.append_nil]
      exact hsequence

variable {r : ReplayRecording} {readable : ObjectId → Bool} {owner : Component} {store : ObjectMap}

/-- **Verifying** a session that plays its log leaves the sequence number at the count of its
records. -/
theorem replayVerify_counted {runtime : WasmRuntime}
    (h : verifyPlays r owner store readable runtime = true) (play : VerifyPlay) :
    Counted (replayVerify r owner store readable runtime play).2.log ∧
      (replayVerify r owner store readable runtime play).2.log.bytes ≠ [] := by
  have hvalid : replayLogValidate r.log.bytes = true := by
    simp only [verifyPlays, Bool.and_eq_true] at h
    exact h.1.2
  have hfailed : r.log.failed = false := by
    simp only [verifyPlays, Bool.and_eq_true, Bool.not_eq_true'] at h
    exact h.1.1.1.2
  obtain ⟨events, hne, hlog⟩ := replayLogValidate_events hvalid
  have hge := length_logFrom_ge 0 events
  rw [← hlog.eq, replayRecordSize] at hge
  have hplaying : Playing events r.log.bytes.length r.log.rewind :=
    ⟨rfl, hlog, fun _ => ⟨[], events, rfl,
      ⟨rfl, hfailed, hlog.length_le, Nat.zero_le _, hlog.eq, hlog.fits⟩, rfl, by omega⟩⟩
  obtain ⟨hbytes, hcount⟩ := @playHandlers_spec play.handlers events r.log.bytes.length 0 _ hplaying
  unfold replayVerify
  rw [h, if_neg (by decide)]
  refine ⟨⟨rfl, fun hfailed' => ⟨events, hbytes, hcount hfailed'⟩⟩, fun hempty => hne ?_⟩
  have hzero := length_logFrom_ge 0 events
  rw [← hbytes.eq, show (playHandlers _ _ _ _).bytes = [] from hempty, replayRecordSize,
    List.length_nil] at hzero
  exact List.length_eq_zero_iff.mp (by omega)

/-! ### Whole lives of sessions -/

/-- The log, played to the calls it was recorded from, answers all of them. -/
def Replays (s : ReplaySession) : Prop :=
  ∃ events s', s.bytes = logFrom 0 events ∧
    replayCalls s.rewind (events.map ReplayEvent.call) = (events.map ReplayEvent.answer, s') ∧
      s'.failed = false ∧ s'.cursor = s.bytes.length

/-- A session that has not failed and has recorded something holds a log that the validator accepts
and that replays, and while it records its sequence number is the number of records. -/
def ReplayLogOk (s : ReplaySession) : Prop :=
  s.failed = false → s.bytes ≠ [] → replayLogValidate s.bytes = true ∧
    (s.mode = .record → s.sequence.toNat = replayRecordCount s.bytes) ∧ Replays s

theorem Counted.ok (h : Counted s) : ReplayLogOk s := by
  intro hfailed hne
  obtain ⟨events, hlog, hsequence⟩ := h.log hfailed
  have hevents : events ≠ [] := by
    rintro rfl
    exact hne hlog.eq
  have hplays : PlaysAt s.rewind (events ++ []) :=
    ⟨rfl, hfailed, hlog.length_le, Nat.zero_le _, by rw [List.append_nil]; exact hlog.eq,
      by rw [List.append_nil]; exact hlog.fits⟩
  obtain ⟨s', hs', hbytes, hcalls⟩ := replayCalls_same hplays []
  refine ⟨hlog.validate hevents, fun _ => by rw [hlog.count, hsequence], events, s', hlog.eq, ?_,
    hs'.failed, ?_⟩
  · simpa [replayCalls] using hcalls
  · rw [hs'.cursor_eq, hbytes]
    rfl

/-- No syscall is recorded before the first handler start. -/
def HandlerFirst (r : ReplayRecording) : List ReplayStep → Prop
  | [] => True
  | step :: steps =>
    (∀ e, step = .record e → r.log.failed = false → r.log.bytes = [] → e.call.kind = 0) ∧
      HandlerFirst (step.apply r) steps

theorem replayVerify_refused {runtime : WasmRuntime}
    (h : verifyPlays r owner store readable runtime = false) (play : VerifyPlay) :
    (replayVerify r owner store readable runtime play).2 = r := by
  unfold replayVerify
  rw [h]
  rfl

/-- **One step.** -/
theorem Counted.apply (h : Counted r.log) {step : ReplayStep}
    (hfirst : ∀ e, step = .record e → r.log.failed = false → r.log.bytes = [] → e.call.kind = 0) :
    Counted (step.apply r).log := by
  cases step with
  | record e => exact h.record (hfirst e rfl)
  | verify owner store readable runtime play =>
    show Counted (replayVerify r owner store readable runtime play).2.log
    cases hplays : verifyPlays r owner store readable runtime with
    | false =>
      rw [replayVerify_refused hplays]
      exact h
    | true => exact (replayVerify_counted hplays play).1
  | save => exact h
  | fail => exact ⟨h.mode, fun hfailed => (by cases hfailed)⟩

theorem Counted.run {steps : List ReplayStep} : ∀ {r : ReplayRecording}, Counted r.log →
    HandlerFirst r steps → Counted (replayRun r steps).log := by
  induction steps with
  | nil => exact fun h _ => h
  | cons step steps ih => exact fun h hfirst => ih (h.apply hfirst.1) hfirst.2

theorem apply_nonempty (hmode : r.log.mode = .record) (h : r.log.failed = false → r.log.bytes ≠ [])
    (step : ReplayStep) : (step.apply r).log.failed = false → (step.apply r).log.bytes ≠ [] := by
  cases step with
  | record e =>
    intro hfailed
    rcases replayRecordEvent_cases hmode e with hsome | ⟨hfailed', -⟩
    · obtain ⟨hfailed', -, -, heq⟩ := recordEvent_some hmode hsome
      show (replayRecordEvent r.log e).bytes ≠ []
      rw [heq]
      exact List.append_ne_nil_of_left_ne_nil (h hfailed') _
    · rw [show (replayRecordEvent r.log e).failed = false from hfailed] at hfailed'
      cases hfailed'
  | verify owner store readable runtime play =>
    show (replayVerify r owner store readable runtime play).2.log.failed = false →
      (replayVerify r owner store readable runtime play).2.log.bytes ≠ []
    cases hplays : verifyPlays r owner store readable runtime with
    | false =>
      rw [replayVerify_refused hplays]
      exact h
    | true => exact fun _ => (replayVerify_counted hplays play).2
  | save => exact h
  | fail =>
    intro hfailed
    cases hfailed

theorem handlerFirst_of_nonempty {steps : List ReplayStep} : ∀ {r : ReplayRecording},
    Counted r.log → (r.log.failed = false → r.log.bytes ≠ []) → HandlerFirst r steps := by
  induction steps with
  | nil => exact fun _ _ => trivial
  | cons step steps ih =>
    intro r hcounted hne
    have hfirst : ∀ e, step = .record e → r.log.failed = false → r.log.bytes = [] →
        e.call.kind = 0 := fun e _ hfailed hempty => absurd hempty (hne hfailed)
    exact ⟨hfirst, ih (hcounted.apply hfirst) (apply_nonempty hcounted.mode hne step)⟩

/-- A session that records and holds a valid log, whatever its sequence number is. -/
structure Logged (s : ReplaySession) : Prop where
  mode : s.mode = .record
  valid : s.failed = false → replayLogValidate s.bytes = true

/-- Until something is recorded, the log stays valid. -/
theorem Logged.run {before : List ReplayStep} : ∀ {r : ReplayRecording}, Logged r.log →
    (∀ step ∈ before, ∀ e, step ≠ .record e) → Logged (replayRun r before).log := by
  induction before with
  | nil => exact fun h _ => h
  | cons step steps ih =>
    intro r h hquiet
    refine @ih (step.apply r) ?_ fun step' h' => hquiet step' (List.mem_cons_of_mem _ h')
    cases step with
    | record e => exact absurd rfl (hquiet _ List.mem_cons_self e)
    | verify owner store readable runtime play =>
      show Logged (replayVerify r owner store readable runtime play).2.log
      cases hplays : verifyPlays r owner store readable runtime with
      | false =>
        rw [replayVerify_refused hplays]
        exact h
      | true =>
        obtain ⟨hcounted, hne⟩ := replayVerify_counted hplays play
        exact ⟨hcounted.mode, fun hfailed => (hcounted.ok hfailed hne).1⟩
    | save => exact h
    | fail => exact ⟨h.mode, fun hfailed => (by cases hfailed)⟩

theorem replayLoad_eq_some {idle : Bool} (h : replayLoad owner store readable idle = some r) :
    Logged r.log ∧ r.log.sequence = 0 := by
  unfold replayLoad at h
  split_ifs at h
  split at h
  · split_ifs at h with hvalid
    rw [not_or, not_or] at hvalid
    cases h
    exact ⟨⟨rfl, fun _ => by simpa using hvalid.2.1⟩, rfl⟩
  · cases h

theorem replayStartFor_eq_some {idle domainActive : Bool}
    (h : replayStartFor owner idle domainActive = some r) : r.log = replayStart := by
  unfold replayStartFor at h
  split_ifs at h
  obtain ⟨initial, -, rfl⟩ := Option.map_eq_some_iff.mp h
  rfl

/-- **The log of a session over its life.**  A session begun by `replay_start` keeps a valid log and
a sequence number that counts its records through recordings, verifications and saves, if the first
thing it records is a handler start.  A loaded session keeps its valid log as long as it records
nothing; once a verification has played that log, everything holds as for a started one. -/
theorem replay_log_valid (owner : Component) : (∀ (idle domainActive : Bool) (r : ReplayRecording),
      replayStartFor owner idle domainActive = some r →
      ∀ steps, HandlerFirst r steps → ReplayLogOk (replayRun r steps).log) ∧
    ∀ (store : ObjectMap) (readable : ObjectId → Bool) (idle : Bool)
      (r : ReplayRecording), replayLoad owner store readable idle = some r →
      ∀ before, (∀ step ∈ before, ∀ e, step ≠ .record e) →
        ((replayRun r before).log.failed = false →
          replayLogValidate (replayRun r before).log.bytes = true) ∧
        ∀ owner' store' readable' runtime play after,
          verifyPlays (replayRun r before) owner' store' readable' runtime = true →
          ReplayLogOk (replayRun r
            (before ++ .verify owner' store' readable' runtime play :: after)).log := by
  refine ⟨fun idle domainActive r h steps hfirst => ?_,
    fun store readable idle r h before hquiet => ⟨?_, ?_⟩⟩
  · refine (Counted.run ?_ hfirst).ok
    rw [replayStartFor_eq_some h]
    exact ⟨rfl, fun _ => ⟨[], ⟨rfl, fun e he => absurd he List.not_mem_nil,
      fun e he => (by cases he), Nat.zero_le _⟩, rfl⟩⟩
  · exact ((replayLoad_eq_some h).1.run hquiet).valid
  · intro owner' store' readable' runtime play after hplays
    obtain ⟨hcounted, hne⟩ := replayVerify_counted hplays play
    rw [replayRun, List.foldl_append, List.foldl_cons]
    exact (Counted.run hcounted (handlerFirst_of_nonempty hcounted fun _ => hne)).ok

/-- A component with two bytes of memory. -/
def recordedOwner : Component :=
  { Component.blank ⟨2, 5⟩ ⟨⟨2, 2⟩, ⟨2, 3⟩, ⟨2, 4⟩⟩ with memory := [7, 9] }

/-- The smallest module with a memory: the header and a section that declares one page. -/
def pageModule : List UInt8 := [0x00, 0x61, 0x73, 0x6d, 1, 0, 0, 0, 5, 3, 1, 0, 1]

def recordedState : List UInt8 := (instanceStateSerialize recordedOwner).getD []

/-- A store with a saved session, in which one handler was recorded. -/
def recordedStore : ObjectMap where
  entries :=
    [(replayObjectId 0, ⟨replayTypeState, ⟨2, 5⟩, ⟨2, 5⟩, 0, recordedState⟩),
      (replayObjectId 1, ⟨replayTypeLog, ⟨2, 5⟩, ⟨2, 5⟩, 0, logFrom 0 [.handler 3 false]⟩),
      (replayObjectId 2, ⟨componentTypeModule, ⟨2, 5⟩, ⟨2, 5⟩, 0, pageModule⟩),
      (replayObjectId 3, ⟨replayTypeState, ⟨2, 5⟩, ⟨2, 5⟩, 0, recordedState⟩)]
  requiresRecovery := false

/-- The session that is loaded from it. -/
def recordedSession : ReplayRecording :=
  ⟨⟨.record, logFrom 0 [.handler 3 false], 0, 0, false⟩, recordedState, some recordedState,
    replayObjectId 2⟩

/-- An interpreter with pages of two bytes that accepts this module only. -/
def pageRuntime : WasmRuntime :=
  ⟨fun module => if module = pageModule then some [0, 0] else none,
    fun _ required => some required⟩

/-- The sessions begun on these; the verification plays the log. -/
theorem replay_log_valid_recorded : (∃ r, replayStartFor recordedOwner true false = some r ∧
      ReplayLogOk (replayRun r [.record (.handler 3 false)]).log) ∧
    replayLoad recordedOwner recordedStore (fun _ => true) true = some recordedSession ∧
      verifyPlays recordedSession recordedOwner recordedStore (fun _ => true) pageRuntime = true ∧
      ReplayLogOk (replayRun recordedSession
        [.verify recordedOwner recordedStore (fun _ => true) pageRuntime
            ⟨fun _ => ⟨[], true⟩, [7, 9]⟩,
          .record (.handler 4 true)]).log := by
  have hconcrete : replayStartFor recordedOwner true false =
      some ⟨replayStart, recordedState, none, ⟨2, 2⟩⟩ ∧
      replayLoad recordedOwner recordedStore (fun _ => true) true = some recordedSession ∧
      verifyPlays recordedSession recordedOwner recordedStore (fun _ => true) pageRuntime =
        true := by
    decide +kernel
  obtain ⟨hstart, hload, hplays⟩ := hconcrete
  refine ⟨⟨_, hstart, (replay_log_valid _).1 _ _ _ hstart _ ⟨fun e he _ _ => ?_, trivial⟩⟩, hload,
    hplays, ?_⟩
  · cases he
    rfl
  · have hquiet : ∀ step ∈ ([] : List ReplayStep), ∀ e, step ≠ .record e :=
      fun step h => absurd h List.not_mem_nil
    exact ((replay_log_valid _).2 _ _ _ _ hload [] hquiet).2 _ _ _ _ _ [.record (.handler 4 true)]
      hplays

/-- A handler recorded after a load gets the number of the first record once more, and the log is
not accepted any longer. -/
theorem replay_load_breaks_log :
    ¬ ∀ (owner : Component) (store : ObjectMap) (readable : ObjectId → Bool) (idle : Bool)
      (r : ReplayRecording), replayLoad owner store readable idle = some r →
      ∀ steps, HandlerFirst r steps → ReplayLogOk (replayRun r steps).log := by
  intro h
  have hconcrete : replayLoad recordedOwner recordedStore (fun _ => true) true =
        some recordedSession ∧
      (replayRecordEvent recordedSession.log (.handler 4 false)).failed = false ∧
      (replayRecordEvent recordedSession.log (.handler 4 false)).bytes ≠ [] ∧
      replayLogValidate (replayRecordEvent recordedSession.log (.handler 4 false)).bytes =
        false := by
    decide +kernel
  obtain ⟨hload, hfailed, hne, hinvalid⟩ := hconcrete
  have hok := h _ _ _ _ _ hload [.record (.handler 4 false)]
    ⟨fun e he _ _ => by cases he; rfl, trivial⟩
  have hvalid := (hok hfailed hne).1
  rw [show (replayRun recordedSession [.record (.handler 4 false)]).log.bytes =
    (replayRecordEvent recordedSession.log (.handler 4 false)).bytes from rfl, hinvalid] at hvalid
  cases hvalid

end Jani
