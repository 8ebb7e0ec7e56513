import Jani.Drivers.BlockComponent

/-!
# What a storage driver can make the kernel believe

Of the events of a request only two matter: the first submission, which sets `submitted`, and the
first completion after it.  A request is reported done when that completion has status `0`
(`driverEvents_completed`).
Nothing connects the two: `submitted` is set before the submission is checked, so a driver whose
submission was rejected may still complete the request.
-/

namespace Jani

/-! ### The events that matter -/

/-- The events before the first submission, its descriptors, the answer of the device, and the
events after it. -/
structure FirstSubmit where
  before : List DriverEvent
  descriptors : List UInt8
  answer : DeviceAnswer
  after : List DriverEvent

def FirstSubmit.cons (e : DriverEvent) (f : FirstSubmit) : FirstSubmit :=
  { f with before := e :: f.before }

/-- The first submission through the driver's only slot. -/
def firstSubmit : List DriverEvent → Option FirstSubmit
  | [] => none
  | .submit slot bytes answer :: rest =>
    if slot = 0 ∧ bytes.length ≤ 36 then some ⟨[], bytes, answer, rest⟩
    else (firstSubmit rest).map (FirstSubmit.cons (.submit slot bytes answer))
  | e :: rest => (firstSubmit rest).map (FirstSubmit.cons e)

/-- The status of the first completion with arguments that are accepted. -/
def firstCompletion (operation : UInt32) : List DriverEvent → Option Int32
  | [] => none
  | .complete status bytes :: rest =>
    if completionValid operation status bytes.length then some status
    else firstCompletion operation rest
  | _ :: rest => firstCompletion operation rest

/-- The device after the driver's writes to the DMA page and the device's own. -/
def deviceAfter (d : VirtioBlk) : List DriverEvent → VirtioBlk
  | [] => d
  | .dmaWrite slot offset bytes :: rest =>
    deviceAfter (if slot = 0 ∧ bytes.length ≤ 4096 then (virtioBlkDmaWrite d offset bytes).getD d
      else d) rest
  | .device dma :: rest => deviceAfter { d with dma := dma } rest
  | _ :: rest => deviceAfter d rest

/-! ### What does not change during a request -/

/-- The part of the state on which the authority of the driver and the meaning of its calls rest. -/
structure SameRequest (b b' : BlockComponent) : Prop where
  driverTable : b'.driverTable = b.driverTable
  generation : b'.generation = b.generation
  alive : b'.alive = b.alive
  busy : b'.busy = b.busy
  operation : b'.operation = b.operation
  requestSector : b'.requestSector = b.requestSector

theorem SameRequest.refl (b : BlockComponent) : SameRequest b b := ⟨rfl, rfl, rfl, rfl, rfl, rfl⟩

variable {b : BlockComponent}

theorem SameRequest.authorized {b' : BlockComponent} (h : SameRequest b b') (caller : BlockCaller)
    (slot : Int32) : driverAuthorized b' caller slot = driverAuthorized b caller slot := by
  unfold driverAuthorized
  rw [h.driverTable, h.generation, h.alive, h.busy]

theorem driverAuthorized_slot (h : driverAuthorized b .driver 0 = true) (slot : Int32) :
    driverAuthorized b .driver slot = decide (slot = 0) := by
  by_cases hslot : slot = 0
  · rw [hslot, h]
    rfl
  · rw [decide_eq_false hslot, driverAuthorized, if_pos (Or.inr (Or.inr (Or.inr hslot)))]

theorem blockComponentRestart_driver (b : BlockComponent) (created : Bool) :
    (blockComponentRestart b .driver created).2 = b := by
  unfold blockComponentRestart
  rw [if_pos (Or.inl (by decide))]

/-! ### Single events -/

section Events

variable (b : BlockComponent)

theorem driverStep_request (length : UInt32) : (driverStep b (.request length)).2 = b := by
  rw [driverStep]
  split_ifs
  · rfl
  · cases blockComponentRequest b .driver length <;> rfl

theorem driverStep_dmaRead (slot : Int32) (offset length : UInt32) :
    (driverStep b (.dmaRead slot offset length)).2 = b := by
  rw [driverStep]
  split_ifs
  · rfl
  · cases blockComponentDmaRead b .driver slot offset length <;> rfl

theorem driverStep_restart (created : Bool) : (driverStep b (.restart created)).2 = b :=
  blockComponentRestart_driver b created

theorem driverStep_complete (status : Int32) (bytes : List UInt8) :
    (driverStep b (.complete status bytes)).2 =
      if bytes.length > 512 then b else (blockComponentComplete b .driver status bytes).2 := by
  rw [driverStep]
  split_ifs <;> rfl

theorem driverStep_dmaWrite (slot : Int32) (offset : UInt32) (bytes : List UInt8) :
    (driverStep b (.dmaWrite slot offset bytes)).2 =
      if bytes.length > 4096 then b
      else (blockComponentDmaWrite b .driver slot offset bytes).2 := by
  rw [driverStep]
  split_ifs <;> rfl

theorem driverStep_submit (slot : Int32) (bytes : List UInt8) (answer : DeviceAnswer) :
    (driverStep b (.submit slot bytes answer)).2 =
      if bytes.length > 36 then b else (blockComponentSubmit b .driver slot bytes answer).2 := by
  rw [driverStep]
  split_ifs <;> rfl

end Events

/-- An event that is not a submission through the driver's slot. -/
def NoSubmit (e : DriverEvent) : Prop :=
  ∀ slot bytes answer, e = .submit slot bytes answer → ¬ (slot = 0 ∧ bytes.length ≤ 36)

variable {e : DriverEvent}

/-- Before a submit the driver moves only the device. -/
theorem driverStep_before (hauth : driverAuthorized b .driver 0 = true)
    (hsubmitted : b.submitted = false) (he : NoSubmit e) :
    (driverStep b e).2 = { b with device := deviceAfter b.device [e] } := by
  cases e with
  | request length => exact driverStep_request b length
  | complete status bytes =>
    rw [driverStep_complete]
    split_ifs
    · rfl
    · unfold blockComponentComplete
      rw [if_pos (by simp [hsubmitted])]
      rfl
  | dmaRead slot offset length => exact driverStep_dmaRead b slot offset length
  | dmaWrite slot offset bytes =>
    rw [driverStep_dmaWrite]
    unfold blockComponentDmaWrite deviceAfter deviceAfter
    rw [driverAuthorized_slot hauth]
    by_cases hlength : bytes.length > 4096
    · rw [if_pos hlength, if_neg (by omega)]
    · rw [if_neg hlength]
      by_cases hslot : slot = 0
      · rw [if_neg (by simp [hslot, hsubmitted]), if_pos ⟨hslot, by omega⟩]
        cases virtioBlkDmaWrite b.device offset bytes <;> rfl
      · rw [if_pos (Or.inl (by simp [hslot])), if_neg (fun h => hslot h.1)]
  | submit slot bytes answer =>
    have hne := he slot bytes answer rfl
    rw [driverStep_submit]
    split_ifs
    · rfl
    · have hslot : slot ≠ 0 := fun hslot => hne ⟨hslot, by omega⟩
      unfold blockComponentSubmit
      rw [driverAuthorized_slot hauth, if_pos (Or.inl (by simp [hslot]))]
      rfl
  | restart created => exact driverStep_restart b created
  | device dma => rfl

theorem driverStep_first (hauth : driverAuthorized b .driver 0 = true)
    (hsubmitted : b.submitted = false) {bytes : List UInt8} (hlength : bytes.length ≤ 36)
    (answer : DeviceAnswer) : (driverStep b (.submit 0 bytes answer)).2 =
      { b with
        submitted := true
        device := (virtioBlkSubmit b.device bytes b.operation b.requestSector answer).2 } := by
  rw [driverStep_submit, if_neg (by omega)]
  unfold blockComponentSubmit
  rw [if_neg (by simp [hauth, hsubmitted])]

/-- What an event does to the completion of a request that was submitted. -/
def Completes (b b' : BlockComponent) (e : DriverEvent) : Prop :=
  SameRequest b b' ∧ b'.submitted = true ∧
    ((b'.completed = b.completed ∧ b'.responseStatus = b.responseStatus ∧
        (b.completed = true ∨ firstCompletion b.operation [e] = none)) ∨
      (b.completed = false ∧ b'.completed = true ∧
        firstCompletion b.operation [e] = some b'.responseStatus))

/-- After a submit an event leaves the request as it was or completes it. -/
theorem driverStep_after (hauth : driverAuthorized b .driver 0 = true)
    (hsubmitted : b.submitted = true) (e : DriverEvent) : Completes b (driverStep b e).2 e := by
  have hkeep : (driverStep b e).2 = b → firstCompletion b.operation [e] = none →
      Completes b (driverStep b e).2 e := by
    intro hsame he
    rw [hsame]
    exact ⟨SameRequest.refl b, hsubmitted, Or.inl ⟨rfl, rfl, Or.inr he⟩⟩
  cases e with
  | request length => exact hkeep (driverStep_request b length) rfl
  | complete status bytes =>
    have hfirst : firstCompletion b.operation [.complete status bytes] =
        if completionValid b.operation status bytes.length then some status else none := rfl
    cases hvalid : completionValid b.operation status bytes.length with
    | false =>
      refine hkeep ?_ (by rw [hfirst, hvalid]; rfl)
      rw [driverStep_complete]
      unfold blockComponentComplete
      rw [if_pos (Or.inr (Or.inr (Or.inr (by rw [hvalid]; rfl)))), ite_self]
    | true =>
      have hlength : ¬ bytes.length > 512 := by
        intro h
        rw [completionValid, decide_eq_true h, Bool.or_true] at hvalid
        cases hvalid
      rw [driverStep_complete, if_neg hlength]
      unfold blockComponentComplete
      cases hcompleted : b.completed with
      | true =>
        rw [if_pos (Or.inr (Or.inl rfl))]
        exact ⟨SameRequest.refl b, hsubmitted, Or.inl ⟨rfl, rfl, Or.inl hcompleted⟩⟩
      | false =>
        rw [if_neg (by simp [hauth, hsubmitted, hvalid])]
        refine ⟨⟨rfl, rfl, rfl, rfl, rfl, rfl⟩, hsubmitted, Or.inr ⟨hcompleted, rfl, ?_⟩⟩
        rw [hfirst, if_pos hvalid]
  | dmaRead slot offset length => exact hkeep (driverStep_dmaRead b slot offset length) rfl
  | dmaWrite slot offset bytes =>
    refine hkeep ?_ rfl
    rw [driverStep_dmaWrite]
    unfold blockComponentDmaWrite
    rw [if_pos (Or.inr hsubmitted), ite_self]
  | submit slot bytes answer =>
    refine hkeep ?_ rfl
    rw [driverStep_submit]
    unfold blockComponentSubmit
    rw [if_pos (Or.inr hsubmitted), ite_self]
  | restart created => exact hkeep (driverStep_restart b created) rfl
  | device dma =>
    exact ⟨⟨rfl, rfl, rfl, rfl, rfl, rfl⟩, hsubmitted, Or.inl ⟨rfl, rfl, Or.inr rfl⟩⟩

/-! ### Whole runs of the driver -/

theorem deviceAfter_cons (d : VirtioBlk) (e : DriverEvent) (rest : List DriverEvent) :
    deviceAfter d (e :: rest) = deviceAfter (deviceAfter d [e]) rest := by
  cases e <;> rfl

theorem firstCompletion_cons (operation : UInt32) (e : DriverEvent) (rest : List DriverEvent) :
    firstCompletion operation (e :: rest) =
      (firstCompletion operation [e]).or (firstCompletion operation rest) := by
  cases e with
  | complete status bytes =>
    rw [firstCompletion, firstCompletion]
    split_ifs <;> rfl
  | _ => rfl

theorem driverEvents_before : ∀ {events : List DriverEvent} {b : BlockComponent},
    driverAuthorized b .driver 0 = true → b.submitted = false → (∀ e ∈ events, NoSubmit e) →
    driverEvents b events = { b with device := deviceAfter b.device events }
  | [], _, _, _, _ => rfl
  | e :: events, b, hauth, hsubmitted, he => by
    have hstep := driverStep_before hauth hsubmitted (he e List.mem_cons_self)
    show driverEvents (driverStep b e).2 events = _
    rw [hstep, deviceAfter_cons b.device e events]
    exact @driverEvents_before events { b with device := deviceAfter b.device [e] } hauth
      hsubmitted fun e' h => he e' (List.mem_cons_of_mem _ h)

theorem driverEvents_after : ∀ {events : List DriverEvent} {b : BlockComponent},
    driverAuthorized b .driver 0 = true → b.submitted = true →
    ((driverEvents b events).completed = true ∧ (driverEvents b events).responseStatus = 0 ↔
      if b.completed then b.responseStatus = 0 else firstCompletion b.operation events = some 0)
  | [], b, _, _ => by
    show b.completed = true ∧ b.responseStatus = 0 ↔ _
    cases b.completed <;> simp [firstCompletion]
  | e :: events, b, hauth, hsubmitted => by
    obtain ⟨hsame, hsubmitted', hcompletes⟩ := driverStep_after hauth hsubmitted e
    have ih := @driverEvents_after events (driverStep b e).2 (by rw [hsame.authorized, hauth])
      hsubmitted'
    show (driverEvents (driverStep b e).2 events).completed = true ∧ _ ↔ _
    refine ih.trans ?_
    rw [firstCompletion_cons, hsame.operation]
    rcases hcompletes with ⟨hc, hr, hdone | hnone⟩ | ⟨hc, hc', hfirst⟩
    · rw [hc, hr, hdone]
      rfl
    · rw [hc, hr, hnone, Option.none_or]
    · rw [hc, hc', hfirst]
      simp

theorem firstSubmit_eq_none : ∀ {events : List DriverEvent}, firstSubmit events = none →
    ∀ e ∈ events, NoSubmit e
  | [], _, e, he => absurd he List.not_mem_nil
  | e' :: events, h, e, he => by
    have hrest : firstSubmit events = none ∧ NoSubmit e' := by
      cases e' with
      | submit slot bytes answer =>
        unfold firstSubmit at h
        split_ifs at h with hslot
        refine ⟨Option.map_eq_none_iff.mp h, fun slot' bytes' answer' heq => ?_⟩
        cases heq
        exact hslot
      | _ => exact ⟨Option.map_eq_none_iff.mp h, fun _ _ _ heq => by cases heq⟩
    rcases List.mem_cons.mp he with rfl | he
    · exact hrest.2
    · exact firstSubmit_eq_none hrest.1 e he

theorem firstSubmit_eq_some : ∀ {events : List DriverEvent} {f : FirstSubmit},
    firstSubmit events = some f →
    events = f.before ++ .submit 0 f.descriptors f.answer :: f.after ∧
      f.descriptors.length ≤ 36 ∧ ∀ e ∈ f.before, NoSubmit e
  | e' :: events, f, h => by
    have hcons : (∃ f', firstSubmit events = some f' ∧ f = f'.cons e' ∧ NoSubmit e') ∨
        ∃ bytes answer, e' = .submit 0 bytes answer ∧ bytes.length ≤ 36 ∧
          f = ⟨[], bytes, answer, events⟩ := by
      cases e' with
      | submit slot bytes answer =>
        unfold firstSubmit at h
        split_ifs at h with hslot
        · obtain ⟨rfl, hlength⟩ := hslot
          exact Or.inr ⟨bytes, answer, rfl, hlength, (Option.some.inj h).symm⟩
        · obtain ⟨f', hf', rfl⟩ := Option.map_eq_some_iff.mp h
          refine Or.inl ⟨f', hf', rfl, fun slot' bytes' answer' heq => ?_⟩
          cases heq
          exact hslot
      | _ =>
        obtain ⟨f', hf', rfl⟩ := Option.map_eq_some_iff.mp h
        exact Or.inl ⟨f', hf', rfl, fun _ _ _ heq => by cases heq⟩
    rcases hcons with ⟨f', hf', rfl, he'⟩ | ⟨bytes, answer, rfl, hlength, rfl⟩
    · obtain ⟨hsplit, hlength, hbefore⟩ := firstSubmit_eq_some hf'
      refine ⟨by rw [hsplit]; rfl, hlength, fun e he => ?_⟩
      rcases List.mem_cons.mp he with rfl | he
      · exact he'
      · exact hbefore e he
    · exact ⟨rfl, hlength, fun e he => absurd he List.not_mem_nil⟩

/-- **What makes a request complete**: the first completion after the first submission has status
`0`, whatever became of the submission. -/
theorem driverEvents_completed (hauth : driverAuthorized b .driver 0 = true)
    (hsubmitted : b.submitted = false) (hcompleted : b.completed = false)
    (events : List DriverEvent) :
    (driverEvents b events).completed = true ∧ (driverEvents b events).responseStatus = 0 ↔
      ∃ f, firstSubmit events = some f ∧ firstCompletion b.operation f.after = some 0 := by
  cases hfirst : firstSubmit events with
  | none =>
    rw [driverEvents_before hauth hsubmitted (firstSubmit_eq_none hfirst)]
    simp [hcompleted]
  | some f =>
    obtain ⟨hsplit, hlength, hbefore⟩ := firstSubmit_eq_some hfirst
    have hrun : driverEvents b events = driverEvents { b with
        submitted := true
        device := (virtioBlkSubmit (deviceAfter b.device f.before) f.descriptors b.operation
          b.requestSector f.answer).2 } f.after := by
      rw [hsplit, driverEvents, List.foldl_append, List.foldl_cons]
      change driverEvents (driverStep (driverEvents b f.before) _).2 f.after = _
      rw [driverEvents_before hauth hsubmitted hbefore,
        @driverStep_first { b with device := deviceAfter b.device f.before } hauth hsubmitted _
          hlength]
    rw [hrun]
    refine (@driverEvents_after f.after { b with
        submitted := true
        device := (virtioBlkSubmit (deviceAfter b.device f.before) f.descriptors b.operation
          b.requestSector f.answer).2 } hauth rfl).trans ?_
    rw [if_neg (by simp [hcompleted])]
    simp

/-! ### Requests -/

/-- The `virtio_blk_submit` call that an event leads to: its operation and sector, and whether it
succeeds. -/
def submission (b : BlockComponent) : DriverEvent → Option (UInt32 × UInt64 × Bool)
  | .submit slot bytes answer =>
    if bytes.length > 36 ∨ !driverAuthorized b .driver slot ∨ b.submitted then none
    else some (b.operation, b.requestSector,
      (virtioBlkSubmit b.device bytes b.operation b.requestSector answer).1)
  | _ => none

/-- While the driver serves a request, a submission with its operation and sector succeeds. -/
def Performed (io : BlockIo) (b : BlockComponent) (supervisor : SupervisorRun) (run : DriverRun) :
    Prop :=
  ∃ before e after, run.events = before ++ e :: after ∧
    submission (driverEvents
      (startRequest (ensureRunning b supervisor).2 io.type io.sector io.input) before) e =
        some (io.type, io.sector, true)

/-- The request is handed to a driver that may act on it. -/
def reachesDriver (io : BlockIo) (b : BlockComponent) (supervisor : SupervisorRun) : Bool :=
  !b.busy && io.sector < b.device.capacity && (ensureRunning b supervisor).1 &&
    driverAuthorized { (ensureRunning b supervisor).2 with busy := true } .driver 0

/-- A driver that does not report success for a submission that the kernel or the device rejects. -/
def DriverHonest (io : BlockIo) (b : BlockComponent) (supervisor : SupervisorRun)
    (run : DriverRun) : Prop :=
  reachesDriver io b supervisor = true → run.ok = true → ∀ f, firstSubmit run.events = some f →
    firstCompletion io.type f.after = some 0 →
      submissionValid (deviceAfter b.device f.before) f.descriptors io.type io.sector = true ∧
        f.answer.done = true

theorem blockComponentRestart_device (b : BlockComponent) (caller : BlockCaller) (created : Bool) :
    (blockComponentRestart b caller created).2.device = b.device := by
  unfold blockComponentRestart
  dsimp only
  cases instantiateTable 1 with
  | none => split_ifs <;> rfl
  | some table => split_ifs <;> rfl

theorem ensureRunning_device (b : BlockComponent) (supervisor : SupervisorRun) :
    (ensureRunning b supervisor).2.device = b.device := by
  have hrestarts : ∀ (l : List Bool) (b : BlockComponent), (l.foldl (fun b created =>
      (blockComponentRestart b .supervisor created).2) b).device = b.device := by
    intro l
    induction l with
    | nil => exact fun _ => rfl
    | cons created l ih =>
      intro b
      rw [List.foldl_cons, ih, blockComponentRestart_device]
  unfold ensureRunning
  split_ifs
  · rfl
  · exact hrestarts _ _

theorem virtioBlkSubmit_iff (d : VirtioBlk) (descriptors : List UInt8) (operation : UInt32)
    (sector : UInt64) (answer : DeviceAnswer) :
    (virtioBlkSubmit d descriptors operation sector answer).1 = true ↔
      submissionValid d descriptors operation sector = true ∧ answer.done = true := by
  unfold virtioBlkSubmit
  cases submissionValid d descriptors operation sector <;> cases answer.done <;> simp

theorem submission_of_submitted (hauth : driverAuthorized b .driver 0 = true)
    (hsubmitted : b.submitted = true) (before : List DriverEvent) (e : DriverEvent) :
    submission (driverEvents b before) e = none := by
  induction before generalizing b with
  | nil =>
    cases e with
    | submit slot bytes answer => exact if_pos (Or.inr (Or.inr hsubmitted))
    | _ => rfl
  | cons e' before ih =>
    obtain ⟨hsame, hsubmitted', -⟩ := driverStep_after hauth hsubmitted e'
    exact ih (by rw [hsame.authorized, hauth]) hsubmitted'

theorem firstSubmit_cons_of_noSubmit (he : NoSubmit e) (events : List DriverEvent) :
    firstSubmit (e :: events) = (firstSubmit events).map (FirstSubmit.cons e) := by
  cases e with
  | submit slot bytes answer => exact if_neg (he slot bytes answer rfl)
  | _ => rfl

/-- A run with an accepted submission has a first submit, and it is accepted. -/
theorem firstSubmit_of_submission {before after : List DriverEvent} :
    ∀ {b : BlockComponent}, driverAuthorized b .driver 0 = true →
      b.submitted = false → submission (driverEvents b before) e =
        some (b.operation, b.requestSector, true) →
      ∃ f, firstSubmit (before ++ e :: after) = some f ∧
        (virtioBlkSubmit (deviceAfter b.device f.before) f.descriptors b.operation b.requestSector
          f.answer).1 = true := by
  induction before with
  | nil =>
    intro b hauth hsubmitted h
    cases e with
    | submit slot bytes answer =>
      change (if bytes.length > 36 ∨ !driverAuthorized b .driver slot ∨ b.submitted then none
        else some _) = some _ at h
      split_ifs at h with hrefused
      rw [not_or, not_or, driverAuthorized_slot hauth] at hrefused
      obtain ⟨hlength, hslot, -⟩ := hrefused
      simp only [Bool.not_eq_true', decide_eq_false_iff_not, not_not] at hslot
      refine ⟨⟨[], bytes, answer, after⟩, if_pos ⟨hslot, by omega⟩, ?_⟩
      exact (Prod.mk.inj (Prod.mk.inj (Option.some.inj h)).2).2
    | _ => cases h
  | cons e' before ih =>
    intro b hauth hsubmitted h
    change submission (driverEvents (driverStep b e').2 before) e = _ at h
    by_cases he' : NoSubmit e'
    · rw [driverStep_before hauth hsubmitted he'] at h
      obtain ⟨f, hf, hok⟩ := @ih { b with device := deviceAfter b.device [e'] } hauth hsubmitted h
      refine ⟨f.cons e', ?_, ?_⟩
      · rw [List.cons_append, firstSubmit_cons_of_noSubmit he', hf]
        rfl
      · show (virtioBlkSubmit (deviceAfter b.device (e' :: f.before)) _ _ _ _).1 = true
        rw [deviceAfter_cons]
        exact hok
    · -- the driver has submitted already
      unfold NoSubmit at he'
      push Not at he'
      obtain ⟨slot, bytes, answer, rfl, rfl, hlength⟩ := he'
      rw [driverStep_first hauth hsubmitted hlength,
        @submission_of_submitted { b with submitted := true, device := _ } hauth rfl] at h
      cases h

theorem submission_of_firstSubmit (hauth : driverAuthorized b .driver 0 = true)
    (hsubmitted : b.submitted = false) {events : List DriverEvent} {f : FirstSubmit}
    (hf : firstSubmit events = some f)
    (hok : (virtioBlkSubmit (deviceAfter b.device f.before) f.descriptors b.operation
      b.requestSector f.answer).1 = true) :
    submission (driverEvents b f.before) (.submit 0 f.descriptors f.answer) =
      some (b.operation, b.requestSector, true) := by
  obtain ⟨-, hlength, hbefore⟩ := firstSubmit_eq_some hf
  rw [driverEvents_before hauth hsubmitted hbefore, submission, if_neg]
  · dsimp only
    rw [hok]
  · rw [not_or, not_or]
    refine ⟨by omega, ?_, by simp [hsubmitted]⟩
    rw [show driverAuthorized { b with device := deviceAfter b.device f.before } .driver 0 = true
      from hauth]
    decide

theorem authorized_startRequest (b : BlockComponent) (io : BlockIo) :
    driverAuthorized (startRequest b io.type io.sector io.input) .driver 0 =
      driverAuthorized { b with busy := true } .driver 0 := rfl

theorem performed_iff {io : BlockIo} {supervisor : SupervisorRun} {run : DriverRun}
    (hreach : reachesDriver io b supervisor = true) :
    Performed io b supervisor run ↔ ∃ f, firstSubmit run.events = some f ∧
      submissionValid (deviceAfter b.device f.before) f.descriptors io.type io.sector = true ∧
        f.answer.done = true := by
  have hauth : driverAuthorized (startRequest (ensureRunning b supervisor).2 io.type io.sector
      io.input) .driver 0 = true := by
    simp only [reachesDriver, Bool.and_eq_true] at hreach
    exact hreach.2
  have hdevice : (startRequest (ensureRunning b supervisor).2 io.type io.sector io.input).device =
      b.device := ensureRunning_device b supervisor
  constructor
  · rintro ⟨before, e, after, hevents, h⟩
    obtain ⟨f, hf, hok⟩ := @firstSubmit_of_submission e before after _ hauth rfl h
    rw [hdevice] at hok
    exact ⟨f, by rw [hevents, hf], (virtioBlkSubmit_iff _ _ _ _ _).mp hok⟩
  · rintro ⟨f, hf, hok⟩
    refine ⟨f.before, _, f.after, (firstSubmit_eq_some hf).1, ?_⟩
    refine submission_of_firstSubmit hauth rfl hf ?_
    rw [hdevice]
    exact (virtioBlkSubmit_iff _ _ _ _ _).mpr hok

/-- A driver without authority changes nothing; the device may write to the page. -/
theorem driverStep_unauthorized (hauth : driverAuthorized b .driver 0 = false) (e : DriverEvent) :
    ∃ d, (driverStep b e).2 = { b with device := d } := by
  have hslot : ∀ slot, driverAuthorized b .driver slot = false := by
    intro slot
    by_cases h : slot = 0
    · rw [h, hauth]
    · rw [driverAuthorized, if_pos (Or.inr (Or.inr (Or.inr h)))]
  cases e with
  | request length => exact ⟨b.device, driverStep_request b length⟩
  | complete status bytes =>
    refine ⟨b.device, ?_⟩
    rw [driverStep_complete, blockComponentComplete, if_pos (Or.inl (by rw [hauth]; rfl)), ite_self]
  | dmaRead slot offset length => exact ⟨b.device, driverStep_dmaRead b slot offset length⟩
  | dmaWrite slot offset bytes =>
    refine ⟨b.device, ?_⟩
    rw [driverStep_dmaWrite, blockComponentDmaWrite, if_pos (Or.inl (by rw [hslot]; rfl)), ite_self]
  | submit slot bytes answer =>
    refine ⟨b.device, ?_⟩
    rw [driverStep_submit, blockComponentSubmit, if_pos (Or.inl (by rw [hslot]; rfl)), ite_self]
  | restart created => exact ⟨b.device, driverStep_restart b created⟩
  | device dma => exact ⟨{ b.device with dma := dma }, rfl⟩

theorem driverEvents_unauthorized (hauth : driverAuthorized b .driver 0 = false)
    (events : List DriverEvent) : (driverEvents b events).completed = b.completed := by
  induction events generalizing b with
  | nil => rfl
  | cons e events ih =>
    obtain ⟨d, hd⟩ := driverStep_unauthorized hauth e
    show (driverEvents (driverStep b e).2 events).completed = b.completed
    rw [hd]
    exact @ih { b with device := d } hauth

/-- A request succeeds when its first submit completes with status zero. -/
theorem virtioBlkIo_isSome (io : BlockIo) (b : BlockComponent) (supervisor : SupervisorRun)
    (run : DriverRun) : (virtioBlkIo io b supervisor run).1.isSome = true ↔
      reachesDriver io b supervisor = true ∧ run.ok = true ∧
        ∃ f, firstSubmit run.events = some f ∧ firstCompletion io.type f.after = some 0 := by
  unfold virtioBlkIo blockRequest reachesDriver
  split
  · rename_i hrefused
    refine ⟨fun h => (by cases h), ?_⟩
    rintro ⟨h, -⟩
    simp only [Bool.and_eq_true, Bool.not_eq_true', decide_eq_true_eq] at h
    obtain ⟨⟨⟨hbusy, hsector⟩, -⟩, -⟩ := h
    rcases hrefused with h | h
    · rw [hbusy] at h
      cases h
    · exact absurd hsector (UInt64.not_lt.mpr h)
  rename_i hrefused
  rw [not_or, ge_iff_le, UInt64.not_le, Bool.not_eq_true] at hrefused
  obtain ⟨hbusy, hsector⟩ := hrefused
  rw [hbusy, decide_eq_true hsector]
  rcases ensureRunning b supervisor with ⟨started, b₁⟩
  cases started with
  | false => simp
  | true =>
    have hdone : ∀ b₂ : BlockComponent, (let b := { b₂ with busy := false }
        let b := if !run.ok ∨ !b.completed then { b with alive := false } else b
        if !run.ok ∨ !b.completed ∨ b.responseStatus ≠ 0 then (none, b)
        else (some b.responseBytes, b)).1.isSome = true ↔
          run.ok = true ∧ b₂.completed = true ∧ b₂.responseStatus = 0 := by
      intro b₂
      cases run.ok <;> cases b₂.completed <;> by_cases h : b₂.responseStatus = 0 <;> simp [h]
    rw [hdone]
    dsimp only
    rw [← authorized_startRequest b₁ io]
    cases hauth : driverAuthorized (startRequest b₁ io.type io.sector io.input) .driver 0 with
    | false =>
      rw [driverEvents_unauthorized hauth]
      simp [startRequest]
    | true =>
      rw [driverEvents_completed hauth rfl rfl]
      simp [startRequest]

/-- **When the kernel believes only what was done**: a read, write or flush is reported done only if
a submission with its operation and sector succeeded during the request, exactly for the drivers
that do not report success for a rejected submission. -/
theorem block_io_performed_iff (io : BlockIo) (b : BlockComponent) (supervisor : SupervisorRun)
    (run : DriverRun) :
    ((virtioBlkIo io b supervisor run).1.isSome = true → Performed io b supervisor run) ↔
      DriverHonest io b supervisor run := by
  rw [virtioBlkIo_isSome]
  unfold DriverHonest
  constructor
  · intro h hreach hok f hf hcompletion
    obtain ⟨f', hf', hvalid⟩ := (performed_iff hreach).mp (h ⟨hreach, hok, f, hf, hcompletion⟩)
    rw [hf] at hf'
    cases hf'
    exact hvalid
  · rintro h ⟨hreach, hok, f, hf, hcompletion⟩
    exact (performed_iff hreach).mpr ⟨f, hf, h hreach hok f hf hcompletion⟩

/-- A driver that is running, and a disk of eight sectors. -/
def runningDriver : BlockComponent where
  driverTable := (instantiateTable 1).getD CapabilityTable.init
  supervisorTable := (instantiateTable 2).getD CapabilityTable.init
  generation := 1
  alive := true
  busy := false
  submitted := false
  completed := false
  requestBytes := List.replicate 528 0
  responseBytes := List.replicate 512 0
  operation := 0
  requestSector := 0
  responseStatus := 0
  device := ⟨true, 8, List.replicate 4096 0⟩

/-- The driver submits no descriptors at all, and completes the request. -/
def lazyRun : DriverRun := ⟨[.submit 0 [] ⟨true, []⟩, .complete 0 []], true⟩

/-- A flush that is reported done although the only submission was rejected. -/
theorem flush_reported_without_submission :
    ¬ ∀ (io : BlockIo) (b : BlockComponent) (supervisor : SupervisorRun) (run : DriverRun),
      (virtioBlkIo io b supervisor run).1.isSome = true → Performed io b supervisor run := by
  intro h
  have hconcrete : (virtioBlkIo .flush runningDriver ⟨[], true⟩ lazyRun).1.isSome = true ∧
      reachesDriver .flush runningDriver ⟨[], true⟩ = true ∧
      (firstSubmit lazyRun.events).all (fun f =>
        !submissionValid (deviceAfter runningDriver.device f.before) f.descriptors
          BlockIo.flush.type BlockIo.flush.sector) = true := by
    decide +kernel
  obtain ⟨hdone, hreach, hinvalid⟩ := hconcrete
  obtain ⟨f, hf, hvalid, -⟩ := (performed_iff hreach).mp (h _ _ _ _ hdone)
  rw [hf, Option.all_some, hvalid] at hinvalid
  cases hinvalid

end Jani
