import Jani.Wasm.Equiv.Component

/-!
# The mailbox is a bounded queue

The abstract mailbox is a list of messages, each with a payload and perhaps a slot (`MailMessage`).
A push appends a message if the bytes of all messages fit into the buffer, a pop removes the first
one, stripping a slot removes it from the messages that carry it, and saving and restoring the
instance state does nothing (`queueStep`).

The bytes of a component simulate this queue (`Queued`): every call takes a mailbox that holds the
messages of a queue to one that holds those of the next queue (`Queued.step`), and answers what the
queue answers (`Queued.push_eq`, `Queued.pop_cons`).  `mailbox_is_queue` is the result for whole
runs.
-/

namespace Jani

structure MailMessage where
  payload : List UInt8
  slot : Option Slot
deriving DecidableEq, Repr

/-- The word that stands for an attached slot; `-1` says that there is none. -/
def slotWord : Option Slot → UInt32
  | none => capSlotNone
  | some i => i.word

namespace MailMessage

def frame (m : MailMessage) : MailFrame := ⟨m.payload, slotWord m.slot⟩

/-- The bytes a message takes in the mailbox. -/
def size (m : MailMessage) : Nat := 8 + m.payload.length

/-- The message without the slot. -/
def detach (slot : UInt32) (m : MailMessage) : MailMessage :=
  if slotWord m.slot = slot then { m with slot := none } else m

theorem frame_detach (slot : UInt32) (m : MailMessage) :
    (m.detach slot).frame = m.frame.detach slot := by
  unfold detach MailFrame.detach
  by_cases h : slotWord m.slot = slot
  · rw [if_pos h, if_pos (show m.frame.slot = slot from h)]
    rfl
  · rw [if_neg h, if_neg (show ¬ m.frame.slot = slot from h)]

end MailMessage

def queueSize (queue : List MailMessage) : Nat := (queue.map MailMessage.size).sum

/-! ### Calls -/

/-- A call on the mailbox.  `reload` saves the instance state and restores it into a component with
a memory of the given size. -/
inductive MailCall where
  | push (payload : List UInt8) (slot : Option Slot)
  | pop (capacity : Nat)
  | strip (slot : UInt32)
  | reload (target : Component) (memorySize : Nat)

/-- The component after a call; one that fails leaves it as it was. -/
def mailStep (c : Component) : MailCall → Component
  | .push payload slot => match componentMailboxPush c.mailbox payload (slotWord slot) with
    | none => c
    | some mailbox => { c with mailbox := mailbox }
  | .pop capacity => match componentMailboxPop c.mailbox capacity with
    | none => c
    | some (_, _, mailbox) => { c with mailbox := mailbox }
  | .strip slot => { c with mailbox := (stripAttachment c.mailbox slot).2 }
  | .reload target memorySize => match instanceStateSerialize c with
    | none => c
    | some bytes => (instanceStateDeserialize target memorySize bytes).getD c

def mailRun (c : Component) (calls : List MailCall) : Component := calls.foldl mailStep c

/-- What a call means for the messages in the mailbox. -/
def queueStep (queue : List MailMessage) : MailCall → List MailMessage
  | .push payload slot =>
    if queueSize queue + (8 + payload.length) ≤ componentMailboxBytes then
      queue ++ [⟨payload, slot⟩]
    else queue
  | .pop capacity => match queue with
    | [] => []
    | m :: rest => if m.payload.length ≤ capacity then rest else m :: rest
  | .strip slot => queue.map (MailMessage.detach slot)
  | .reload _ _ => queue

def queueRun (calls : List MailCall) : List MailMessage := calls.foldl queueStep []

/-! ### The simulation -/

/-- The mailbox holds the messages of the queue. -/
structure Queued (mailbox : List UInt8) (queue : List MailMessage) : Prop where
  valid : componentMailboxValidate mailbox = true
  frames : mailFrames mailbox = queue.map MailMessage.frame

theorem queued_nil : Queued [] [] := ⟨rfl, rfl⟩

section Queued

variable {mailbox : List UInt8} {queue : List MailMessage}

theorem Queued.length_eq (h : Queued mailbox queue) : mailbox.length = queueSize queue := by
  obtain ⟨-, hbytes, -⟩ := (componentMailboxValidate_iff mailbox).mp h.valid
  rw [hbytes, h.frames, mailBytes, List.length_flatMap, List.map_map, queueSize]
  refine congrArg List.sum (List.map_congr_left fun m _ => ?_)
  exact m.frame.length_bytes

theorem Queued.length_le (h : Queued mailbox queue) : mailbox.length ≤ componentMailboxBytes :=
  ((componentMailboxValidate_iff mailbox).mp h.valid).1

theorem slotWord_ok (slot : Option Slot) :
    slotWord slot = capSlotNone ∨ ∃ i, slotWord slot = Slot.word i := by
  cases slot with
  | none => exact Or.inl rfl
  | some i => exact Or.inr ⟨i, rfl⟩

/-- **A push fails when header and payload do not fit**, and otherwise appends the message. -/
theorem Queued.push_eq (h : Queued mailbox queue) (payload : List UInt8) (slot : Option Slot) :
    if queueSize queue + (8 + payload.length) ≤ componentMailboxBytes then
      ∃ mailbox', componentMailboxPush mailbox payload (slotWord slot) = some mailbox' ∧
        Queued mailbox' (queue ++ [⟨payload, slot⟩])
    else componentMailboxPush mailbox payload (slotWord slot) = none := by
  have hle := h.length_le
  have hlength := h.length_eq
  rw [← hlength]
  unfold componentMailboxBytes at hle
  split_ifs with hfits
  · unfold componentMailboxBytes at hfits
    have hpush : componentMailboxPush mailbox payload (slotWord slot) = some (mailbox ++
        (le32 (UInt32.ofNat payload.length) ++ (le32 (slotWord slot) ++ payload))) := by
      unfold componentMailboxPush componentMailboxBytes
      rw [if_neg (by omega), if_neg (by omega)]
    obtain ⟨hvalid, hframes⟩ := push_valid h.valid (slotWord_ok slot) hpush
    refine ⟨_, hpush, hvalid, ?_⟩
    rw [hframes, h.frames, List.map_append]
    rfl
  · unfold componentMailboxPush
    unfold componentMailboxBytes at hfits ⊢
    by_cases hlarge : mailbox.length > 4096 ∨ payload.length > 4096 - 8
    · rw [if_pos hlarge]
    · rw [if_neg hlarge, if_pos (by omega)]

theorem Queued.pop_nil (h : Queued mailbox []) (capacity : Nat) :
    componentMailboxPop mailbox capacity = none := by
  have hlength := h.length_eq
  unfold componentMailboxPop
  rw [if_pos (Or.inr (by rw [hlength]; decide))]

/-- **A pop takes the head of the queue away** and returns it, and fails if the head does not
fit. -/
theorem Queued.pop_cons {m : MailMessage} {rest : List MailMessage}
    (h : Queued mailbox (m :: rest)) (capacity : Nat) : if m.payload.length ≤ capacity then
      ∃ mailbox', componentMailboxPop mailbox capacity =
          some (m.payload, slotWord m.slot, mailbox') ∧ Queued mailbox' rest
    else componentMailboxPop mailbox capacity = none := by
  have hle := h.length_le
  obtain ⟨-, hbytes, hok⟩ := (componentMailboxValidate_iff mailbox).mp h.valid
  rw [h.frames, List.map_cons] at hbytes hok
  rw [mailBytes_cons] at hbytes
  have hsize : (u32At mailbox 0).toNat = m.payload.length := by
    rw [hbytes]
    exact MailFrame.u32At_length (hok _ List.mem_cons_self) _
  have hlength : mailbox.length =
      8 + m.payload.length + (mailBytes (rest.map MailMessage.frame)).length := by
    rw [hbytes, List.length_append, MailFrame.length_bytes]
    rfl
  split_ifs with hfits
  · have hpop : ∃ result, componentMailboxPop mailbox capacity = some result := by
      unfold componentMailboxPop
      rw [if_neg (by omega)]
      dsimp only
      rw [hsize, if_neg (by omega)]
      exact ⟨_, rfl⟩
    obtain ⟨⟨payload, slot, mailbox'⟩, hpop⟩ := hpop
    obtain ⟨hframes, hvalid⟩ := componentMailboxPop_eq_some h.valid hpop
    rw [h.frames, List.map_cons, List.cons.injEq] at hframes
    obtain ⟨hhead, htail⟩ := hframes
    cases hhead
    exact ⟨mailbox', hpop, hvalid, htail.symm⟩
  · unfold componentMailboxPop
    rw [if_neg (by omega)]
    dsimp only
    rw [hsize, if_pos (by omega)]

theorem Queued.strip (h : Queued mailbox queue) (slot : UInt32) :
    Queued (stripAttachment mailbox slot).2 (queue.map (MailMessage.detach slot)) := by
  obtain ⟨hvalid, hframes, -, -⟩ := mailFrames_strip h.valid slot
  refine ⟨hvalid, ?_⟩
  rw [hframes, h.frames, List.map_map, List.map_map]
  exact List.map_congr_left fun m _ => (m.frame_detach slot).symm

end Queued

/-- **One call keeps the simulation.** -/
theorem Queued.step {c : Component} {queue : List MailMessage} (h : Queued c.mailbox queue)
    (call : MailCall) : Queued (mailStep c call).mailbox (queueStep queue call) := by
  cases call with
  | push payload slot =>
    have hpush := h.push_eq payload slot
    rw [mailStep, queueStep]
    split_ifs at hpush ⊢ with hfits
    · obtain ⟨mailbox', heq, hqueued⟩ := hpush
      rw [heq]
      exact hqueued
    · rw [hpush]
      exact h
  | pop capacity =>
    rw [mailStep]
    cases queue with
    | nil =>
      rw [h.pop_nil]
      exact h
    | cons m rest =>
      have hpop := h.pop_cons capacity
      rw [queueStep]
      split_ifs at hpop ⊢ with hfits
      · obtain ⟨mailbox', heq, hqueued⟩ := hpop
        rw [heq]
        exact hqueued
      · rw [hpop]
        exact h
  | strip slot => exact h.strip slot
  | reload target memorySize =>
    rw [mailStep, queueStep]
    split
    · exact h
    rename_i bytes hsave
    by_cases hsize : c.memory.length ≤ memorySize
    · rw [deserialize_serialize hsave h.valid target hsize]
      exact h
    · rw [deserialize_serialize_small hsave h.valid target (Nat.lt_of_not_le hsize)]
      exact h

/-- **Every run keeps the simulation.** -/
theorem Queued.run {c : Component} (hempty : c.mailbox = []) (calls : List MailCall) :
    Queued (mailRun c calls).mailbox (queueRun calls) := by
  induction calls using List.reverseRecOn with
  | nil => exact hempty ▸ queued_nil
  | append_singleton calls call ih =>
    rw [mailRun, queueRun, List.foldl_append, List.foldl_append]
    exact ih.step call

/-- Every check comes before the first write, so that a failure leaves the component as it was. -/
theorem instanceStateDeserializeInto_run (target : Component) (memorySize : Nat)
    (bytes : List UInt8) : (instanceStateDeserializeInto memorySize bytes).run target =
      match instanceStateDeserialize target memorySize bytes with
      | none => (false, target)
      | some target' => (true, target') := by
  unfold instanceStateDeserializeInto instanceStateDeserialize
  split_ifs <;> rfl

/-- The component with an empty mailbox. -/
def Component.withoutMail (c : Component) : Component := { c with mailbox := [] }

/-- **The mailbox is a bounded queue that survives persistence.**  After any calls the mailbox is
valid and its frames are the messages of the queue, in order.  A push fails exactly if header and
payload do not fit into what is left of the buffer, a pop exactly if the queue is empty or its head
exceeds the capacity; a pop that succeeds returns the head; a call that fails changes nothing.  The
saved instance state is restored, into a memory that is large enough, and one that is too small is
refused; restoring any bytes either fails and leaves the component as it was, or succeeds. -/
theorem mailbox_is_queue (start : Component) (calls : List MailCall) :
    let c := mailRun start.withoutMail calls
    let queue := queueRun calls
    (componentMailboxValidate c.mailbox = true ∧
        mailFrames c.mailbox = queue.map MailMessage.frame) ∧
      (∀ payload slot,
        (componentMailboxPush c.mailbox payload (slotWord slot) = none ↔
          8 + payload.length > componentMailboxBytes - c.mailbox.length) ∧
        (componentMailboxPush c.mailbox payload (slotWord slot) = none →
          mailStep c (.push payload slot) = c)) ∧
      (∀ capacity,
        (componentMailboxPop c.mailbox capacity = none ↔
          queue = [] ∨ ∃ m rest, queue = m :: rest ∧ m.payload.length > capacity) ∧
        (∀ m rest, queue = m :: rest → m.payload.length ≤ capacity →
          ∃ mailbox, componentMailboxPop c.mailbox capacity =
            some (m.payload, slotWord m.slot, mailbox)) ∧
        (componentMailboxPop c.mailbox capacity = none → mailStep c (.pop capacity) = c)) ∧
      (∀ (target : Component) (memorySize : Nat), c.Fits →
        ∃ bytes, instanceStateSerialize c = some bytes ∧
          instanceStateDeserialize target memorySize bytes =
            if memorySize < c.memory.length then none
            else some { target with
              memory := c.memory ++ List.replicate (memorySize - c.memory.length) 0
              mailbox := c.mailbox
              logicalTime := c.logicalTime
              timerDeadline := c.timerDeadline
              timerArmed := c.timerArmed }) ∧
      ∀ (target : Component) (memorySize : Nat) (bytes : List UInt8),
        (instanceStateDeserializeInto memorySize bytes).run target =
          match instanceStateDeserialize target memorySize bytes with
          | none => (false, target)
          | some target' => (true, target') := by
  intro c queue
  have h : Queued c.mailbox queue := Queued.run rfl calls
  have hle := h.length_le
  refine ⟨⟨h.valid, h.frames⟩, fun payload slot => ⟨?_, fun hnone => ?_⟩,
    fun capacity => ⟨?_, fun m rest hqueue hfits => ?_, fun hnone => ?_⟩,
    fun target memorySize hfits => ?_, instanceStateDeserializeInto_run⟩
  · have hpush := h.push_eq payload slot
    rw [← h.length_eq] at hpush
    split_ifs at hpush with hfits
    · obtain ⟨mailbox', heq, -⟩ := hpush
      rw [heq]
      exact ⟨fun hnone => (by cases hnone), fun hlarge => (by omega)⟩
    · exact ⟨fun _ => (by omega), fun _ => hpush⟩
  · rw [mailStep, hnone]
  · generalize queue = messages at h
    cases messages with
    | nil => exact ⟨fun _ => Or.inl rfl, fun _ => h.pop_nil capacity⟩
    | cons m rest =>
      have hpop := h.pop_cons capacity
      split_ifs at hpop with hfits
      · obtain ⟨mailbox', heq, -⟩ := hpop
        rw [heq]
        refine ⟨fun hnone => (by cases hnone), fun hfail => ?_⟩
        obtain hnil | ⟨m', rest', hcons, hlarge⟩ := hfail
        · cases hnil
        · cases hcons
          omega
      · exact ⟨fun _ => Or.inr ⟨m, rest, rfl, Nat.lt_of_not_le hfits⟩, fun _ => hpop⟩
  · rw [hqueue] at h
    have hpop := h.pop_cons capacity
    rw [if_pos hfits] at hpop
    obtain ⟨mailbox', heq, -⟩ := hpop
    exact ⟨mailbox', heq⟩
  · rw [mailStep, hnone]
  · have hsave := instanceStateSerialize_of_fits hfits
    refine ⟨_, hsave, ?_⟩
    split_ifs with hsmall
    · exact deserialize_serialize_small hsave h.valid target hsmall
    · exact deserialize_serialize hsave h.valid target (Nat.not_lt.mp hsmall)

end Jani
