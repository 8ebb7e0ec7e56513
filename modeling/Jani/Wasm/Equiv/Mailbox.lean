import Jani.Wasm.Mailbox
import Jani.Cap.Equiv.CapTable

/-!
# Mailboxes as lists of frames

A mailbox that `component_mailbox_validate` accepts is the image of a list of frames
(`componentMailboxValidate_iff`), and `mailFrames` reads that list.  Pushing appends a frame,
popping takes the first one, and stripping a slot detaches it from the frames that name it and
leaves everything else alone (`mailFrames_strip`).
-/

namespace Jani

structure MailFrame where
  payload : List UInt8
  slot : UInt32
deriving DecidableEq, Repr

namespace MailFrame

def bytes (f : MailFrame) : List UInt8 :=
  le32 (UInt32.ofNat f.payload.length) ++ (le32 f.slot ++ f.payload)

/-- A frame a mailbox may hold. -/
def Ok (f : MailFrame) : Prop :=
  f.payload.length < 2 ^ 32 ∧ (f.slot = capSlotNone ∨ ∃ i, f.slot = Slot.word i)

/-- The frame without the attachment `slot`. -/
def detach (slot : UInt32) (f : MailFrame) : MailFrame :=
  if f.slot = slot then { f with slot := capSlotNone } else f

@[simp] theorem detach_payload (slot : UInt32) (f : MailFrame) :
    (f.detach slot).payload = f.payload := by
  unfold detach
  split_ifs <;> rfl

theorem Ok.detach {f : MailFrame} (h : f.Ok) (slot : UInt32) : (f.detach slot).Ok := by
  refine ⟨by rw [detach_payload]; exact h.1, ?_⟩
  unfold MailFrame.detach
  split_ifs
  · exact Or.inl rfl
  · exact h.2

@[simp] theorem length_bytes (f : MailFrame) : f.bytes.length = 8 + f.payload.length := by
  rw [bytes, List.length_append, List.length_append, length_le32, length_le32]
  omega

variable {f : MailFrame}

theorem u32At_length (hf : f.Ok) (r : List UInt8) :
    (u32At (f.bytes ++ r) 0).toNat = f.payload.length := by
  rw [bytes, List.append_assoc, u32At_le32_append]
  exact UInt32.toNat_ofNat_of_lt' hf.1

theorem u32At_slot (f : MailFrame) (r : List UInt8) : u32At (f.bytes ++ r) 4 = f.slot := by
  have hoff : (4 : Nat) = 4 + 0 := rfl
  rw [bytes, List.append_assoc, hoff, u32At_append_right (length_le32 _), List.append_assoc,
    u32At_le32_append]

theorem drop_frame (f : MailFrame) (r : List UInt8) :
    (f.bytes ++ r).drop (8 + f.payload.length) = r :=
  List.drop_left' f.length_bytes

theorem take_frame (f : MailFrame) (r : List UInt8) :
    (f.bytes ++ r).take (8 + f.payload.length) = f.bytes :=
  List.take_left' f.length_bytes

theorem writeAt_slot (f : MailFrame) (slot : UInt32) :
    writeAt f.bytes 4 (le32 slot) = { f with slot := slot }.bytes := by
  unfold writeAt bytes
  have hdrop : (le32 (UInt32.ofNat f.payload.length) ++ (le32 f.slot ++ f.payload)).drop
      (4 + (le32 slot).length) = f.payload := by
    rw [length_le32, ← List.append_assoc]
    exact List.drop_left' (by rw [List.length_append, length_le32, length_le32])
  rw [List.take_left' (length_le32 _), hdrop, List.append_assoc]

end MailFrame

/-- The bytes of a mailbox with the given frames. -/
def mailBytes (frames : List MailFrame) : List UInt8 := frames.flatMap MailFrame.bytes

theorem mailBytes_cons (f : MailFrame) (frames : List MailFrame) :
    mailBytes (f :: frames) = f.bytes ++ mailBytes frames := List.flatMap_cons

theorem mailBytes_append (frames frames' : List MailFrame) :
    mailBytes (frames ++ frames') = mailBytes frames ++ mailBytes frames' := List.flatMap_append

theorem mailBytes_cons_ne_nil (f : MailFrame) (frames : List MailFrame) :
    (mailBytes (f :: frames)).isEmpty = false := by
  rw [List.isEmpty_eq_false_iff, ← List.length_pos_iff, mailBytes_cons, List.length_append,
    f.length_bytes]
  omega

/-! ### Reading frames -/

/-- The frames from some frame on. -/
def framesFrom : Nat → List UInt8 → List MailFrame
  | 0, _ => []
  | fuel + 1, rest =>
    if rest.isEmpty then []
    else
      let size := (u32At rest 0).toNat
      ⟨(rest.drop 8).take size, u32At rest 4⟩ :: framesFrom fuel (rest.drop (8 + size))

/-- The frames of a mailbox. -/
def mailFrames (mailbox : List UInt8) : List MailFrame := framesFrom mailbox.length mailbox

theorem framesFrom_mailBytes : ∀ {fuel : Nat} {frames : List MailFrame},
    (∀ f ∈ frames, f.Ok) → (mailBytes frames).length ≤ fuel →
      framesFrom fuel (mailBytes frames) = frames
  | 0, [], _, _ => rfl
  | fuel + 1, [], _, _ => rfl
  | 0, f :: frames, _, hfuel => by
    rw [mailBytes_cons, List.length_append, f.length_bytes] at hfuel
    omega
  | fuel + 1, f :: frames, hok, hfuel => by
    obtain ⟨hf, hrest⟩ := List.forall_mem_cons.mp hok
    have hpayload : ((f.bytes ++ mailBytes frames).drop 8).take f.payload.length = f.payload := by
      rw [MailFrame.bytes, ← List.append_assoc, List.append_assoc, List.drop_left'
        (by rw [List.length_append, length_le32, length_le32]), List.take_left]
    rw [framesFrom, mailBytes_cons_ne_nil, if_neg (by decide), mailBytes_cons]
    rw [mailBytes_cons, List.length_append, f.length_bytes] at hfuel
    dsimp only
    rw [MailFrame.u32At_length hf, hpayload, f.u32At_slot, f.drop_frame,
      framesFrom_mailBytes hrest (by omega)]

theorem mailFrames_mailBytes {frames : List MailFrame} (hok : ∀ f ∈ frames, f.Ok) :
    mailFrames (mailBytes frames) = frames :=
  framesFrom_mailBytes hok le_rfl

/-! ### Validity -/

theorem mailboxFramesValid_mailBytes : ∀ {fuel : Nat} {frames : List MailFrame},
    (∀ f ∈ frames, f.Ok) → (mailBytes frames).length ≤ fuel →
      mailboxFramesValid fuel (mailBytes frames) = true
  | 0, [], _, _ => rfl
  | fuel + 1, [], _, _ => rfl
  | 0, f :: frames, _, hfuel => by
    rw [mailBytes_cons, List.length_append, f.length_bytes] at hfuel
    omega
  | fuel + 1, f :: frames, hok, hfuel => by
    obtain ⟨hf, hrest⟩ := List.forall_mem_cons.mp hok
    have hlen : (f.bytes ++ mailBytes frames).length =
        8 + f.payload.length + (mailBytes frames).length := by
      rw [List.length_append, f.length_bytes]
    rw [mailboxFramesValid, mailBytes_cons_ne_nil, if_neg (by decide), mailBytes_cons]
    rw [mailBytes_cons, hlen] at hfuel
    rw [hlen, if_neg (by omega)]
    dsimp only
    rw [f.u32At_slot, MailFrame.u32At_length hf, f.drop_frame, if_neg, if_neg (by omega)]
    · exact mailboxFramesValid_mailBytes hrest (by omega)
    · rintro ⟨hne, hnone⟩
      rcases hf.2 with hs | ⟨i, hs⟩
      · exact hne hs
      · rw [hs, slotIndex_word] at hnone
        cases hnone

/-- Bytes that pass the frame check are frames. -/
theorem mailboxFramesValid_frames : ∀ {fuel : Nat} {rest : List UInt8},
    mailboxFramesValid fuel rest = true → ∃ frames, rest = mailBytes frames ∧ ∀ f ∈ frames, f.Ok
  | 0, rest, h => by
    rw [mailboxFramesValid, List.isEmpty_iff] at h
    exact ⟨[], h, fun _ hf => absurd hf List.not_mem_nil⟩
  | fuel + 1, rest, h => by
    rw [mailboxFramesValid] at h
    by_cases hempty : rest.isEmpty = true
    · exact ⟨[], List.isEmpty_iff.mp hempty, fun _ hf => absurd hf List.not_mem_nil⟩
    · rw [if_neg hempty] at h
      dsimp only at h
      split_ifs at h with hlen hslot hsize
      obtain ⟨frames, hframes, hok⟩ := mailboxFramesValid_frames h
      set size := (u32At rest 0).toNat with hsize_def
      have hpayload : ((rest.drop 8).take size).length = size := by
        rw [List.length_take, List.length_drop]
        omega
      refine ⟨⟨(rest.drop 8).take size, u32At rest 4⟩ :: frames, ?_,
        List.forall_mem_cons.mpr ⟨⟨?_, ?_⟩, hok⟩⟩
      · have hwords : le32 (u32At rest 0) ++ le32 (u32At rest 4) = rest.take 8 := by
          have h0 : le32 (u32At rest 0) = rest.take 4 :=
            Layout.word32.write_read_take (show 4 ≤ rest.length by omega)
          have h4 : le32 (u32At rest 4) = (rest.drop 4).take 4 :=
            Layout.word32.write_read_take
              (show 4 ≤ (rest.drop 4).length by rw [List.length_drop]; omega)
          rw [h0, h4, ← List.take_add]
        have hsize32 : UInt32.ofNat size = u32At rest 0 := UInt32.ofNat_toNat
        rw [mailBytes_cons, MailFrame.bytes, hpayload, hsize32, ← List.append_assoc, hwords,
          ← hframes, List.append_assoc, ← List.drop_drop, List.take_append_drop,
          List.take_append_drop]
      · rw [hpayload]
        exact (u32At rest 0).toNat_lt
      · rw [not_and, Option.isNone_iff_eq_none] at hslot
        by_cases hnone : u32At rest 4 = capSlotNone
        · exact Or.inl hnone
        · cases hindex : slotIndex (u32At rest 4) with
          | none => exact absurd hindex (hslot hnone)
          | some i => exact Or.inr ⟨i, slotIndex_eq_some hindex⟩

/-- **A mailbox is valid if it is the image of a list of frames.** -/
theorem componentMailboxValidate_iff (mailbox : List UInt8) :
    componentMailboxValidate mailbox = true ↔ mailbox.length ≤ componentMailboxBytes ∧
      mailbox = mailBytes (mailFrames mailbox) ∧ ∀ f ∈ mailFrames mailbox, f.Ok := by
  unfold componentMailboxValidate
  by_cases hlen : mailbox.length > componentMailboxBytes
  · rw [if_pos hlen]
    refine ⟨fun h => (by cases h), fun h => absurd h.1 (Nat.not_le.mpr hlen)⟩
  · rw [if_neg hlen]
    constructor
    · intro h
      obtain ⟨frames, rfl, hok⟩ := mailboxFramesValid_frames h
      rw [mailFrames_mailBytes hok]
      exact ⟨Nat.not_lt.mp hlen, rfl, hok⟩
    · rintro ⟨-, hbytes, hok⟩
      rw [hbytes] at hlen ⊢
      exact mailboxFramesValid_mailBytes hok le_rfl

/-! ### Pushing, popping and stripping -/

theorem componentMailboxPush_eq_some {mailbox mailbox' bytes : List UInt8} {slot : UInt32}
    (h : componentMailboxPush mailbox bytes slot = some mailbox') :
    mailbox' = mailbox ++ (⟨bytes, slot⟩ : MailFrame).bytes ∧
      mailbox'.length ≤ componentMailboxBytes := by
  unfold componentMailboxPush at h
  split_ifs at h with h1 h2
  cases h
  refine ⟨rfl, ?_⟩
  rw [List.length_append, List.length_append, List.length_append, length_le32, length_le32]
  omega

theorem push_valid {mailbox mailbox' bytes : List UInt8} {slot : UInt32}
    (hvalid : componentMailboxValidate mailbox = true)
    (hslot : slot = capSlotNone ∨ ∃ i, slot = Slot.word i)
    (h : componentMailboxPush mailbox bytes slot = some mailbox') :
    componentMailboxValidate mailbox' = true ∧
      mailFrames mailbox' = mailFrames mailbox ++ [⟨bytes, slot⟩] := by
  obtain ⟨hmail, hlen⟩ := componentMailboxPush_eq_some h
  obtain ⟨-, hbytes, hok⟩ := (componentMailboxValidate_iff mailbox).mp hvalid
  have hframe : (⟨bytes, slot⟩ : MailFrame).Ok := by
    refine ⟨?_, hslot⟩
    rw [hmail, List.length_append, MailFrame.length_bytes] at hlen
    unfold componentMailboxBytes at hlen
    dsimp only at hlen ⊢
    omega
  have hok' : ∀ f ∈ mailFrames mailbox ++ [⟨bytes, slot⟩], f.Ok := fun f hf =>
    (List.mem_append.mp hf).elim (hok f) fun hf => List.mem_singleton.mp hf ▸ hframe
  have hmail' : mailbox' = mailBytes (mailFrames mailbox ++ [⟨bytes, slot⟩]) := by
    rw [mailBytes_append, ← hbytes, hmail, mailBytes_cons]
    simp [mailBytes]
  have hframes : mailFrames mailbox' = mailFrames mailbox ++ [⟨bytes, slot⟩] := by
    rw [hmail', mailFrames_mailBytes hok']
  refine ⟨(componentMailboxValidate_iff mailbox').mpr ⟨hlen, ?_, ?_⟩, hframes⟩
  · rw [hframes, hmail']
  · rw [hframes]
    exact hok'

/-- A pop takes the first frame and leaves a valid mailbox. -/
theorem componentMailboxPop_eq_some {mailbox payload rest : List UInt8} {capacity : Nat}
    {slot : UInt32} (hvalid : componentMailboxValidate mailbox = true)
    (h : componentMailboxPop mailbox capacity = some (payload, slot, rest)) :
    mailFrames mailbox = ⟨payload, slot⟩ :: mailFrames rest ∧
      componentMailboxValidate rest = true := by
  obtain ⟨hlen, hbytes, hok⟩ := (componentMailboxValidate_iff mailbox).mp hvalid
  unfold componentMailboxPop at h
  split_ifs at h with h1
  dsimp only at h
  split_ifs at h with h2
  cases h
  cases hframes : mailFrames mailbox with
  | nil =>
    rw [hframes] at hbytes
    rw [hbytes] at h1
    exact absurd (Or.inr (by decide)) h1
  | cons f frames =>
    rw [hframes] at hok hbytes
    obtain ⟨hf, hrest⟩ := List.forall_mem_cons.mp hok
    have hsize : (u32At mailbox 0).toNat = f.payload.length := by
      rw [hbytes, mailBytes_cons, MailFrame.u32At_length hf]
    have hrest' : mailbox.drop (8 + (u32At mailbox 0).toNat) = mailBytes frames := by
      rw [hsize, hbytes, mailBytes_cons, f.drop_frame]
    have hpayload : (mailbox.drop 8).take (u32At mailbox 0).toNat = f.payload := by
      rw [hsize, hbytes, mailBytes_cons, MailFrame.bytes, ← List.append_assoc, List.append_assoc,
        List.drop_left' (by rw [List.length_append, length_le32, length_le32]), List.take_left]
    have hslot : u32At mailbox 4 = f.slot := by rw [hbytes, mailBytes_cons, f.u32At_slot]
    rw [hpayload, hslot, hrest', mailFrames_mailBytes hrest]
    refine ⟨rfl, (componentMailboxValidate_iff _).mpr ⟨?_, ?_, ?_⟩⟩
    · rw [← hrest', List.length_drop]
      omega
    · rw [mailFrames_mailBytes hrest]
    · rw [mailFrames_mailBytes hrest]
      exact hrest

theorem stripFrames_mailBytes (slot : UInt32) : ∀ {fuel : Nat} {frames : List MailFrame},
    (∀ f ∈ frames, f.Ok) → (mailBytes frames).length ≤ fuel →
      stripFrames slot fuel (mailBytes frames) =
        (frames.any (fun f => f.slot = slot), mailBytes (frames.map (MailFrame.detach slot)))
  | 0, [], _, _ => rfl
  | fuel + 1, [], _, _ => rfl
  | 0, f :: frames, _, hfuel => by
    rw [mailBytes_cons, List.length_append, f.length_bytes] at hfuel
    omega
  | fuel + 1, f :: frames, hok, hfuel => by
    obtain ⟨hf, hrest⟩ := List.forall_mem_cons.mp hok
    rw [stripFrames, mailBytes_cons_ne_nil, if_neg (by decide), mailBytes_cons]
    rw [mailBytes_cons, List.length_append, f.length_bytes] at hfuel
    have ih := stripFrames_mailBytes slot hrest (show (mailBytes frames).length ≤ fuel by omega)
    dsimp only
    rw [MailFrame.u32At_length hf, f.drop_frame, f.take_frame, f.u32At_slot, ih, List.any_cons,
      List.map_cons, mailBytes_cons]
    by_cases hs : f.slot = slot
    · rw [if_pos hs, MailFrame.detach, if_pos hs, f.writeAt_slot, decide_eq_true hs, Bool.true_or]
    · rw [if_neg hs, MailFrame.detach, if_neg hs, decide_eq_false hs, Bool.false_or]

/-- **Stripping a slot** detaches it from the frames that name it; payloads and order stay. -/
theorem mailFrames_strip {mailbox : List UInt8}
    (hvalid : componentMailboxValidate mailbox = true) (slot : UInt32) :
    componentMailboxValidate (stripAttachment mailbox slot).2 = true ∧
      mailFrames (stripAttachment mailbox slot).2 =
        (mailFrames mailbox).map (MailFrame.detach slot) ∧
      (stripAttachment mailbox slot).1 = (mailFrames mailbox).any (fun f => f.slot = slot) ∧
      (stripAttachment mailbox slot).2.length = mailbox.length := by
  obtain ⟨hlen, hbytes, hok⟩ := (componentMailboxValidate_iff mailbox).mp hvalid
  set frames := mailFrames mailbox with hframes
  have hstrip : stripAttachment mailbox slot =
      (frames.any (fun f => f.slot = slot), mailBytes (frames.map (MailFrame.detach slot))) := by
    unfold stripAttachment
    rw [hbytes]
    exact stripFrames_mailBytes slot hok le_rfl
  have hok' : ∀ f ∈ frames.map (MailFrame.detach slot), f.Ok := by
    intro f hf
    obtain ⟨g, hg, rfl⟩ := List.mem_map.mp hf
    exact (hok g hg).detach slot
  have hlength : (mailBytes (frames.map (MailFrame.detach slot))).length = mailbox.length := by
    conv_rhs => rw [hbytes]
    unfold mailBytes
    rw [List.length_flatMap, List.length_flatMap, List.map_map]
    refine congrArg List.sum (List.map_congr_left fun f _ => ?_)
    simp
  rw [hstrip]
  refine ⟨(componentMailboxValidate_iff _).mpr ⟨?_, ?_, ?_⟩,
    mailFrames_mailBytes hok', rfl, hlength⟩
  · rw [hlength]
    exact hlen
  · rw [mailFrames_mailBytes hok']
  · rw [mailFrames_mailBytes hok']
    exact hok'

end Jani
