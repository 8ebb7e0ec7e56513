import Jani.Wasm.Component
import Jani.Wasm.Equiv.Mailbox

/-!
# Stored components are read back

The records of a component are read back from the bytes they were written to: the capability table
(`captableDecode_encode`) and the instance state (`deserialize_serialize`).  What a reader accepts
keeps the invariants of the component in memory: `CountOk` for the table and its slot count, and a
valid mailbox.
-/

namespace Jani

open CapabilityTable

/-! ### Tables and their slot counts -/

/-- A valid table whose usable slots lie below the slot count. -/
structure CountOk (t : CapabilityTable) (slotCount : UInt32) : Prop where
  table : TableOk t
  count : slotCount.toNat ≤ 16
  below : ∀ i, (t.at? i).isSome = true → i.val < slotCount.toNat

theorem componentCapabilityTableValid_iff (t : CapabilityTable) (slotCount : UInt32) :
    componentCapabilityTableValid t slotCount = true ↔
      TableOk t ∧ ∀ i, (t.at? i).isSome = true → i.val < slotCount.toNat := by
  unfold componentCapabilityTableValid
  by_cases htable : capabilityTableIsValid t = true
  · rw [if_neg (by simp [htable]), decide_eq_true_eq]
    refine ⟨fun h => ⟨(capabilityTableIsValid_iff t).mp htable, fun i hi => ?_⟩,
      fun h i hi => ?_⟩
    · by_contra hge
      have hnone := h i (Nat.not_lt.mp hge)
      rw [Option.isNone_iff_eq_none] at hnone
      rw [hnone] at hi
      cases hi
    · rw [Option.isNone_iff_eq_none]
      by_contra hne
      exact absurd (h.2 i (Option.isSome_iff_ne_none.mpr hne)) (Nat.not_lt.mpr hi)
  · rw [if_pos (by simp [htable])]
    exact ⟨fun h => (by cases h), fun h => absurd ((capabilityTableIsValid_iff t).mpr h.1) htable⟩

theorem countOk_iff (t : CapabilityTable) (slotCount : UInt32) : CountOk t slotCount ↔
    ¬ slotCount > 16 ∧ componentCapabilityTableValid t slotCount = true := by
  rw [componentCapabilityTableValid_iff, gt_iff_lt, UInt32.lt_iff_toNat_lt]
  exact ⟨fun h => ⟨Nat.not_lt.mpr h.count, h.table, h.below⟩,
    fun h => ⟨h.2.1, Nat.not_lt.mp h.1, h.2.2⟩⟩

variable {c : Component}

theorem componentCaptableEncode_of_ok (h : CountOk c.capabilityTable c.capabilityCount) :
    componentCaptableEncode c =
      some (captableBytes c.capabilityTable c.capabilityCount c.nextObjectSequence) := by
  obtain ⟨hcount, hvalid⟩ := (countOk_iff _ _).mp h
  unfold componentCaptableEncode
  rw [if_neg (by rw [hvalid]; simpa using hcount)]

/-! ### The capability table -/

theorem length_captableBytes (t : CapabilityTable) (slotCount : UInt32) (next : UInt64) :
    (captableBytes t slotCount next).length = 544 := by
  unfold captableBytes
  rw [List.length_append, captableHeaderLayout.length_write, captableLayout.length_write]
  rfl

theorem captableTable_write {header : ComponentCaptableHeader} (hversion : header.formatVersion = 3)
    (t : CapabilityTable) :
    captableTable (captableHeaderLayout.write header ++ captableLayout.write t) = t := by
  have hheader : (captableHeaderLayout.write header).length = 32 :=
    captableHeaderLayout.length_write _
  have himage : captableLayout.write t = captableSlotsLayout.write t.slots ++
      (captableWordsLayout.write t.parents ++ captableWordsLayout.write t.generations) := rfl
  have hslots : (captableSlotsLayout.write t.slots).length = 384 :=
    captableSlotsLayout.length_write _
  have hparents : (captableWordsLayout.write t.parents).length = 64 :=
    captableWordsLayout.length_write _
  have h416 : (captableHeaderLayout.write header ++ captableLayout.write t).drop 416 =
      captableWordsLayout.write t.parents ++ captableWordsLayout.write t.generations := by
    rw [himage, ← List.append_assoc]
    exact List.drop_left' (by rw [List.length_append, hheader, hslots])
  have h480 : (captableHeaderLayout.write header ++ captableLayout.write t).drop 480 =
      captableWordsLayout.write t.generations := by
    rw [himage, ← List.append_assoc, ← List.append_assoc]
    exact List.drop_left'
      (by rw [List.length_append, List.length_append, hheader, hslots, hparents])
  unfold captableTable
  dsimp only
  rw [captableHeaderLayout.read_append, hversion, if_pos (by decide), if_pos rfl,
    List.drop_left' hheader, h416, h480, himage, captableSlotsLayout.read_append,
    captableWordsLayout.read_append, captableWordsLayout.read_write]

/-- **A stored capability table is read back.** -/
theorem captableDecode_bytes {t : CapabilityTable} {slotCount : UInt32} (next : UInt64)
    (hok : CountOk t slotCount) :
    captableDecode (captableBytes t slotCount next) = some (t, slotCount, next) := by
  have hmask : (⟨t.slots, fun slot =>
      if objectIdIsZero (t.slots slot).object then capSlotNone else t.parents slot,
      t.generations⟩ : CapabilityTable) = t := by
    refine CapabilityTable.ext rfl (funext fun slot => ?_) rfl
    dsimp only
    split_ifs with hzero
    · exact (hok.table.empty slot ((objectIdIsZero_iff _).mp hzero)).2.symm
    · rfl
  obtain ⟨hcount, hvalid⟩ := (countOk_iff _ _).mp hok
  have hlength := length_captableBytes t slotCount next
  unfold captableBytes at hlength ⊢
  dsimp only at hlength ⊢
  rw [hmask] at hlength ⊢
  set header : ComponentCaptableHeader :=
    ⟨componentCaptableMagic, 3, slotCount, next, objectCrc32c (captableLayout.write t), 0⟩
    with hheader
  have hdrop : (captableHeaderLayout.write header ++ captableLayout.write t).drop 32 =
      captableLayout.write t := List.drop_left' (captableHeaderLayout.length_write header)
  unfold captableDecode
  dsimp only
  rw [captableHeaderLayout.read_append, captableTable_write rfl, hlength, hdrop,
    if_neg (by decide), if_neg, if_pos (Or.inr (Or.inr ⟨rfl, rfl⟩)), if_neg (not_not.mpr rfl),
    if_neg]
  · rw [hheader]
    dsimp only
    rw [hvalid]
    decide
  · rw [hheader]
    exact not_or.mpr ⟨not_not.mpr rfl, not_or.mpr ⟨not_not.mpr rfl, hcount⟩⟩

theorem captableDecode_ok {payload : List UInt8} {t : CapabilityTable} {slotCount : UInt32}
    {next : UInt64} (h : captableDecode payload = some (t, slotCount, next)) :
    CountOk t slotCount := by
  unfold captableDecode at h
  dsimp only at h
  split_ifs at h with h1 h2 h3 h4 h5
  cases h
  rw [Bool.not_eq_true, Bool.not_eq_false'] at h5
  exact (countOk_iff _ _).mpr ⟨fun hgt => h2 (Or.inr (Or.inr hgt)), h5⟩

/-! ### The instance state -/

/-- The header of the stored state of a component. -/
def Component.stateHeader (c : Component) : InstanceStateHeader where
  magic := instanceStateMagic
  formatVersion := 1
  headerSize := 64
  logicalTime := c.logicalTime
  timerDeadline := c.timerDeadline
  timerArmed := if c.timerArmed then 1 else 0
  mailboxUsed := UInt32.ofNat c.mailbox.length
  memorySize := UInt64.ofNat c.memory.length
  payloadCrc32c := objectCrc32c (c.mailbox ++ c.memory)
  reserved := 0
  padding := 0

/-- The two lengths fit into the words of the header. -/
def Component.Fits (c : Component) : Prop :=
  c.mailbox.length ≤ componentMailboxBytes ∧ c.memory.length ≤ 2 ^ 64 - 1 - 64 - c.mailbox.length

theorem instanceStateSerialize_eq_some {bytes : List UInt8}
    (h : instanceStateSerialize c = some bytes) : c.Fits ∧
      bytes = instanceStateHeaderLayout.write c.stateHeader ++ (c.mailbox ++ c.memory) := by
  unfold instanceStateSerialize at h
  split at h
  · cases h
  · rename_i hbad
    cases h
    rw [not_or] at hbad
    exact ⟨⟨Nat.not_lt.mp hbad.1, Nat.not_lt.mp hbad.2⟩, rfl⟩

theorem instanceStateSerialize_of_fits (h : c.Fits) : instanceStateSerialize c =
    some (instanceStateHeaderLayout.write c.stateHeader ++ (c.mailbox ++ c.memory)) := by
  unfold instanceStateSerialize
  rw [if_neg (not_or.mpr ⟨Nat.not_lt.mpr h.1, Nat.not_lt.mpr h.2⟩)]
  rfl

section StateBytes

variable {c : Component}

theorem Component.Fits.mailboxUsed (h : c.Fits) :
    c.stateHeader.mailboxUsed.toNat = c.mailbox.length := by
  refine UInt32.toNat_ofNat_of_lt' (lt_of_le_of_lt h.1 ?_)
  unfold componentMailboxBytes
  norm_num

theorem Component.Fits.memorySize (h : c.Fits) :
    c.stateHeader.memorySize.toNat = c.memory.length := by
  refine UInt64.toNat_ofNat_of_lt' (lt_of_le_of_lt h.2 ?_)
  change _ < 2 ^ 64
  omega

theorem length_stateHeader (c : Component) :
    (instanceStateHeaderLayout.write c.stateHeader).length = 64 :=
  instanceStateHeaderLayout.length_write _

theorem instanceStateBytesValidate_of_fits (h : c.Fits)
    (hmail : componentMailboxValidate c.mailbox = true) : instanceStateBytesValidate
      (instanceStateHeaderLayout.write c.stateHeader ++ (c.mailbox ++ c.memory)) = true := by
  have hlength : (instanceStateHeaderLayout.write c.stateHeader ++
      (c.mailbox ++ c.memory)).length = 64 + (c.mailbox.length + c.memory.length) := by
    rw [List.length_append, List.length_append, length_stateHeader]
  have hdrop : (instanceStateHeaderLayout.write c.stateHeader ++ (c.mailbox ++ c.memory)).drop 64 =
      c.mailbox ++ c.memory := List.drop_left' (length_stateHeader c)
  have harmed : ¬ c.stateHeader.timerArmed > 1 := by
    unfold Component.stateHeader
    dsimp only
    split_ifs <;> decide
  unfold instanceStateBytesValidate
  dsimp only
  rw [instanceStateHeaderLayout.read_append, hlength, hdrop, h.mailboxUsed, h.memorySize,
    List.take_left, hmail, if_neg (by omega), if_neg, if_neg, if_neg]
  · exact not_or.mpr ⟨by decide, not_not.mpr rfl⟩
  · have := h.1
    unfold componentMailboxBytes at this
    omega
  · exact not_or.mpr ⟨not_not.mpr rfl, not_or.mpr ⟨not_not.mpr rfl, not_or.mpr ⟨not_not.mpr rfl,
      not_or.mpr ⟨harmed, not_or.mpr ⟨not_not.mpr rfl, not_not.mpr rfl⟩⟩⟩⟩⟩

theorem savedMemorySize_of_fits (h : c.Fits) : savedMemorySize
    (instanceStateHeaderLayout.write c.stateHeader ++ (c.mailbox ++ c.memory)) =
      c.memory.length := by
  unfold savedMemorySize
  rw [instanceStateHeaderLayout.read_append, h.memorySize]

end StateBytes

/-- **A stored instance state is read back**, into an instance whose memory is at least as large;
what is beyond is zero. -/
theorem deserialize_serialize {bytes : List UInt8} (h : instanceStateSerialize c = some bytes)
    (hmail : componentMailboxValidate c.mailbox = true) (target : Component) {size : Nat}
    (hsize : c.memory.length ≤ size) : instanceStateDeserialize target size bytes =
      some { target with
        memory := c.memory ++ List.replicate (size - c.memory.length) 0
        mailbox := c.mailbox
        logicalTime := c.logicalTime
        timerDeadline := c.timerDeadline
        timerArmed := c.timerArmed } := by
  obtain ⟨hfits, rfl⟩ := instanceStateSerialize_eq_some h
  have hmailbox : ((instanceStateHeaderLayout.write c.stateHeader ++
      (c.mailbox ++ c.memory)).drop 64).take c.mailbox.length = c.mailbox := by
    rw [List.drop_left' (length_stateHeader c), List.take_left]
  have hmemory : (instanceStateHeaderLayout.write c.stateHeader ++
      (c.mailbox ++ c.memory)).drop (64 + c.mailbox.length) = c.memory := by
    rw [← List.drop_drop, List.drop_left' (length_stateHeader c), List.drop_left]
  have harmed : decide (c.stateHeader.timerArmed ≠ 0) = c.timerArmed := by
    unfold Component.stateHeader
    cases c.timerArmed <;> rfl
  unfold instanceStateDeserialize
  dsimp only
  rw [instanceStateBytesValidate_of_fits hfits hmail, savedMemorySize_of_fits hfits,
    instanceStateHeaderLayout.read_append, hfits.mailboxUsed, hmailbox, hmemory, harmed,
    List.take_length, if_neg (by decide), if_neg (Nat.not_lt.mpr hsize)]
  rfl

theorem deserialize_serialize_small {bytes : List UInt8} (h : instanceStateSerialize c = some bytes)
    (hmail : componentMailboxValidate c.mailbox = true) (target : Component) {size : Nat}
    (hsize : size < c.memory.length) : instanceStateDeserialize target size bytes = none := by
  obtain ⟨hfits, rfl⟩ := instanceStateSerialize_eq_some h
  unfold instanceStateDeserialize
  dsimp only
  rw [instanceStateBytesValidate_of_fits hfits hmail, savedMemorySize_of_fits hfits,
    if_neg (by decide), if_pos hsize]

end Jani
