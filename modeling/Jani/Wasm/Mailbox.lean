import Jani.Cap.CapTable

/-!
# Mailboxes (`component.c`, `domain.c`, `mailbox_validate.zig`)

The mailbox of a component is a buffer of frames: the length of the payload, the slot of an attached
capability or `0xFFFFFFFF`, and the payload.  The model keeps the used part of the buffer.
-/

namespace Jani

def componentMailboxBytes : Nat := 4096

/-- The loop of `component_mailbox_validate` over the bytes from some frame on. -/
def mailboxFramesValid : Nat → List UInt8 → Bool
  | 0, rest => rest.isEmpty
  | fuel + 1, rest =>
    if rest.isEmpty then true
    else if rest.length < 8 then false
    else
      let size := u32At rest 0
      let slot := u32At rest 4
      if slot ≠ capSlotNone ∧ (slotIndex slot).isNone then false
      else if size.toNat > rest.length - 8 then false
      else mailboxFramesValid fuel (rest.drop (8 + size.toNat))

def componentMailboxValidate (bytes : List UInt8) : Bool :=
  if bytes.length > componentMailboxBytes then false else mailboxFramesValid bytes.length bytes

def componentMailboxPush (mailbox bytes : List UInt8) (capabilitySlot : UInt32) :
    Option (List UInt8) :=
  if mailbox.length > componentMailboxBytes ∨ bytes.length > componentMailboxBytes - 8 then none
  else if 8 + bytes.length > componentMailboxBytes - mailbox.length then none
  else some (mailbox ++ (le32 (UInt32.ofNat bytes.length) ++ (le32 capabilitySlot ++ bytes)))

/-- The payload of the first frame, its attached slot, and the rest of the mailbox. -/
def componentMailboxPop (mailbox : List UInt8) (capacity : Nat) :
    Option (List UInt8 × UInt32 × List UInt8) :=
  if mailbox.length > componentMailboxBytes ∨ mailbox.length < 8 then none
  else
    let size := (u32At mailbox 0).toNat
    if size > mailbox.length - 8 ∨ size > capacity then none
    else some ((mailbox.drop 8).take size, u32At mailbox 4, mailbox.drop (8 + size))

/-- `strip_attachment` on the bytes from some frame on: whether a frame named the slot, and the
bytes with these attachments gone. -/
def stripFrames (slot : UInt32) : Nat → List UInt8 → Bool × List UInt8
  | 0, rest => (false, rest)
  | fuel + 1, rest =>
    if rest.isEmpty then (false, rest)
    else
      let size := (u32At rest 0).toNat
      let (changed, tail) := stripFrames slot fuel (rest.drop (8 + size))
      if u32At rest 4 = slot then
        (true, writeAt (rest.take (8 + size)) 4 (le32 capSlotNone) ++ tail)
      else (changed, rest.take (8 + size) ++ tail)

def stripAttachment (mailbox : List UInt8) (slot : UInt32) : Bool × List UInt8 :=
  stripFrames slot mailbox.length mailbox

end Jani
