import Jani.Wasm.Component

/-!
# The storage driver (`block_component.c`, `virtio_blk.c`, `block_validate.zig`)

The kernel serves reads, writes and flushes of the disk through a component, the driver.  For each
request it runs the driver's handler, which may fetch the request, read and write the DMA page,
submit descriptors to the device, and report completion.  A second component, the supervisor,
restarts a driver that died.

The driver is arbitrary code, so a run of its handler is the list of what happened during it
(`DriverEvent`), with whether the handler returned.  The device is arbitrary too: it answers a
submission in some way, and it may write to the DMA page at any time.  The virtqueue of
`virtqueue.c` is behind that answer.
-/

namespace Jani

/-! ### The device (`virtio_blk.c`) -/

def virtioBlkTIn : UInt32 := 0

def virtioBlkTOut : UInt32 := 1

def virtioBlkTFlush : UInt32 := 4

def blockDescriptorsValidate (bytes : List UInt8) (operation : UInt32) : Bool :=
  let last := bytes.length - 12
  if operation ≠ 0 ∧ operation ≠ 1 ∧ operation ≠ 4 then false
  else if bytes.length ≠ (if operation = 4 then 24 else 36) then false
  else if u32At bytes 0 ≠ 0 ∨ u32At bytes 4 ≠ 16 ∨ u32At bytes 8 ≠ 0 then false
  else if u32At bytes last ≠ 16 ∨ u32At bytes (last + 4) ≠ 1 ∨ u32At bytes (last + 8) ≠ 1 then false
  else if operation ≠ 4 ∧ (u32At bytes 12 ≠ 512 ∨ u32At bytes 16 ≠ 512 ∨
      u32At bytes 20 ≠ (if operation = 0 then 1 else 0)) then false
  else true

structure VirtioBlkReqHeader where
  type : UInt32
  reserved : UInt32
  sector : UInt64

def virtioBlkReqHeader (dma : List UInt8) : VirtioBlkReqHeader :=
  ⟨u32At dma 0, u32At dma 4, u64At dma 8⟩

def pmmFrameSize : Nat := 4096

/-- What the device did with a submission: whether it used the buffers in time, and the DMA page
after it. -/
structure DeviceAnswer where
  done : Bool
  dma : List UInt8
deriving DecidableEq, Repr

structure VirtioBlk where
  ready : Bool
  capacity : UInt64
  dma : List UInt8
deriving DecidableEq, Repr

/-- The bounds of `virtio_blk_dma`. -/
def dmaInRange (d : VirtioBlk) (offset : UInt32) (length : Nat) : Bool :=
  d.ready && !(offset.toNat > pmmFrameSize || length > pmmFrameSize - offset.toNat)

def virtioBlkDmaRead (d : VirtioBlk) (offset length : UInt32) : Option (List UInt8) :=
  if dmaInRange d offset length.toNat then some ((d.dma.drop offset.toNat).take length.toNat)
  else none

def virtioBlkDmaWrite (d : VirtioBlk) (offset : UInt32) (bytes : List UInt8) : Option VirtioBlk :=
  if dmaInRange d offset bytes.length then
    some { d with dma := writeAt d.dma offset.toNat bytes }
  else none

/-- The checks of `virtio_blk_submit` before the device sees anything. -/
def submissionValid (d : VirtioBlk) (descriptors : List UInt8) (operation : UInt32)
    (sector : UInt64) : Bool :=
  let header := virtioBlkReqHeader d.dma
  if !d.ready ∨ !blockDescriptorsValidate descriptors operation then false
  else !(header.type ≠ operation || header.reserved ≠ 0 || header.sector ≠ sector)

def virtioBlkSubmit (d : VirtioBlk) (descriptors : List UInt8) (operation : UInt32)
    (sector : UInt64) (answer : DeviceAnswer) : Bool × VirtioBlk :=
  if !submissionValid d descriptors operation sector then (false, d)
  else if !answer.done then
    -- the device might still write to the page, so it is not used again
    (false, { d with ready := false, dma := answer.dma })
  else (true, { d with dma := answer.dma })

/-! ### The driver component (`block_component.c`) -/

inductive BlockCaller where
  | driver
  | supervisor
  | other
deriving DecidableEq, Repr

structure BlockComponent where
  driverTable : CapabilityTable
  supervisorTable : CapabilityTable
  generation : UInt32
  alive : Bool
  busy : Bool
  submitted : Bool
  completed : Bool
  requestBytes : List UInt8
  responseBytes : List UInt8
  operation : UInt32
  requestSector : UInt64
  responseStatus : Int32
  device : VirtioBlk
deriving DecidableEq

/-- The table `instantiate` gives a component. -/
def instantiateTable (identity : UInt64) : Option CapabilityTable :=
  (capabilityTableInsertRoot CapabilityTable.init
    ⟨⟨10, identity⟩, capRightRead ||| capRightWrite, 0⟩).map Prod.snd

def driverAuthorized (b : BlockComponent) (caller : BlockCaller) (slot : Int32) : Bool :=
  if caller ≠ .driver ∨ !b.alive ∨ !b.busy ∨ slot ≠ 0 then false
  else match capabilityTableGet b.driverTable 0 with
    | none => false
    | some cap =>
      objectIdEqual cap.object ⟨10, 1⟩ && capabilityAllows cap (capRightRead ||| capRightWrite) &&
        b.driverTable.generations 0 = b.generation

/-- `block_component_restart`; `created` says whether the interpreter makes an instance. -/
def blockComponentRestart (b : BlockComponent) (caller : BlockCaller) (created : Bool) :
    Int32 × BlockComponent :=
  let allowed := match capabilityTableGet b.supervisorTable 0 with
    | none => false
    | some cap => capabilityAllows cap capRightWrite
  if caller ≠ .supervisor ∨ b.alive ∨ b.busy ∨ b.generation = 0xffffffff ∨ !allowed then
    (janiEperm, b)
  else match instantiateTable 1 with
    | none => (janiEnospc, b)
    | some table =>
      if !created then (janiEnospc, { b with driverTable := table })
      else
        let generation := b.generation + 1
        (0, { b with
          driverTable :=
            { table with generations := Function.update table.generations 0 generation }
          generation := generation
          alive := true })

/-- A run of the supervisor: its restarts, and whether its handler returned. -/
structure SupervisorRun where
  restarts : List Bool
  ok : Bool
deriving DecidableEq, Repr

def ensureRunning (b : BlockComponent) (supervisor : SupervisorRun) : Bool × BlockComponent :=
  if b.alive then (true, b)
  else
    let b := supervisor.restarts.foldl (fun b created =>
      (blockComponentRestart b .supervisor created).2) b
    (supervisor.ok && b.alive, b)

def blockComponentRequest (b : BlockComponent) (caller : BlockCaller) (length : UInt32) :
    Except Int32 (List UInt8) :=
  if !driverAuthorized b caller 0 ∨ length ≠ 528 then .error janiEperm else .ok b.requestBytes

/-- The arguments `block_component_complete` accepts for an operation. -/
def completionValid (operation : UInt32) (status : Int32) (length : Nat) : Bool :=
  !((status ≠ 0 && status ≠ -1) ||
    (status = 0 && length ≠ (if operation = virtioBlkTIn then 512 else 0)) || length > 512)

def blockComponentComplete (b : BlockComponent) (caller : BlockCaller) (status : Int32)
    (bytes : List UInt8) : Int32 × BlockComponent :=
  if !driverAuthorized b caller 0 ∨ b.completed ∨ !b.submitted ∨
      !completionValid b.operation status bytes.length then (janiEperm, b)
  else
    (0, { b with
      responseBytes := writeAt b.responseBytes 0 bytes
      responseStatus := status
      completed := true })

def blockComponentDmaRead (b : BlockComponent) (caller : BlockCaller) (slot : Int32)
    (offset length : UInt32) : Except Int32 (List UInt8) :=
  if !driverAuthorized b caller slot then .error janiEperm
  else match virtioBlkDmaRead b.device offset length with
    | none => .error janiErange
    | some bytes => .ok bytes

def blockComponentDmaWrite (b : BlockComponent) (caller : BlockCaller) (slot : Int32)
    (offset : UInt32) (bytes : List UInt8) : Int32 × BlockComponent :=
  if !driverAuthorized b caller slot ∨ b.submitted then (janiEperm, b)
  else match virtioBlkDmaWrite b.device offset bytes with
    | none => (janiErange, b)
    | some device => (Int32.ofNat bytes.length, { b with device := device })

def blockComponentSubmit (b : BlockComponent) (caller : BlockCaller) (slot : Int32)
    (bytes : List UInt8) (answer : DeviceAnswer) : Int32 × BlockComponent :=
  if !driverAuthorized b caller slot ∨ b.submitted then (janiEperm, b)
  else
    let (ok, device) := virtioBlkSubmit b.device bytes b.operation b.requestSector answer
    (if ok then 0 else janiEinval, { b with submitted := true, device := device })

/-! ### The syscalls of the driver, and what the device does on its own -/

inductive DriverEvent where
  | request (length : UInt32)
  | complete (status : Int32) (bytes : List UInt8)
  | dmaRead (slot : Int32) (offset length : UInt32)
  | dmaWrite (slot : Int32) (offset : UInt32) (bytes : List UInt8)
  | submit (slot : Int32) (bytes : List UInt8) (answer : DeviceAnswer)
  | restart (created : Bool)
  | device (dma : List UInt8)
deriving DecidableEq, Repr

/-- The result and the bytes a syscall of the driver gives, and the state after it. -/
def driverStep (b : BlockComponent) : DriverEvent → (Int32 × List UInt8) × BlockComponent
  | .request length =>
    if length ≠ 528 then ((janiEinval, []), b)
    else match blockComponentRequest b .driver length with
      | .error code => ((code, []), b)
      | .ok bytes => ((528, bytes), b)
  | .complete status bytes =>
    if bytes.length > 512 then ((janiEinval, []), b)
    else
      let (code, b) := blockComponentComplete b .driver status bytes
      ((code, []), b)
  | .dmaRead slot offset length =>
    if length > 4096 then ((janiEinval, []), b)
    else match blockComponentDmaRead b .driver slot offset length with
      | .error code => ((code, []), b)
      | .ok bytes => ((length.toInt32, bytes), b)
  | .dmaWrite slot offset bytes =>
    if bytes.length > 4096 then ((janiEinval, []), b)
    else
      let (code, b) := blockComponentDmaWrite b .driver slot offset bytes
      ((code, []), b)
  | .submit slot bytes answer =>
    if bytes.length > 36 then ((janiEinval, []), b)
    else
      let (code, b) := blockComponentSubmit b .driver slot bytes answer
      ((code, []), b)
  | .restart created =>
    let (code, b) := blockComponentRestart b .driver created
    ((code, []), b)
  | .device dma => ((0, []), { b with device := { b.device with dma := dma } })

def driverEvents (b : BlockComponent) (events : List DriverEvent) : BlockComponent :=
  events.foldl (fun b e => (driverStep b e).2) b

/-- A run of the driver's handler, and whether it returned. -/
structure DriverRun where
  events : List DriverEvent
  ok : Bool
deriving DecidableEq, Repr

/-- The state in which the driver is called. -/
def startRequest (b : BlockComponent) (type : UInt32) (sector : UInt64) (input : List UInt8) :
    BlockComponent :=
  { b with
    requestBytes := le32 type ++ le32 0 ++ le64 sector ++ input ++
      List.replicate (512 - input.length) 0
    operation := type
    requestSector := sector
    submitted := false
    completed := false
    responseStatus := -1
    busy := true }

/-- `request`: the response, if it is served. -/
def blockRequest (b : BlockComponent) (type : UInt32) (sector : UInt64) (input : List UInt8)
    (supervisor : SupervisorRun) (run : DriverRun) : Option (List UInt8) × BlockComponent :=
  if b.busy ∨ sector ≥ b.device.capacity then (none, b)
  else match ensureRunning b supervisor with
    | (false, b) => (none, b)
    | (true, b) =>
      let b := { driverEvents (startRequest b type sector input) run.events with busy := false }
      let b := if !run.ok ∨ !b.completed then { b with alive := false } else b
      if !run.ok ∨ !b.completed ∨ b.responseStatus ≠ 0 then (none, b)
      else (some b.responseBytes, b)

/-- A call of `virtio_blk_io_read`, `virtio_blk_io_write` or `virtio_blk_io_flush`. -/
inductive BlockIo where
  | read (sector : UInt64)
  | write (sector : UInt64) (buffer : List UInt8)
  | flush
deriving DecidableEq, Repr

def BlockIo.type : BlockIo → UInt32
  | .read _ => virtioBlkTIn
  | .write _ _ => virtioBlkTOut
  | .flush => virtioBlkTFlush

def BlockIo.sector : BlockIo → UInt64
  | .read sector => sector
  | .write sector _ => sector
  | .flush => 0

def BlockIo.input : BlockIo → List UInt8
  | .write _ buffer => buffer
  | _ => []

def virtioBlkIo (io : BlockIo) (b : BlockComponent) (supervisor : SupervisorRun)
    (run : DriverRun) : Option (List UInt8) × BlockComponent :=
  blockRequest b io.type io.sector io.input supervisor run

end Jani
