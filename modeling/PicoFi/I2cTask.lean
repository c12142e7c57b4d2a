import PicoFi.I2cMailbox
import PicoFi.LocalCommands
import PicoFi.StepRuns

/-!
# The I2C bus task

The task serves both protocol versions on one bus.  A write may switch the
version; in the first version it feeds the reassembly and may be answered,
in the second it is a whole packet.  A read hands out the next slot of the
staged message, or the mailbox.  `I2cTask.step` is one pass of the loop
together with the queue operations of the bridge session.
-/

namespace PicoFi
namespace I2c

open Buffer LinkFrame Mailbox

abbrev packetQueueDepth : ℕ := 128
abbrev packetQueueBytes : ℕ := 8192

/-- `OverwriteQueue<I2cPacket, I2C_PACKET_QUEUE_DEPTH, I2C_PACKET_QUEUE_BYTES>` -/
abbrev I2cQueue := OverwriteQueue I2cPacket packetQueueDepth packetQueueBytes

def makePacket (kind : UInt8) (payload : List UInt8) : Option I2cPacket :=
  (BoundedVec.new.extendFromSlice payload).map fun data => ⟨kind, data⟩

def LooksLikeLocalCommand (payload : List UInt8) : Prop :=
  payload.head? = some 47 ∧ ∀ b ∈ payload, b = 10 ∨ b = 13 ∨ Printable b

instance (payload : List UInt8) : Decidable (LooksLikeLocalCommand payload) :=
  inferInstanceAs (Decidable (_ ∧ _))

def nonzeroTransferId (value : UInt16) : UInt16 := if value = 0 then 1 else value

/-! ## Complete packets -/

/-- What a write asks of the task besides its reassembly. -/
inductive SlotAction
  | ignore
  | forward (packet : I2cPacket)
  /-- Stage a text in a link frame. -/
  | answer (transferId : UInt16) (magic : UInt8) (text : List UInt8)
  /-- Stage an error text. -/
  | refuse (transferId : UInt16) (msg : List UInt8)
  deriving DecidableEq

/-- `make_packet` followed by the push. -/
def forwardData (transferId : UInt16) (payload : List UInt8) : SlotAction :=
  match makePacket kindData payload with
  | some packet => .forward packet
  | none => .refuse (nonzeroTransferId transferId) oversizeMsg

section Complete

variable (config : BridgeConfig) (runtime : CommandRuntime)

def localResponse (payload : List UInt8) : List UInt8 :=
  renderLocalBridgeCommand config runtime (trimAsciiLine payload)

def processCompletePacket (kind : UInt8) (transferId : UInt16)
    (payload : List UInt8) : SlotAction :=
  match parseRequestBytes payload with
  | some (.command commandPayload) =>
      if LooksLikeLocalCommand commandPayload then
        .answer (nonzeroTransferId transferId) respCommandMagic
          (localResponse config runtime commandPayload)
      else forwardData transferId commandPayload
  | some (.data dataPayload) =>
      if dataPayload = [] then .ignore else forwardData transferId dataPayload
  | none =>
      if kind = kindCommand then
        if LooksLikeLocalCommand payload then
          .answer (nonzeroTransferId transferId) reqCommandMagic
            (localResponse config runtime payload)
        else forwardData transferId payload
      else if kind = kindData then
        if payload = [] then .ignore else forwardData transferId payload
      else .refuse (nonzeroTransferId transferId) invalidKindMsg

end Complete

/-! ## The task -/

structure I2cTask where
  rxPacket : RxPacketState
  txPacket : TxPacketState
  lastTransferId : UInt16
  v2 : Bool
  mailbox : PacketV2.Mailbox
  ingress : I2cQueue
  rxResp : I2cQueue

/-- The outcome of one `respond_to_read`; `none` is a bus error. -/
inductive ReadStatus
  | done
  | needMoreBytes
  | leftoverBytes
  deriving DecidableEq

/-- How the host ended the two parts of a read. -/
structure ReadIo where
  header : Option ReadStatus
  body : Option ReadStatus

inductive BusReply
  | slot (bytes : List UInt8)
  /-- The header, and the body with whether it was read to its end. -/
  | packet (header : List UInt8) (body : Option (List UInt8 × Bool))
  deriving DecidableEq

namespace I2cTask

def start : I2cTask where
  rxPacket := RxPacketState.new
  txPacket := TxPacketState.new
  lastTransferId := 1
  v2 := false
  mailbox := PacketV2.Mailbox.new
  ingress := OverwriteQueue.empty (by decide)
  rxResp := OverwriteQueue.empty (by decide)

section Writes

variable (config : BridgeConfig) (runtime : CommandRuntime)

/-- Reassembly of a written slot.  `none` is a slice outside a buffer. -/
def handleWriteSlot (s : I2cTask) (now : ℕ) (raw : List UInt8) :
    Option (I2cTask × SlotAction) :=
  match decodeSlot raw with
  | .ok none => some (s, .ignore)
  | .ok (some slot) =>
      match s.rxPacket.pushSlot now slot with
      | none => none
      | some (rxPacket, .ok (some (kind, transferId, totalLen))) =>
          (slice? rxPacket.payload.toList 0 totalLen).map fun payload =>
            ({ s with
                rxPacket := rxPacket
                lastTransferId := nonzeroTransferId transferId },
              processCompletePacket config runtime kind transferId payload)
      | some (rxPacket, .ok none) =>
          some ({ s with rxPacket := rxPacket }, .ignore)
      | some (rxPacket, .error msg) =>
          some ({ s with rxPacket := rxPacket }, .refuse s.lastTransferId msg)
  | .error msg => some (s, .refuse s.lastTransferId msg)

def perform (s : I2cTask) : SlotAction → I2cTask
  | .ignore => s
  | .forward packet => { s with ingress := (s.ingress.pushOverwrite packet).1 }
  | .answer transferId magic text =>
      { s with
        txPacket := s.txPacket.stageFramed magic kindCommand transferId text }
  | .refuse transferId msg =>
      { s with txPacket := s.txPacket.stageError transferId msg }

/-- A whole packet in the second version.  `none` is the restart into the USB
boot loader. -/
def handleV2Write (s : I2cTask) (raw : List UInt8) : Option I2cTask :=
  match PacketV2.packet raw with
  | .error _ => some s
  | .ok (kind, payload) =>
      if kind = PacketV2.data then
        if payload ≠ [] then
          match makePacket kindData payload with
          | some packet =>
              some { s with ingress := (s.ingress.pushOverwrite packet).1 }
          | none => some s
        else some s
      else if kind = PacketV2.command then
        if LooksLikeLocalCommand payload ∧ ¬s.mailbox.pending then
          match s.mailbox.stage PacketV2.command
              (localResponse config runtime payload) with
          | .ok mailbox => some { s with mailbox := mailbox }
          | .error _ => some s
        else some s
      else if kind = PacketV2.bootsel ∧ payload = ascii "BOOTSEL" then none
      else some s

/-- The protocol version after a write, and a packet of the second one. -/
def receive (s : I2cTask) (raw : List UInt8) : Option I2cTask :=
  if raw = PacketV2.select then
    some { s with v2 := true, rxPacket := s.rxPacket.reset }
  else if raw.head? = some PacketV2.magic then
    handleV2Write config runtime { s with v2 := true } raw
  else if raw.length = slotSize ∧
      raw.take 3 = [slotMagic0, slotMagic1, slotVersion] then
    some { s with v2 := false }
  else some s

end Writes

/-! ## Reads -/

def stageResponsePacket (s : I2cTask) : I2cTask :=
  if s.txPacket.hasPending then s
  else
    match s.rxResp.tryPop with
    | (rxResp, some resp) =>
        { s with
          rxResp := rxResp
          txPacket := s.txPacket.stageBridgePacket s.lastTransferId resp }
    | (rxResp, none) =>
        { s with
          rxResp := rxResp
          txPacket := s.txPacket.stageIdle s.lastTransferId }

/-- The slot is used up however the host ends the read. -/
def respondSlot (s : I2cTask) : I2cTask × BusReply :=
  let (txPacket, slot) := s.txPacket.nextSlotBytes
  ({ s with txPacket := txPacket }, .slot slot)

def readSlot (s : I2cTask) : I2cTask × BusReply :=
  s.stageResponsePacket.respondSlot

def stageMailbox (s : I2cTask) : I2cTask :=
  if s.mailbox.pending then s
  else
    match s.rxResp.tryPop with
    | (rxResp, some response) =>
        match s.mailbox.stage response.kind response.payload.asSlice with
        | .ok mailbox => { s with rxResp := rxResp, mailbox := mailbox }
        | .error _ => { s with rxResp := rxResp }
    | (rxResp, none) => { s with rxResp := rxResp }

def respondV2 (s : I2cTask) (io : ReadIo) : Option (I2cTask × BusReply) :=
  s.mailbox.header.map fun header =>
    if io.header = some .needMoreBytes ∧ s.mailbox.pending ∧
        s.mailbox.payload ≠ [] then
      let done := decide (io.body = some .done)
      ({ s with mailbox := s.mailbox.completeBody done },
        .packet header (some (s.mailbox.payload, done)))
    else (s, .packet header none)

def readV2 (s : I2cTask) (io : ReadIo) : Option (I2cTask × BusReply) :=
  s.stageMailbox.respondV2 io

def recoverI2cState (s : I2cTask) : I2cTask :=
  { s with
    rxPacket := s.rxPacket.reset
    txPacket := s.txPacket.stageError s.lastTransferId invalidSlotMsg }

end I2cTask

/-! ## One pass of the loop -/

/-- A write with the time and the runtime its commands print. -/
structure BusWrite where
  now : ℕ
  runtime : CommandRuntime
  raw : List UInt8

inductive I2cEvent
  | write (w : BusWrite)
  | read (io : ReadIo)
  | writeRead (w : BusWrite) (io : ReadIo)
  | generalCall
  | busError
  /-- The session queues a response. -/
  | queueResponse (packet : I2cPacket)
  /-- The session takes a request. -/
  | takeRequest

namespace I2cTask

variable (config : BridgeConfig)

/-- What a write asks for, after the version and the reassembly took note of
it. -/
def writeAction (s : I2cTask) (w : BusWrite) : Option (I2cTask × SlotAction) :=
  (s.receive config w.runtime w.raw).bind fun s =>
    if s.v2 then some (s, .ignore)
    else s.handleWriteSlot config w.runtime w.now (w.raw.take slotSize)

def written (s : I2cTask) (w : BusWrite) : Option I2cTask :=
  (s.writeAction config w).map fun (s, action) => s.perform action

def readReply (s : I2cTask) (io : ReadIo) : Option (I2cTask × BusReply) :=
  if s.v2 then s.readV2 io else some s.readSlot

/-- `none` ends the run: a slice outside a buffer, a failed `unwrap` or the
restart into the boot loader. -/
def step (s : I2cTask) : I2cEvent → Option (I2cTask × Option BusReply)
  | .write w => (s.written config w).map fun s => (s, none)
  | .read io => (s.readReply io).map fun (s, reply) => (s, some reply)
  | .writeRead w io =>
      (s.written config w).bind fun s =>
        (s.readReply io).map fun (s, reply) => (s, some reply)
  | .generalCall => some (s, none)
  | .busError =>
      if s.v2 then some (s, none) else some (s.recoverI2cState, none)
  | .queueResponse packet =>
      some ({ s with rxResp := (s.rxResp.tryPushRef packet).1 }, none)
  | .takeRequest => some ({ s with ingress := s.ingress.tryPop.1 }, none)

end I2cTask

end I2c
end PicoFi
