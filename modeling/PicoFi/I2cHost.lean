import PicoFi.I2cSlots

/-!
# The host side of the I2C slots

The host library cuts its requests into slots and puts responses together
again; a second host program does the latter in Python.  Both are embedded
with their own constants.  A run of reads is a list of the slots the bus
returned, so a reader that still waits has used up its list.
-/

namespace PicoFi
namespace I2cHost

open Buffer
open I2c (le32 u32le)

abbrev frameHeaderSize : ℕ := 4
abbrev payloadMax : ℕ := 4092
abbrev slotSize : ℕ := 32
abbrev slotHeaderSize : ℕ := 18
abbrev slotPayloadSize : ℕ := slotSize - slotHeaderSize

def slotMagic0 : UInt8 := 0x49
def slotMagic1 : UInt8 := 0x32
def slotVersion : UInt8 := 1

def kindIdle : UInt8 := 0x00
def kindData : UInt8 := 0x01
def kindCommand : UInt8 := 0x02

def flagStart : UInt8 := 0x01
def flagEnd : UInt8 := 0x02

def reqDataMagic : UInt8 := 0xA5
def reqCommandMagic : UInt8 := 0xA6
def respDataMagic : UInt8 := 0x5A
def respCommandMagic : UInt8 := 0x5B

/-! ## Writing a request -/

/-- Callers pass at most `slotPayloadSize` bytes. -/
def encodeSlot (kind flags : UInt8) (transferId : UInt16)
    (offset totalLen : ℕ) (data : List UInt8) : List UInt8 :=
  [slotMagic0, slotMagic1, slotVersion, kind, flags, 0] ++ le32 offset ++
    le32 totalLen ++ le16 data.length ++ le16 transferId.toNat ++
    data ++ List.replicate (slotPayloadSize - data.length) 0

/-- The loop of `encode_slots`; each round but the last advances the offset,
so the length of the payload bounds the rounds. -/
def encodeSlotsFrom (kind : UInt8) (transferId : UInt16) (payload : List UInt8) :
    ℕ → ℕ → List (List UInt8)
  | 0, _ => []
  | rounds + 1, offset =>
      let totalLen := payload.length
      let stop := min (offset + slotPayloadSize) totalLen
      let chunk := slice payload offset stop
      let flags := if offset = 0 then flagStart else 0
      let flags := if totalLen ≤ stop then flags ||| flagEnd else flags
      let slot := encodeSlot kind flags transferId offset totalLen chunk
      if totalLen ≤ stop then [slot]
      else slot :: encodeSlotsFrom kind transferId payload rounds stop

def encodeSlots (kind : UInt8) (transferId : UInt16) (payload : List UInt8) :
    List (List UInt8) :=
  encodeSlotsFrom kind transferId payload (payload.length + 1) 0

/-- The slots `write_request` writes and the next transfer id. -/
def writeRequest (nextTransferId : UInt16) (magic : UInt8)
    (payload : List UInt8) : UInt16 × List (List UInt8) :=
  let payload := payload.take (min payload.length payloadMax)
  let frame := [magic,
    if magic = reqCommandMagic then respCommandMagic else respDataMagic] ++
      le16 payload.length ++ payload
  let kind := if magic = reqCommandMagic then kindCommand else kindData
  (max (nextTransferId + 1) 1, encodeSlots kind nextTransferId frame)

def sendData (nextTransferId : UInt16) (payload : List UInt8) :
    UInt16 × List (List UInt8) :=
  writeRequest nextTransferId reqDataMagic payload

/-! ## Reading a response -/

inductive Frame
  | data (payload : List UInt8)
  | command (payload : List UInt8)
  deriving DecidableEq

inductive Error
  | invalidFrame (magic : UInt8) (len : ℕ)
  deriving DecidableEq

structure DecodedSlot where
  kind : UInt8
  flags : UInt8
  transferId : UInt16
  offset : ℕ
  totalLen : ℕ
  data : List UInt8
  deriving DecidableEq

def decodeSlot (raw : List UInt8) : Except Error (Option DecodedSlot) :=
  let byte := fun i => raw.getD i 0
  if raw.all (· == 0x00) ∨ raw.all (· == 0xFF) ∨ byte 3 = kindIdle then .ok none
  else if byte 0 ≠ slotMagic0 ∨ byte 1 ≠ slotMagic1 ∨ byte 2 ≠ slotVersion then
    .error (.invalidFrame (byte 0) raw.length)
  else
    let dataLen := u16le (byte 14) (byte 15)
    if slotPayloadSize < dataLen then .error (.invalidFrame (byte 3) dataLen)
    else
      .ok (some
        { kind := byte 3
          flags := byte 4
          transferId := UInt16.ofNat (u16le (byte 16) (byte 17))
          offset := u32le (byte 6) (byte 7) (byte 8) (byte 9)
          totalLen := u32le (byte 10) (byte 11) (byte 12) (byte 13)
          data := slice raw slotHeaderSize (slotHeaderSize + dataLen) })

def parseResponse (slotKind : UInt8) (raw : List UInt8) : Except Error Frame :=
  if raw.length < frameHeaderSize then .error (.invalidFrame slotKind raw.length)
  else
    let byte := fun i => raw.getD i 0
    let magic :=
      if (byte 0, byte 1) = (reqDataMagic, respDataMagic) then respDataMagic
      else if (byte 0, byte 1) = (reqCommandMagic, respCommandMagic) then
        respCommandMagic
      else slotKind
    let len := u16le (byte 2) (byte 3)
    if payloadMax < len then .error (.invalidFrame magic len)
    else
      let payloadEnd := frameHeaderSize + len
      if raw.length < payloadEnd then .error (.invalidFrame magic len)
      else
        let payload := slice raw frameHeaderSize payloadEnd
        if magic = respDataMagic then .ok (.data payload)
        else if magic = respCommandMagic then .ok (.command payload)
        else .error (.invalidFrame magic len)

/-- The variables of `read_frame`. -/
structure ReadState where
  active : Bool
  kind : UInt8
  transferId : UInt16
  totalLen : ℕ
  nextOffset : ℕ
  raw : List UInt8
  deriving DecidableEq

namespace ReadState

def new : ReadState where
  active := false
  kind := kindIdle
  transferId := 0
  totalLen := 0
  nextOffset := 0
  raw := []

def accept (s : ReadState) (decoded : DecodedSlot) : Except Error ReadState :=
  if decoded.flags &&& flagStart ≠ 0 then
    .ok
      { active := true
        kind := decoded.kind
        transferId := decoded.transferId
        totalLen := decoded.totalLen
        nextOffset := decoded.data.length
        raw := decoded.data }
  else if s.active ∧ decoded.kind = s.kind ∧
      decoded.transferId = s.transferId ∧ decoded.offset = s.nextOffset then
    .ok
      { s with
        nextOffset := s.nextOffset + decoded.data.length
        raw := s.raw ++ decoded.data }
  else .error (.invalidFrame decoded.kind decoded.totalLen)

end ReadState

/-- The result with the slots not read yet; `none` when the reads run out. -/
def readFrom (s : ReadState) : List (List UInt8) →
    Option (Except Error Frame × List (List UInt8))
  | [] => none
  | slot :: reads =>
      match decodeSlot slot with
      | .error e => some (.error e, reads)
      | .ok none => readFrom s reads
      | .ok (some decoded) =>
          match s.accept decoded with
          | .error e => some (.error e, reads)
          | .ok t =>
              if decoded.flags &&& flagEnd ≠ 0 then
                if t.nextOffset ≠ t.totalLen then
                  some (.error (.invalidFrame t.kind t.totalLen), reads)
                else some (parseResponse t.kind t.raw, reads)
              else readFrom t reads

def readFrame (reads : List (List UInt8)) :
    Option (Except Error Frame × List (List UInt8)) :=
  readFrom ReadState.new reads

/-! ## Reading in Python -/

namespace Python

abbrev headerSize : ℕ := 18
abbrev payloadSize : ℕ := slotSize - headerSize

def magic0 : UInt8 := 0x49
def magic1 : UInt8 := 0x32
def version : UInt8 := 1

/-- The errors of `protocol.py`, each with the numbers of its text. -/
inductive ValueError
  | slotLength (got : ℕ)
  | slotMagic (byte0 byte1 : UInt8)
  | slotVersion (version : UInt8)
  | payloadLength (len : ℕ)
  | noStartFlag
  | startOffset
  | firstSlotTooLong
  | kindChanged
  | transferIdChanged
  | offsetMismatch (expected got : ℕ)
  | totalLenExceeded
  | endedEarly (expected got : ℕ)
  | noActiveTransfer
  deriving DecidableEq

structure Slot where
  kind : UInt8
  flags : UInt8
  transferId : ℕ
  offset : ℕ
  totalLen : ℕ
  data : List UInt8
  deriving DecidableEq

def decodeSlot (raw : List UInt8) : Except ValueError (Option Slot) :=
  let byte := fun i => raw.getD i 0
  if raw.length ≠ slotSize then .error (.slotLength raw.length)
  else if raw.all (· == 0x00) ∨ raw.all (· == 0xFF) then .ok none
  else if byte 0 ≠ magic0 ∨ byte 1 ≠ magic1 then
    .error (.slotMagic (byte 0) (byte 1))
  else if byte 2 ≠ version then .error (.slotVersion (byte 2))
  else if byte 3 = kindIdle then .ok none
  else
    let dataLen := u16le (byte 14) (byte 15)
    if payloadSize < dataLen then .error (.payloadLength dataLen)
    else
      .ok (some
        { kind := byte 3
          flags := byte 4
          transferId := u16le (byte 16) (byte 17)
          offset := u32le (byte 6) (byte 7) (byte 8) (byte 9)
          totalLen := u32le (byte 10) (byte 11) (byte 12) (byte 13)
          data := slice raw headerSize (headerSize + dataLen) })

structure RxAssembly where
  kind : UInt8
  transferId : ℕ
  totalLen : ℕ
  nextOffset : ℕ
  payload : List UInt8
  deriving DecidableEq

namespace RxAssembly

/-- `RxAssembly.__init__` -/
def init (slot : Slot) : Except ValueError RxAssembly :=
  if slot.flags &&& flagStart = 0 then .error .noStartFlag
  else if slot.offset ≠ 0 then .error .startOffset
  else if slot.totalLen < slot.data.length then .error .firstSlotTooLong
  else
    .ok
      { kind := slot.kind
        transferId := slot.transferId
        totalLen := slot.totalLen
        nextOffset := slot.data.length
        payload := slot.data }

/-- The assembly after the slot, and the payload once it is complete. -/
def push (assembly : RxAssembly) (slot : Slot) :
    Except ValueError (RxAssembly × Option (List UInt8)) :=
  if slot.kind ≠ assembly.kind then .error .kindChanged
  else if slot.transferId ≠ assembly.transferId then .error .transferIdChanged
  else if slot.offset ≠ assembly.nextOffset then
    .error (.offsetMismatch assembly.nextOffset slot.offset)
  else if assembly.totalLen < assembly.payload.length + slot.data.length then
    .error .totalLenExceeded
  else
    let assembly :=
      if slot.offset ≠ 0 then
        { assembly with
          payload := assembly.payload ++ slot.data
          nextOffset := assembly.nextOffset + slot.data.length }
      else assembly
    if slot.flags &&& flagEnd ≠ 0 then
      if assembly.payload.length ≠ assembly.totalLen then
        .error (.endedEarly assembly.totalLen assembly.payload.length)
      else .ok (assembly, some assembly.payload)
    else .ok (assembly, none)

end RxAssembly

/-- One turn of the loop of `read_packet`: the clock, and the slot read when
the deadline has not passed. -/
structure Poll where
  now : ℕ
  raw : List UInt8

/-- `timedOut` is the `None` of `read_packet`; `reading` is a reader that has
used up its polls. -/
inductive PacketResult
  | reading
  | timedOut
  | raised (e : ValueError)
  | packet (kind : UInt8) (payload : List UInt8) (rest : List Poll)

def readFrom (deadline : ℕ) (assembly : Option RxAssembly) :
    List Poll → PacketResult
  | [] => .reading
  | poll :: polls =>
      if poll.now < deadline then
        match decodeSlot poll.raw with
        | .error e => .raised e
        | .ok none => readFrom deadline assembly polls
        | .ok (some slot) =>
            if slot.flags &&& flagStart ≠ 0 then
              match RxAssembly.init slot with
              | .error e => .raised e
              | .ok assembly =>
                  if slot.flags &&& flagEnd ≠ 0 then
                    .packet slot.kind slot.data polls
                  else readFrom deadline (some assembly) polls
            else
              match assembly with
              | none => .raised .noActiveTransfer
              | some assembly =>
                  match assembly.push slot with
                  | .error e => .raised e
                  | .ok (_, some payload) => .packet slot.kind payload polls
                  | .ok (assembly, none) =>
                      readFrom deadline (some assembly) polls
      else .timedOut

def readPacket (start timeout : ℕ) (polls : List Poll) : PacketResult :=
  readFrom (start + timeout) none polls

end Python

end I2cHost
end PicoFi
