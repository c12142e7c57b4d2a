import PicoFi.BridgeConfig
import PicoFi.QueueItems

/-!
# I2C slots

The first version of the I2C protocol cuts every packet into slots of 32
bytes.  This module has the slot codec, the reassembly of a written packet
and the transmit state that hands a staged packet out slot by slot.  The
transmit state is compared with the list of slots of a message.
-/

namespace PicoFi
namespace I2c

open Buffer LinkFrame Mailbox

/-! ## Slots -/

abbrev slotSize : ℕ := 32
abbrev slotHeaderSize : ℕ := 18
abbrev slotPayloadSize : ℕ := slotSize - slotHeaderSize

def slotMagic0 : UInt8 := 0x49
def slotMagic1 : UInt8 := 0x32
def slotVersion : UInt8 := 1

def kindIdle : UInt8 := 0x00
def kindData : UInt8 := 0x01
def kindCommand : UInt8 := 0x02
def kindError : UInt8 := 0x7F

def flagStart : UInt8 := 0x01
def flagEnd : UInt8 := 0x02

/-- 50 ms in microseconds. -/
def partialPacketTimeout : ℕ := 50000

/-- The longest payload that fits a link frame in one packet. -/
abbrev framedMax : ℕ := i2cPacketMax - frameHeaderSize

def invalidSlotMsg : List UInt8 := ascii "error invalid i2c slot"
def invalidKindMsg : List UInt8 := ascii "error invalid i2c kind"
def oversizeMsg : List UInt8 := ascii "error i2c payload too large"

structure Slot where
  kind : UInt8
  flags : UInt8
  transferId : UInt16
  offset : ℕ
  totalLen : ℕ
  dataLen : ℕ
  data : FixedBytes slotPayloadSize
  dataLen_le : dataLen ≤ slotPayloadSize
  deriving DecidableEq

def Slot.bytes (slot : Slot) : List UInt8 := slot.data.toList.take slot.dataLen

theorem Slot.length_bytes (slot : Slot) : slot.bytes.length = slot.dataLen := by
  rw [bytes, List.length_take, slot.data.length_toList]
  exact Nat.min_eq_left slot.dataLen_le

def Slot.isStart (slot : Slot) : Bool := slot.flags &&& flagStart != 0
def Slot.isEnd (slot : Slot) : Bool := slot.flags &&& flagEnd != 0

/-- `(n as u32).to_le_bytes()` -/
def le32 (n : ℕ) : List UInt8 :=
  [UInt8.ofNat n, UInt8.ofNat (n / 256), UInt8.ofNat (n / 65536),
    UInt8.ofNat (n / 16777216)]

/-- `u32::from_le_bytes` -/
def u32le (b0 b1 b2 b3 : UInt8) : ℕ :=
  b0.toNat + 256 * b1.toNat + 65536 * b2.toNat + 16777216 * b3.toNat

@[simp] theorem length_le32 (n : ℕ) : (le32 n).length = 4 := rfl

theorem u32le_ofNat {n : ℕ} (hn : n < 4294967296) :
    u32le (UInt8.ofNat n) (UInt8.ofNat (n / 256)) (UInt8.ofNat (n / 65536))
      (UInt8.ofNat (n / 16777216)) = n := by
  simp only [u32le, UInt8.toNat_ofNat']
  omega

def decodeSlot (raw : List UInt8) : Except (List UInt8) (Option Slot) :=
  let byte := fun i => raw.getD i 0
  if raw.length ≠ slotSize then .error invalidSlotMsg
  else if raw.all (· == 0x00) ∨ raw.all (· == 0xFF) then .ok none
  else if byte 0 ≠ slotMagic0 ∨ byte 1 ≠ slotMagic1 ∨ byte 2 ≠ slotVersion then
    .error invalidSlotMsg
  else if byte 3 = kindIdle then .ok none
  else
    let dataLen := u16le (byte 14) (byte 15)
    if hlen : slotPayloadSize < dataLen then .error invalidSlotMsg
    else
      .ok (some
        { kind := byte 3
          flags := byte 4
          transferId := UInt16.ofNat (u16le (byte 16) (byte 17))
          offset := u32le (byte 6) (byte 7) (byte 8) (byte 9)
          totalLen := u32le (byte 10) (byte 11) (byte 12) (byte 13)
          dataLen := dataLen
          data := FixedBytes.padded
            (slice raw slotHeaderSize (slotHeaderSize + dataLen))
          dataLen_le := Nat.le_of_not_lt hlen })

/-- Byte 5 of the header is not used. -/
def encodeSlot (kind flags : UInt8) (transferId : UInt16)
    (offset totalLen dataLen : ℕ) (data : FixedBytes slotPayloadSize) :
    List UInt8 :=
  [slotMagic0, slotMagic1, slotVersion, kind, flags, 0] ++ le32 offset ++
    le32 totalLen ++ le16 dataLen ++ le16 transferId.toNat ++
    (FixedBytes.padded (data.toList.take dataLen) :
      FixedBytes slotPayloadSize).toList

/-! ## Receiving a packet -/

structure RxPacketState where
  active : Bool
  kind : UInt8
  transferId : UInt16
  totalLen : ℕ
  nextOffset : ℕ
  payload : FixedBytes i2cPacketMax
  /-- In microseconds. -/
  startedAt : Option ℕ
  deriving DecidableEq

/-- What `push_slot` reports: a refusal, or the kind, id and length of a
packet that became complete. -/
abbrev SlotReply := Except (List UInt8) (Option (UInt8 × UInt16 × ℕ))

namespace RxPacketState

def new : RxPacketState where
  active := false
  kind := kindIdle
  transferId := 0
  totalLen := 0
  nextOffset := 0
  payload := FixedBytes.padded []
  startedAt := none

def reset (_ : RxPacketState) : RxPacketState := new

def resetIfStale (s : RxPacketState) (now : ℕ) : RxPacketState :=
  if s.active then
    match s.startedAt with
    | some started =>
        if partialPacketTimeout ≤ now - started then s.reset else s
    | none => s
  else s

/-- A slot with the start flag opens a packet.  `none` is a write outside the
buffer. -/
def startPacket (s : RxPacketState) (now : ℕ) (slot : Slot) :
    Option (RxPacketState × Except (List UInt8) Unit) :=
  let s := s.reset
  if slot.offset ≠ 0 ∨ slot.totalLen < slot.dataLen then
    some (s, .error invalidSlotMsg)
  else
    let s :=
      { s with
        active := true
        kind := slot.kind
        transferId := slot.transferId
        totalLen := slot.totalLen
        nextOffset := slot.dataLen
        startedAt := some now }
    if slot.dataLen ≠ 0 then
      (s.payload.write? 0 slot.bytes).map fun payload =>
        ({ s with payload := payload }, .ok ())
    else some (s, .ok ())

/-- Any other slot continues the open packet. -/
def continuePacket (s : RxPacketState) (now : ℕ) (slot : Slot) :
    Option (RxPacketState × Except (List UInt8) Unit) :=
  if ¬s.active then some (s, .error invalidSlotMsg)
  else if slot.kind ≠ s.kind ∨ slot.transferId ≠ s.transferId ∨
      slot.offset ≠ s.nextOffset ∨ s.totalLen < s.nextOffset + slot.dataLen then
    some (s.reset, .error invalidSlotMsg)
  else if slot.dataLen ≠ 0 then
    (s.payload.write? s.nextOffset slot.bytes).map fun payload =>
      ({ s with
        payload := payload
        nextOffset := s.nextOffset + slot.dataLen
        startedAt := some now }, .ok ())
  else some ({ s with startedAt := some now }, .ok ())

def endPacket (s : RxPacketState) (slot : Slot) : RxPacketState × SlotReply :=
  if slot.isEnd then
    if ¬s.active ∨ s.nextOffset ≠ s.totalLen then
      (s.reset, .error invalidSlotMsg)
    else
      ({ s with
        active := false
        kind := kindIdle
        transferId := 0
        totalLen := 0
        nextOffset := 0
        startedAt := none }, .ok (some (s.kind, s.transferId, s.totalLen)))
  else (s, .ok none)

/-- The clock is read once for the whole call. -/
def pushSlot (s : RxPacketState) (now : ℕ) (slot : Slot) :
    Option (RxPacketState × SlotReply) :=
  let s := s.resetIfStale now
  if i2cPacketMax < slot.totalLen then some (s.reset, .error oversizeMsg)
  else
    let taken :=
      if slot.isStart then s.startPacket now slot else s.continuePacket now slot
    match taken with
    | none => none
    | some (s, .error msg) => some (s, .error msg)
    | some (s, .ok ()) => some (s.endPacket slot)

/-- An open packet fits the buffer, and no more of it was received than its
total length. -/
def Bounded (s : RxPacketState) : Prop :=
  s.active = true → s.nextOffset ≤ s.totalLen ∧ s.totalLen ≤ i2cPacketMax

theorem new_bounded : new.Bounded := by
  intro hactive
  cases hactive

theorem Bounded.resetIfStale
    {s : RxPacketState} (hs : s.Bounded) (now : ℕ) :
    (s.resetIfStale now).Bounded := by
  unfold RxPacketState.resetIfStale
  split
  · split
    · split
      · exact new_bounded
      · exact hs
    · exact hs
  · exact hs

theorem startPacket_bounded
    (s : RxPacketState) (now : ℕ) {slot : Slot}
    (htotal : slot.totalLen ≤ i2cPacketMax) :
    ∃ t reply, s.startPacket now slot = some (t, reply) ∧ t.Bounded := by
  unfold startPacket
  by_cases hbad : slot.offset ≠ 0 ∨ slot.totalLen < slot.dataLen
  · simp only [hbad, if_true]
    exact ⟨_, _, rfl, new_bounded⟩
  · have hdata : slot.dataLen ≤ slot.totalLen := by omega
    simp only [hbad, if_false]
    split
    · have hfit : 0 + slot.bytes.length ≤ i2cPacketMax := by
        rw [slot.length_bytes]
        omega
      obtain ⟨payload, hpayload⟩ := Option.isSome_iff_exists.mp
        (@FixedBytes.isSome_write? _ s.reset.payload 0 slot.bytes hfit)
      rw [hpayload]
      exact ⟨_, _, rfl, fun _ => ⟨hdata, htotal⟩⟩
    · exact ⟨_, _, rfl, fun _ => ⟨hdata, htotal⟩⟩

theorem Bounded.continuePacket
    {s : RxPacketState} (hs : s.Bounded) (now : ℕ) (slot : Slot) :
    ∃ t reply, s.continuePacket now slot = some (t, reply) ∧ t.Bounded := by
  unfold RxPacketState.continuePacket
  by_cases hactive : s.active = true
  · obtain ⟨hnext, htotal⟩ := hs hactive
    by_cases hbad : slot.kind ≠ s.kind ∨ slot.transferId ≠ s.transferId ∨
        slot.offset ≠ s.nextOffset ∨ s.totalLen < s.nextOffset + slot.dataLen
    · simp only [hactive, not_true, if_false, hbad, if_true]
      exact ⟨_, _, rfl, new_bounded⟩
    · have hdata : s.nextOffset + slot.dataLen ≤ s.totalLen := by
        by_contra hlong
        exact hbad (.inr (.inr (.inr (by omega))))
      simp only [hactive, not_true, if_false, hbad]
      split
      · have hfit : s.nextOffset + slot.bytes.length ≤ i2cPacketMax := by
          rw [slot.length_bytes]
          omega
        obtain ⟨payload, hpayload⟩ := Option.isSome_iff_exists.mp
          (@FixedBytes.isSome_write? _ s.payload s.nextOffset slot.bytes hfit)
        rw [hpayload]
        exact ⟨_, _, rfl, fun _ => ⟨hdata, htotal⟩⟩
      · exact ⟨_, _, rfl, fun _ => ⟨hnext, htotal⟩⟩
  · simp only [hactive, Bool.false_eq_true, not_false_eq_true, if_true]
    exact ⟨_, _, rfl, hs⟩

theorem Bounded.endPacket
    {s : RxPacketState} (hs : s.Bounded) (slot : Slot) :
    (s.endPacket slot).1.Bounded ∧
      ∀ kind id len, (s.endPacket slot).2 = .ok (some (kind, id, len)) →
        len ≤ i2cPacketMax := by
  unfold RxPacketState.endPacket
  split
  · split
    · refine ⟨new_bounded, ?_⟩
      intro kind id len hreply
      cases hreply
    · next hclosed =>
      have hactive : s.active = true := by
        by_contra hinactive
        exact hclosed (.inl hinactive)
      refine ⟨fun h => absurd h Bool.false_ne_true, ?_⟩
      intro kind id len hreply
      cases hreply
      exact (hs hactive).2
  · refine ⟨hs, ?_⟩
    intro kind id len hreply
    cases hreply

/-- No slot makes the reassembly leave its buffer. -/
theorem Bounded.pushSlot
    {s : RxPacketState} (hs : s.Bounded) (now : ℕ) (slot : Slot) :
    ∃ t reply, s.pushSlot now slot = some (t, reply) ∧ t.Bounded ∧
      ∀ kind id len, reply = .ok (some (kind, id, len)) →
        len ≤ i2cPacketMax := by
  unfold RxPacketState.pushSlot
  by_cases hover : i2cPacketMax < slot.totalLen
  · simp only [hover, if_true]
    exact ⟨_, _, rfl, new_bounded, fun _ _ _ h => nomatch h⟩
  · have htaken : ∃ t reply,
        (if slot.isStart = true then (s.resetIfStale now).startPacket now slot
          else (s.resetIfStale now).continuePacket now slot) =
            some (t, reply) ∧ t.Bounded := by
      split
      · exact startPacket_bounded _ now (Nat.le_of_not_lt hover)
      · exact (hs.resetIfStale now).continuePacket now slot
    obtain ⟨t, reply, htaken, ht⟩ := htaken
    simp only [hover, if_false, htaken]
    cases reply with
    | error msg => exact ⟨_, _, rfl, ht, fun _ _ _ h => nomatch h⟩
    | ok _ => exact ⟨_, _, rfl, ht.endPacket slot⟩

end RxPacketState

/-! ## Handing a packet out -/

structure TxPacketState where
  active : Bool
  kind : UInt8
  transferId : UInt16
  payloadLen : ℕ
  nextOffset : ℕ
  payload : FixedBytes i2cPacketMax
  payloadLen_le : payloadLen ≤ i2cPacketMax
  deriving DecidableEq

namespace TxPacketState

def new : TxPacketState where
  active := false
  kind := kindIdle
  transferId := 1
  payloadLen := 0
  nextOffset := 0
  payload := FixedBytes.padded []
  payloadLen_le := Nat.zero_le _

def reset (s : TxPacketState) : TxPacketState :=
  { new with transferId := s.transferId }

def stage (_ : TxPacketState) (kind : UInt8) (transferId : UInt16)
    (payload : List UInt8) : TxPacketState :=
  let len := min payload.length i2cPacketMax
  { active := true
    kind := kind
    transferId := transferId
    payloadLen := len
    nextOffset := 0
    payload := FixedBytes.padded (payload.take len)
    payloadLen_le := Nat.min_le_right _ _ }

def stageError (s : TxPacketState) (transferId : UInt16)
    (payload : List UInt8) : TxPacketState :=
  s.stage kindError transferId payload

def stageIdle (s : TxPacketState) (transferId : UInt16) : TxPacketState :=
  { s with transferId := transferId }.reset

/-- The payload goes out inside a link frame built in a packet buffer. -/
def stageFramed (s : TxPacketState) (magic kind : UInt8) (transferId : UInt16)
    (payload : List UInt8) : TxPacketState :=
  match buildFrameInto magic payload (List.replicate i2cPacketMax 0) with
  | some (len, out) => s.stage kind transferId (out.take len)
  | none => s.stageError transferId oversizeMsg

def stageBridgePacket (s : TxPacketState) (transferId : UInt16)
    (packet : I2cPacket) : TxPacketState :=
  if packet.kind = kindData then
    s.stageFramed respDataMagic packet.kind transferId packet.payload.asSlice
  else if packet.kind = kindCommand then
    s.stageFramed respCommandMagic packet.kind transferId packet.payload.asSlice
  else if packet.kind = kindError then
    s.stageFramed respCommandMagic packet.kind transferId packet.payload.asSlice
  else s.stageError transferId invalidSlotMsg

def hasPending (s : TxPacketState) : Bool := s.active

def nextSlotBytes (s : TxPacketState) : TxPacketState × List UInt8 :=
  if ¬s.active then (s, List.replicate slotSize 0)
  else
    let offset := s.nextOffset
    let remaining := s.payloadLen - offset
    let dataLen := min remaining slotPayloadSize
    let stop := offset + dataLen
    let data := FixedBytes.padded (slice s.payload.toList offset stop)
    let flags := if offset = 0 then flagStart else 0
    let flags := if s.payloadLen ≤ stop then flags ||| flagEnd else flags
    let slot := encodeSlot s.kind flags s.transferId offset s.payloadLen dataLen
      data
    (if s.payloadLen ≤ stop then s.reset else { s with nextOffset := stop },
      slot)

end TxPacketState

/-! ## The slots of a message -/

/-- What a slot sequence carries: a kind, an id and the bytes. -/
structure Message where
  kind : UInt8
  transferId : UInt16
  payload : List UInt8
  deriving DecidableEq

namespace Message

variable (m : Message)

def slotCount : ℕ :=
  max 1 ((m.payload.length + (slotPayloadSize - 1)) / slotPayloadSize)

def slotFlags (i : ℕ) : UInt8 :=
  (if i = 0 then flagStart else 0) |||
    (if i + 1 = m.slotCount then flagEnd else 0)

def slot (i : ℕ) : List UInt8 :=
  let offset := slotPayloadSize * i
  encodeSlot m.kind (m.slotFlags i) m.transferId offset m.payload.length
    (min (m.payload.length - offset) slotPayloadSize)
    (FixedBytes.padded (slice m.payload offset (offset + slotPayloadSize)))

def slots : List (List UInt8) := (List.range m.slotCount).map m.slot

@[simp] theorem length_slots : m.slots.length = m.slotCount := by
  simp [slots]

theorem slotCount_pos : 0 < m.slotCount := by
  unfold slotCount
  omega

theorem drop_slots
    {i : ℕ} (hi : i < m.slotCount) :
    m.slots.drop i = m.slot i :: m.slots.drop (i + 1) := by
  have hlen : i < m.slots.length := by simpa using hi
  rw [List.drop_eq_getElem_cons hlen]
  simp [slots]

theorem slots_eq_cons : m.slots = m.slot 0 :: m.slots.drop 1 := by
  rw [← m.drop_slots m.slotCount_pos, List.drop_zero]

theorem drop_slots_last
    {i : ℕ} (hi : i + 1 = m.slotCount) : m.slots.drop (i + 1) = [] := by
  rw [hi, ← m.length_slots, List.drop_length]

end Message

namespace TxPacketState

def message (s : TxPacketState) : Message where
  kind := s.kind
  transferId := s.transferId
  payload := s.payload.toList.take s.payloadLen

def remaining (s : TxPacketState) : List (List UInt8) :=
  if s.active then s.message.slots.drop (s.nextOffset / slotPayloadSize) else []

/-- An active state is about to hand out one of its slots. -/
def Aligned (s : TxPacketState) : Prop :=
  s.active = true →
    ∃ i, s.nextOffset = slotPayloadSize * i ∧ i < s.message.slotCount

theorem new_aligned : new.Aligned := by
  intro hactive
  cases hactive

theorem length_message_payload (s : TxPacketState) :
    s.message.payload.length = s.payloadLen := by
  rw [message, List.length_take, s.payload.length_toList]
  exact Nat.min_eq_left s.payloadLen_le

theorem message_stage
    (s : TxPacketState) (kind : UInt8) (transferId : UInt16)
    (payload : List UInt8) :
    (s.stage kind transferId payload).message =
      ⟨kind, transferId, payload.take i2cPacketMax⟩ := by
  have hlen : (payload.take (min payload.length i2cPacketMax)).length ≤
      i2cPacketMax := by
    rw [List.length_take]
    omega
  have htake : payload.take (min payload.length i2cPacketMax) =
      payload.take i2cPacketMax := by
    rcases Nat.le_total payload.length i2cPacketMax with h | h
    · rw [Nat.min_eq_left h, List.take_length, List.take_of_length_le h]
    · rw [Nat.min_eq_right h]
  have hpadded := FixedBytes.toList_padded _ hlen
  have hfront : (payload.take (min payload.length i2cPacketMax)).length =
      min payload.length i2cPacketMax := by
    rw [List.length_take]
    omega
  simp only [message, stage, Message.mk.injEq, true_and]
  rw [hpadded, List.take_left' hfront, htake]

theorem stage_aligned
    (s : TxPacketState) (kind : UInt8) (transferId : UInt16)
    (payload : List UInt8) :
    (s.stage kind transferId payload).Aligned :=
  fun _ => ⟨0, rfl, Message.slotCount_pos _⟩

theorem remaining_stage
    (s : TxPacketState) (kind : UInt8) (transferId : UInt16)
    (payload : List UInt8) :
    (s.stage kind transferId payload).remaining =
      (s.stage kind transferId payload).message.slots := by
  have hactive : (s.stage kind transferId payload).active = true := rfl
  have hoffset : (s.stage kind transferId payload).nextOffset = 0 := rfl
  rw [remaining, if_pos hactive, hoffset, Nat.zero_div, List.drop_zero]

theorem message_stageFramed
    (s : TxPacketState) {magic : UInt8} {pair : UInt8 × UInt8}
    (hmagic : headerForMagic magic = some pair) (kind : UInt8)
    (transferId : UInt16) (payload : List UInt8) :
    (s.stageFramed magic kind transferId payload).message =
      ⟨kind, transferId, framed pair (payload.take framedMax)⟩ := by
  have hlen : min (min payload.length (i2cPacketMax - frameHeaderSize)) 65535 =
      min payload.length framedMax := by
    simp only [framedMax, i2cPacketMax, frameHeaderSize]
    omega
  have htake : payload.take (min payload.length framedMax) =
      payload.take framedMax := by
    rcases Nat.le_total payload.length framedMax with h | h
    · rw [Nat.min_eq_left h, List.take_length, List.take_of_length_le h]
    · rw [Nat.min_eq_right h]
  have hbuild : buildFrameInto magic payload (List.replicate i2cPacketMax 0) =
      some (frameHeaderSize + min payload.length framedMax,
        framed pair (payload.take framedMax) ++
          (List.replicate i2cPacketMax 0).drop
            (frameHeaderSize + min payload.length framedMax)) := by
    have hout : frameHeaderSize ≤
        (List.replicate i2cPacketMax (0 : UInt8)).length := by
      rw [List.length_replicate]
      simp only [i2cPacketMax, frameHeaderSize]
      omega
    have heq := @buildFrameInto_eq magic payload
      (List.replicate i2cPacketMax 0) pair hmagic hout
    simp only [List.length_replicate, hlen, htake] at heq
    exact heq
  have hframed : (framed pair (payload.take framedMax)).length =
      frameHeaderSize + min payload.length framedMax := by
    rw [length_framed, List.length_take, Nat.min_comm]
  rw [stageFramed, hbuild]
  simp only
  rw [message_stage, List.take_left' hframed, List.take_of_length_le]
  rw [hframed]
  simp only [framedMax, i2cPacketMax, frameHeaderSize]
  omega

theorem slice_message
    (s : TxPacketState) {offset : ℕ} (hoffset : offset ≤ s.payloadLen) :
    slice s.payload.toList offset
        (offset + min (s.payloadLen - offset) slotPayloadSize) =
      slice s.message.payload offset (offset + slotPayloadSize) := by
  have hstop : offset + min (s.payloadLen - offset) slotPayloadSize =
      min (offset + slotPayloadSize) s.payloadLen := by
    omega
  rw [slice, slice, message, List.take_take, hstop]

theorem Aligned.nextSlotBytes
    {s : TxPacketState} (haligned : s.Aligned) (hactive : s.active = true) :
    s.remaining = s.nextSlotBytes.2 :: s.nextSlotBytes.1.remaining ∧
      s.nextSlotBytes.1.Aligned := by
  obtain ⟨i, hoffset, hi⟩ := haligned hactive
  have hlen := s.length_message_payload
  have hcount : s.message.slotCount = max 1 ((s.payloadLen + 13) / 14) := by
    rw [Message.slotCount, hlen]
    rfl
  have hle : s.nextOffset ≤ s.payloadLen := by
    simp only [slotPayloadSize, slotSize, slotHeaderSize] at hoffset
    omega
  have hlast : s.payloadLen ≤ s.nextOffset +
      min (s.payloadLen - s.nextOffset) slotPayloadSize ↔
        i + 1 = s.message.slotCount := by
    simp only [slotPayloadSize, slotSize, slotHeaderSize] at hoffset ⊢
    omega
  have hzero : s.nextOffset = 0 ↔ i = 0 := by
    simp only [slotPayloadSize, slotSize, slotHeaderSize] at hoffset
    omega
  have hslot : s.nextSlotBytes.2 = s.message.slot i := by
    have hflags : (if s.payloadLen ≤ s.nextOffset +
          min (s.payloadLen - s.nextOffset) slotPayloadSize then
        (if s.nextOffset = 0 then flagStart else 0) ||| flagEnd
        else (if s.nextOffset = 0 then flagStart else 0)) =
        s.message.slotFlags i := by
      simp only [hlast, hzero, Message.slotFlags]
      split <;> simp
    simp only [TxPacketState.nextSlotBytes, hactive, not_true, if_false, hflags,
      Message.slot, ← hoffset, s.slice_message hle, hlen]
    rfl
  have hremaining : s.remaining =
      s.message.slot i :: s.message.slots.drop (i + 1) := by
    rw [remaining, if_pos hactive, hoffset, Nat.mul_div_cancel_left _ (by decide),
      Message.drop_slots _ hi]
  rw [hslot, hremaining]
  by_cases hend : i + 1 = s.message.slotCount
  · have hdone : s.nextSlotBytes.1 = s.reset := by
      simp only [TxPacketState.nextSlotBytes, hactive, not_true, if_false,
        if_pos (hlast.mpr hend)]
    rw [hdone]
    refine ⟨?_, fun h => absurd h Bool.false_ne_true⟩
    rw [hend, ← Message.length_slots, List.drop_length]
    rfl
  · have hnext : s.nextSlotBytes.1 =
        { s with nextOffset := slotPayloadSize * (i + 1) } := by
      simp only [TxPacketState.nextSlotBytes, hactive, not_true, if_false,
        if_neg (fun h => hend (hlast.mp h))]
      congr 1
      simp only [slotPayloadSize, slotSize, slotHeaderSize] at hoffset ⊢
      omega
    rw [hnext]
    refine ⟨?_, fun _ => ⟨i + 1, rfl, ?_⟩⟩
    · simp only [remaining, hactive, if_true]
      rw [Nat.mul_div_cancel_left _ (by decide)]
      rfl
    · have hsame : (TxPacketState.message
          { s with nextOffset := slotPayloadSize * (i + 1) }).slotCount =
            s.message.slotCount := rfl
      rw [hsame]
      omega

theorem nextSlotBytes_ne_idle
    {s : TxPacketState} (hactive : s.active = true) :
    s.nextSlotBytes.2 ≠ List.replicate slotSize 0 := by
  intro hzero
  have hhead := congrArg List.head? hzero
  simp only [nextSlotBytes, hactive, not_true, if_false, encodeSlot,
    List.cons_append, List.head?_cons, List.head?_replicate] at hhead
  exact absurd hhead (by decide)

theorem remaining_of_inactive
    {s : TxPacketState} (hinactive : s.active = false) : s.remaining = [] := by
  simp [remaining, hinactive]

theorem nextSlotBytes_inactive
    {s : TxPacketState} (hinactive : s.active = false) :
    s.nextSlotBytes = (s, List.replicate slotSize 0) := by
  simp [nextSlotBytes, hinactive]

end TxPacketState

end I2c
end PicoFi
