import PicoFi.I2cRetention
import PicoFi.PythonReader
import PicoFi.SlotRequest
import PicoFi.SlotResponse

/-!
# Slots between the Python host and the slave

`write_packet` cuts a payload into the slots of a message, whose reassembly in
the slave goes on from slot to slot or is lost.  In the other direction the
slave hands out the slot of a message at its offset, and `read_packet` takes
it, whether it has the slots before it or not.
-/

namespace PicoFi

/-! ## Writing slots in Python -/

namespace I2cHost
namespace Python

open Buffer
open I2c (Message)

def encodeSlot (kind flags : UInt8) (transferId : UInt16)
    (offset totalLen : ℕ) (data : List UInt8) : List UInt8 :=
  I2cHost.encodeSlot kind flags transferId offset totalLen (data.take payloadSize)

/-- The body of the loop of `encode_slots`. -/
def slotAt (kind : UInt8) (transferId : UInt16) (payload : List UInt8) (offset : ℕ) :
    List UInt8 :=
  let chunk := slice payload offset (offset + payloadSize)
  let flags := if offset = 0 then flagStart else 0
  let flags := if payload.length ≤ offset + chunk.length then flags ||| flagEnd else flags
  encodeSlot kind flags transferId offset payload.length chunk

def encodeSlots (kind : UInt8) (transferId : UInt16) (payload : List UInt8) :
    List (List UInt8) :=
  if payload = [] then [encodeSlot kind (flagStart ||| flagEnd) transferId 0 0 []]
  else
    (List.range' 0 ((payload.length + (payloadSize - 1)) / payloadSize) payloadSize).map
      (slotAt kind transferId payload)

section Encode

variable {kind : UInt8} {transferId : UInt16} {payload : List UInt8}

theorem slotCount_of_ne_nil (hpayload : payload ≠ []) :
    (Message.mk kind transferId payload).slotCount =
      (payload.length + (payloadSize - 1)) / payloadSize := by
  have hpos := List.length_pos_of_ne_nil hpayload
  simp only [Message.slotCount, payloadSize, slotSize, headerSize, I2c.slotPayloadSize,
    I2c.slotSize, I2c.slotHeaderSize]
  omega

theorem slotAt_offset {i : ℕ} (hi : i < (Message.mk kind transferId payload).slotCount) :
    slotAt kind transferId payload (payloadSize * i) =
      (Message.mk kind transferId payload).slot i := by
  set m : Message := ⟨kind, transferId, payload⟩ with hm
  have hchunk : slice payload (payloadSize * i) (payloadSize * i + payloadSize) = m.chunk i :=
    rfl
  have hlast : payload.length ≤ payloadSize * i + (m.chunk i).length ↔
      i + 1 = m.slotCount := by
    have hstop := @Message.stop_lt_iff m i hi
    rw [Message.length_chunk]
    show payload.length ≤ 14 * i + min (payload.length - 14 * i) 14 ↔ _
    change 14 * i + 14 < payload.length ↔ _ at hstop
    omega
  have hfirst : payloadSize * i = 0 ↔ i = 0 := by simp [payloadSize, slotSize, headerSize]
  have hflags : (if i + 1 = m.slotCount then (if i = 0 then flagStart else 0) ||| flagEnd
      else if i = 0 then flagStart else 0) = m.slotFlags i := by
    rw [Message.slotFlags]
    split
    · rfl
    · rw [UInt8.or_zero]
      rfl
  have hwhole : (m.chunk i).take payloadSize = m.chunk i :=
    List.take_of_length_le Message.length_chunk_le
  simp only [slotAt, hchunk, hlast, hfirst, encodeSlot, hflags, hwhole]
  exact (@Message.slot_eq m i).symm

theorem encodeSlots_message :
    encodeSlots kind transferId payload = (Message.mk kind transferId payload).slots := by
  by_cases hempty : payload = []
  · subst hempty
    have hcount : (Message.mk kind transferId []).slotCount = 1 := by
      simp [Message.slotCount, I2c.slotPayloadSize, I2c.slotSize, I2c.slotHeaderSize]
    rw [Message.slots, hcount, encodeSlots, if_pos rfl, List.range_one, List.map_singleton,
      Message.slot_eq, Message.slotFlags, hcount]
    rfl
  · rw [encodeSlots, if_neg hempty, ← @slotCount_of_ne_nil kind transferId payload hempty]
    refine List.ext_getElem (by simp) fun i hi _ => ?_
    have hcount := by simpa using hi
    simp only [List.getElem_map, List.getElem_range', Nat.zero_add, slotAt_offset hcount,
      Message.slots, List.getElem_range]

end Encode

/-! ## One turn of `read_packet` -/

section Turns

variable {m : Message} {i deadline now : ℕ} {assembly : Option RxAssembly}

theorem turn_late (hlate : ¬now < deadline) (raw : List UInt8) :
    turn deadline assembly ⟨now, raw⟩ = .done fun _ => .timedOut := by
  rw [turn, if_neg hlate]

theorem turn_idle (hnow : now < deadline) {raw : List UInt8} (hidle : I2c.IsIdleSlot raw) :
    turn deadline assembly ⟨now, raw⟩ = .again assembly := by
  simp only [turn, if_pos hnow, decodeSlot_idle hidle]

/-- The reader can take slot number `i`: it begins a message, or continues the
one that is being put together. -/
def Fits (m : Message) (i : ℕ) (assembly : Option RxAssembly) : Prop :=
  i = 0 ∨ ∃ a, assembly = some a ∧ a.Holds m i

variable (hnow : now < deadline) (hkind : m.kind ≠ I2c.kindIdle)
  (hlen : m.payload.length < 4294967296) (hi : i < m.slotCount)

include hnow hkind hlen hi

theorem turn_slot (hfits : Fits m i assembly) :
    (i + 1 = m.slotCount ∧
        turn deadline assembly ⟨now, m.slot i⟩ = .done (.packet m.kind m.payload)) ∨
      (i + 1 < m.slotCount ∧ ∃ a, a.Holds m (i + 1) ∧
        turn deadline assembly ⟨now, m.slot i⟩ = .again (some a)) := by
  simp only [turn, if_pos hnow, decodeSlot_slot hkind hlen hi]
  by_cases hzero : i = 0
  · subst hzero
    obtain ⟨a, hinit, hholds⟩ := RxAssembly.init_first m
    have hstart : (decoded m 0).flags &&& flagStart ≠ 0 := Message.slotFlags_start.mpr rfl
    simp only [if_pos hstart, hinit]
    by_cases hlast : 0 + 1 = m.slotCount
    · have hend : (decoded m 0).flags &&& flagEnd ≠ 0 := Message.slotFlags_end.mpr hlast
      have hdata : (decoded m 0).data = m.payload :=
        Message.chunk_zero.trans (Message.take_of_last hlast)
      exact .inl ⟨hlast, by rw [if_pos hend, hdata]; rfl⟩
    · have hmore : ¬(decoded m 0).flags &&& flagEnd ≠ 0 := mt Message.slotFlags_end.mp hlast
      exact .inr ⟨by omega, a, hholds, if_neg hmore⟩
  · obtain ⟨a, rfl, hholds⟩ := hfits.resolve_left hzero
    obtain ⟨next, hnext, hpush⟩ := hholds.push hzero hi
    have hmiddle : ¬(decoded m i).flags &&& flagStart ≠ 0 :=
      mt Message.slotFlags_start.mp hzero
    simp only [if_neg hmiddle, hpush]
    by_cases hlast : i + 1 = m.slotCount
    · exact .inl ⟨hlast, by rw [if_pos hlast]; rfl⟩
    · exact .inr ⟨by omega, next, hnext, by rw [if_neg hlast]⟩

/-- A continuation slot without an assembly. -/
theorem turn_torn (hpos : i ≠ 0) :
    turn deadline none ⟨now, m.slot i⟩ = .done fun _ => .raised .noActiveTransfer := by
  have hmiddle : ¬(decoded m i).flags &&& flagStart ≠ 0 := mt Message.slotFlags_start.mp hpos
  simp only [turn, if_pos hnow, decodeSlot_slot hkind hlen hi, if_neg hmiddle]

end Turns

end Python
end I2cHost
namespace I2c

open Buffer LinkFrame Mailbox

/-! ## The slot handed out next -/

/-- Slot number `i` of the message is handed out next. -/
structure TxPacketState.At (s : TxPacketState) (m : Message) (i : ℕ) : Prop where
  active_eq : s.active = true
  message_eq : s.message = m
  nextOffset_eq : s.nextOffset = slotPayloadSize * i
  index_lt : i < m.slotCount

/-- The message that is handed out, with the number of its next slot. -/
abbrev Current := Option (Message × ℕ)

def TxPacketState.Shows (s : TxPacketState) : Current → Prop
  | none => s.active = false
  | some (m, i) => s.At m i

def advance (m : Message) (i : ℕ) : Current :=
  if i + 1 = m.slotCount then none else some (m, i + 1)

namespace TxPacketState

variable {s : TxPacketState} {m : Message} {i : ℕ}

theorem at_stage (s : TxPacketState) (kind : UInt8) (transferId : UInt16)
    (payload : List UInt8) :
    (s.stage kind transferId payload).At (s.stage kind transferId payload).message 0 :=
  ⟨rfl, rfl, rfl, Message.slotCount_pos _⟩

theorem At.length_payload (hs : s.At m i) : m.payload.length ≤ i2cPacketMax := by
  rw [← hs.message_eq, s.length_message_payload]
  exact s.payloadLen_le

theorem At.nextSlotBytes (hs : s.At m i) :
    s.nextSlotBytes.2 = m.slot i ∧ s.nextSlotBytes.1.Shows (advance m i) := by
  have haligned : s.Aligned := fun _ => ⟨i, hs.nextOffset_eq, by
    rw [hs.message_eq]
    exact hs.index_lt⟩
  have hremaining : s.remaining = m.slot i :: m.slots.drop (i + 1) := by
    rw [remaining, if_pos hs.active_eq, hs.nextOffset_eq, hs.message_eq,
      Nat.mul_div_cancel_left _ (by decide), Message.drop_slots _ hs.index_lt]
  obtain ⟨hnext, -⟩ := haligned.nextSlotBytes hs.active_eq
  rw [hremaining] at hnext
  obtain ⟨hslot, hrest⟩ := List.cons.inj hnext
  refine ⟨hslot.symm, ?_⟩
  have hlen : m.payload.length = s.payloadLen := by
    rw [← hs.message_eq, s.length_message_payload]
  have hoffset := Message.offset_le hs.index_lt
  have hstop := @Message.stop_lt_iff m i hs.index_lt
  have hi := hs.index_lt
  rw [hlen] at hoffset hstop
  simp only [TxPacketState.nextSlotBytes, hs.active_eq, not_true, if_false, hs.nextOffset_eq,
    advance]
  simp only [slotPayloadSize, slotSize, slotHeaderSize] at hoffset hstop ⊢
  by_cases hlast : i + 1 = m.slotCount
  · rw [if_pos hlast, if_pos (by omega)]
    rfl
  · rw [if_neg hlast, if_neg (by omega)]
    refine ⟨rfl, hs.message_eq, ?_, by omega⟩
    simp only [slotPayloadSize, slotSize, slotHeaderSize]
    omega

end TxPacketState

/-- The slot of a read and what is in hand behind it. -/
def handedOut : Current → List UInt8 × Current
  | none => (List.replicate slotSize 0, none)
  | some (m, i) => (m.slot i, advance m i)

theorem TxPacketState.Shows.nextSlotBytes {s : TxPacketState} {current : Current}
    (hs : s.Shows current) :
    s.nextSlotBytes.2 = (handedOut current).1 ∧
      s.nextSlotBytes.1.Shows (handedOut current).2 := by
  rcases current with _ | ⟨m, i⟩
  · rw [TxPacketState.nextSlotBytes_inactive hs]
    exact ⟨rfl, hs⟩
  · exact TxPacketState.At.nextSlotBytes hs

/-! ## One slot read -/

/-- What a response is staged as. -/
def bridgeMessage (transferId : UInt16) (packet : I2cPacket) : Message :=
  (TxPacketState.new.stageBridgePacket transferId packet).message

theorem at_stageBridgePacket (s : TxPacketState) (transferId : UInt16) (packet : I2cPacket) :
    (s.stageBridgePacket transferId packet).At (bridgeMessage transferId packet) 0 := by
  have hsame : s.stageBridgePacket transferId packet =
      TxPacketState.new.stageBridgePacket transferId packet := by
    simp only [TxPacketState.stageBridgePacket, TxPacketState.stageFramed,
      TxPacketState.stageError, TxPacketState.stage]
  obtain ⟨kind, bytes, hstage⟩ :=
    exists_stage_stageBridgePacket TxPacketState.new transferId packet
  rw [hsame, bridgeMessage, hstage]
  exact TxPacketState.at_stage _ _ _ _

/-- The task has `current` in hand and `waiting` in the queue of responses. -/
structure Holding (s : I2cTask) (current : Current) (waiting : List I2cPacket) : Prop where
  version : s.v2 = false
  shows : s.txPacket.Shows current
  contents : s.rxResp.contents = waiting.map QueueCodec.wire

/-- What a read finds in hand: a response is staged where nothing is. -/
def found (transferId : UInt16) : Current → List I2cPacket → Current × List I2cPacket
  | none, packet :: waiting => (some (bridgeMessage transferId packet, 0), waiting)
  | current, waiting => (current, waiting)

theorem Holding.stageResponsePacket {s : I2cTask} {current : Current}
    {waiting : List I2cPacket} (hs : Holding s current waiting) :
    Holding s.stageResponsePacket (found s.lastTransferId current waiting).1
      (found s.lastTransferId current waiting).2 := by
  rcases current with _ | ⟨m, i⟩
  · have hpending : ¬s.txPacket.hasPending = true := by
      rw [TxPacketState.hasPending, show s.txPacket.active = false from hs.shows]
      exact Bool.false_ne_true
    obtain ⟨htail, -⟩ := s.rxResp.contents_tryPop
    have hcontents := hs.contents
    rcases waiting with _ | ⟨packet, waiting⟩
    · have hpop := OverwriteQueue.tryPop_eq_none.mpr hcontents
      have hboth : s.rxResp.tryPop = (s.rxResp.tryPop.1, none) := Prod.ext rfl hpop
      rw [I2cTask.stageResponsePacket, if_neg hpending, hboth]
      rw [hcontents] at htail
      exact ⟨hs.version, rfl, htail⟩
    · have hpop := OverwriteQueue.tryPop_eq_some I2cPacket.wire_injective hcontents
      have hboth : s.rxResp.tryPop = (s.rxResp.tryPop.1, some packet) := Prod.ext rfl hpop
      rw [I2cTask.stageResponsePacket, if_neg hpending, hboth]
      rw [hcontents] at htail
      exact ⟨hs.version, at_stageBridgePacket _ _ _, htail⟩
  · have hpending : s.txPacket.hasPending = true := hs.shows.active_eq
    rw [I2cTask.stageResponsePacket, if_pos hpending]
    exact hs

theorem Holding.readReply {s : I2cTask} {current : Current} {waiting : List I2cPacket}
    (hs : Holding s current waiting) (io : ReadIo) :
    let next := found s.lastTransferId current waiting
    ∃ t, s.readReply io = some (t, .slot (handedOut next.1).1) ∧
      Holding t (handedOut next.1).2 next.2 ∧ t.lastTransferId = s.lastTransferId ∧
      t.rxPacket = s.rxPacket ∧ t.ingress = s.ingress := by
  intro next
  have hstaged := hs.stageResponsePacket
  have hframe : s.stageResponsePacket.lastTransferId = s.lastTransferId ∧
      s.stageResponsePacket.rxPacket = s.rxPacket ∧
      s.stageResponsePacket.ingress = s.ingress := by
    unfold I2cTask.stageResponsePacket
    split
    · exact ⟨rfl, rfl, rfl⟩
    · split <;> exact ⟨rfl, rfl, rfl⟩
  change Holding s.stageResponsePacket next.1 next.2 at hstaged
  obtain ⟨hslot, hnext⟩ := hstaged.shows.nextSlotBytes
  refine ⟨{ s.stageResponsePacket with
    txPacket := s.stageResponsePacket.txPacket.nextSlotBytes.1 }, ?_,
      ⟨hstaged.version, hnext, hstaged.contents⟩, hframe⟩
  rw [I2cTask.readReply, if_neg (by rw [hs.version]; exact Bool.false_ne_true), ← hslot]
  rfl

/-! ## One slot written -/

namespace RxPacketState

variable {m : Message} {n now : ℕ} {s : RxPacketState}

/-- Slot number `n` of the message is the one to come, if anything of the
message is held. -/
def Awaits (m : Message) (n : ℕ) (s : RxPacketState) : Prop :=
  n = 0 ∨ s.active = false ∨ ∃ before, s.Holds m n before

/-- The slots before are held and the timeout has not passed. -/
def Takes (m : Message) (n now : ℕ) (s : RxPacketState) : Prop :=
  n = 0 ∨ ∃ before, s.Holds m n before ∧ now < before + partialPacketTimeout

theorem Awaits.takes_or_lost (hs : s.Awaits m n) (now : ℕ) :
    s.Takes m n now ∨ n ≠ 0 ∧ (s.resetIfStale now).active = false := by
  by_cases hzero : n = 0
  · exact .inl (.inl hzero)
  rcases hs with h | hinactive | ⟨before, hholds⟩
  · exact absurd h hzero
  · refine .inr ⟨hzero, ?_⟩
    rw [resetIfStale, if_neg (by rw [hinactive]; exact Bool.false_ne_true)]
    exact hinactive
  · by_cases hfresh : now < before + partialPacketTimeout
    · exact .inl (.inr ⟨before, hholds, hfresh⟩)
    · have hstale : partialPacketTimeout ≤ now - before := by omega
      refine .inr ⟨hzero, ?_⟩
      simp only [resetIfStale, if_pos hholds.active_eq, hholds.startedAt_eq, if_pos hstale]
      rfl

variable (hlen : m.payload.length ≤ i2cPacketMax) (hn : n < m.slotCount)

include hlen hn

theorem Takes.pushSlot (hs : s.Takes m n now) :
    ∃ t reply, s.pushSlot now (m.decoded n) = some (t, reply) ∧ Advances m n now t reply := by
  by_cases hzero : n = 0
  · subst hzero
    exact pushSlot_first s now hlen
  · obtain ⟨before, hholds, hfresh⟩ := hs.resolve_left hzero
    exact hholds.pushSlot hlen hzero hn hfresh

omit hn in
theorem pushSlot_lost (hpos : n ≠ 0) (hlost : (s.resetIfStale now).active = false) :
    ∃ t, s.pushSlot now (m.decoded n) = some (t, .error invalidSlotMsg) ∧
      t.active = false := by
  have hsize : ¬i2cPacketMax < (m.decoded n).totalLen := Nat.not_lt.mpr hlen
  have hmiddle : ¬(m.decoded n).isStart = true := mt Message.isStart_decoded.mp hpos
  refine ⟨s.resetIfStale now, ?_, hlost⟩
  simp only [RxPacketState.pushSlot, hsize, if_neg hmiddle, if_false, continuePacket, hlost,
    Bool.false_eq_true, not_false_eq_true, if_true]

end RxPacketState

/-- What a write leaves alone while it is read. -/
structure SameElsewhere (s t : I2cTask) : Prop where
  version : t.v2 = false
  txPacket_eq : t.txPacket = s.txPacket
  rxResp_eq : t.rxResp = s.rxResp
  ingress_eq : t.ingress = s.ingress

section Written

variable {config : BridgeConfig} {m : Message} {n : ℕ} {s : I2cTask} {w : BusWrite}
  (hkind : m.kind ≠ kindIdle) (hlen : m.payload.length ≤ i2cPacketMax)
  (hn : n < m.slotCount) (hraw : w.raw = m.slot n)

include hkind hlen hn hraw

theorem writeAction_slot {rx : RxPacketState} {reply : SlotReply}
    (hpush : s.rxPacket.pushSlot w.now (m.decoded n) = some (rx, reply)) :
    s.writeAction config w = (match reply with
      | .ok (some (kind, transferId, totalLen)) =>
          (slice? rx.payload.toList 0 totalLen).map fun payload =>
            ({ s with
                v2 := false
                rxPacket := rx
                lastTransferId := nonzeroTransferId transferId },
              processCompletePacket config w.runtime kind transferId payload)
      | .ok none => some ({ s with v2 := false, rxPacket := rx }, .ignore)
      | .error msg =>
          some ({ s with v2 := false, rxPacket := rx }, .refuse s.lastTransferId msg)) := by
  unfold I2cTask.writeAction I2cTask.handleWriteSlot
  rw [receive_slot config s hlen hn hraw, decodeSlot_slot hkind hlen hn hraw]
  simp only [Option.bind_some, Bool.false_eq_true, if_false, hpush]
  rcases reply with msg | (_ | ⟨kind, transferId, totalLen⟩) <;> rfl

/-- A slot that is taken continues the message or completes it. -/
theorem writeAction_taken (htakes : s.rxPacket.Takes m n w.now) :
    ∃ t action, s.writeAction config w = some (t, action) ∧ SameElsewhere s t ∧
      ((n + 1 = m.slotCount ∧ action =
          processCompletePacket config w.runtime m.kind m.transferId m.payload) ∨
        (n + 1 < m.slotCount ∧ action = .ignore ∧ t.rxPacket.Holds m (n + 1) w.now)) := by
  obtain ⟨rx, reply, hpush, hadvances⟩ := htakes.pushSlot hlen hn
  have haction := @writeAction_slot config m n s w hkind hlen hn hraw rx reply hpush
  unfold RxPacketState.Advances at hadvances
  split at hadvances
  next hlast =>
    obtain ⟨rfl, hpayload⟩ := hadvances
    have hslice : slice? rx.payload.toList 0 m.payload.length = some m.payload := by
      rw [slice?_eq_some (Nat.zero_le _), slice_zero, hpayload]
      rw [rx.payload.length_toList]
      exact hlen
    simp only [hslice, Option.map_some] at haction
    exact ⟨_, _, haction, ⟨rfl, rfl, rfl, rfl⟩, .inl ⟨hlast, rfl⟩⟩
  next hopen =>
    obtain ⟨rfl, hholds⟩ := hadvances
    exact ⟨_, _, haction, ⟨rfl, rfl, rfl, rfl⟩, .inr ⟨by omega, rfl, hholds⟩⟩

/-- A slot of a message that is held no more is refused. -/
theorem writeAction_lost (hpos : n ≠ 0)
    (hlost : (s.rxPacket.resetIfStale w.now).active = false) :
    ∃ t, s.writeAction config w = some (t, .refuse s.lastTransferId invalidSlotMsg) ∧
      SameElsewhere s t ∧ t.rxPacket.active = false := by
  obtain ⟨rx, hpush, hinactive⟩ := RxPacketState.pushSlot_lost hlen hpos hlost
  exact ⟨_, @writeAction_slot config m n s w hkind hlen hn hraw rx _ hpush,
    ⟨rfl, rfl, rfl, rfl⟩, hinactive⟩

end Written

/-- A part of a slot is refused. -/
theorem writeAction_part {config : BridgeConfig} {m : Message} {n count : ℕ} {s : I2cTask}
    {w : BusWrite} (hversion : s.v2 = false) (hpart : count < slotSize)
    (hraw : w.raw = (m.slot n).take count) :
    ∃ t, s.writeAction config w = some (t, .refuse s.lastTransferId invalidSlotMsg) ∧
      SameElsewhere s t := by
  have hsize : w.raw.length < slotSize := by
    rw [hraw]
    exact (List.length_take_le _ _).trans_lt hpart
  have hhead : w.raw.head? ≠ some PacketV2.magic := by
    rw [hraw]
    cases count with
    | zero => exact nofun
    | succ count => exact (by decide : some slotMagic0 ≠ some PacketV2.magic)
  have hslot : IsSlotWrite s w.raw := by
    refine ⟨fun hselect => hhead ?_, hhead, fun hmode => ?_⟩
    · rw [hselect]
      rfl
    · rw [hversion] at hmode
      cases hmode
  have hdecode : decodeSlot (w.raw.take slotSize) = .error invalidSlotMsg := by
    rw [List.take_of_length_le hsize.le, decodeSlot, if_pos hsize.ne]
  refine ⟨{ s with v2 := false }, ?_, rfl, rfl, rfl, rfl⟩
  unfold I2cTask.writeAction I2cTask.handleWriteSlot
  rw [receive_slotWrite config w.runtime hslot]
  simp only [Option.bind_some, Bool.false_eq_true, if_false, hdecode]

/-! ## What a write stages -/

/-- What is staged for the task itself is no data. -/
def OwnMessage (m : Message) : Prop := m.kind = kindCommand ∨ m.kind = kindError

theorem kind_stageFramed (s : TxPacketState) (magic : UInt8) (transferId : UInt16)
    (payload : List UInt8) :
    OwnMessage (s.stageFramed magic kindCommand transferId payload).message := by
  unfold TxPacketState.stageFramed
  split
  · exact .inl rfl
  · exact .inr rfl

section Hold

variable {s t : I2cTask} {current : Current} {waiting : List I2cPacket}

theorem Holding.elsewhere (hs : Holding s current waiting) (hsame : SameElsewhere s t) :
    Holding t current waiting where
  version := hsame.version
  shows := hsame.txPacket_eq ▸ hs.shows
  contents := hsame.rxResp_eq ▸ hs.contents

theorem Holding.perform (hs : Holding s current waiting) (action : SlotAction) :
    Holding (s.perform action) current waiting ∨
      ∃ m, OwnMessage m ∧ Holding (s.perform action) (some (m, 0)) waiting := by
  cases action with
  | ignore => exact .inl hs
  | forward packet => exact .inl ⟨hs.version, hs.shows, hs.contents⟩
  | answer transferId magic text =>
      obtain ⟨kind, bytes, hstage⟩ := exists_stage_stageFramed s.txPacket magic
        kindCommand transferId text
      refine .inr ⟨_, kind_stageFramed s.txPacket magic transferId text, hs.version, ?_,
        hs.contents⟩
      show (s.txPacket.stageFramed magic kindCommand transferId text).At _ 0
      rw [hstage]
      exact TxPacketState.at_stage _ _ _ _
  | refuse transferId msg =>
      exact .inr ⟨(s.txPacket.stageError transferId msg).message, .inr rfl, hs.version,
        TxPacketState.at_stage _ _ _ _, hs.contents⟩

theorem Holding.recover (hs : Holding s current waiting) :
    ∃ m, OwnMessage m ∧ Holding s.recoverI2cState (some (m, 0)) waiting :=
  ⟨(s.txPacket.stageError s.lastTransferId invalidSlotMsg).message, .inr rfl, hs.version,
    TxPacketState.at_stage _ _ _ _, hs.contents⟩

end Hold

end I2c

end PicoFi
