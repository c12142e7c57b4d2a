import PicoFi.OverwriteQueue
import PicoFi.LinkFrame

/-!
# The three mailbox messages

UART packets, I2C packets and SPI frames are stored in the same ring through
their own byte codecs.  Each codec is embedded as the source writes it, its
encoding is identified, and the ring correctness of `OverwriteQueue` is then
specialised to all three.
-/

namespace PicoFi
namespace Mailbox

open Buffer LinkFrame

/-! ## UART packets -/

abbrev maxPayload : ℕ := 4096

/-- A UART packet keeps a whole payload buffer, of which only the first `len`
bytes are meaningful. -/
structure Packet where
  kind : UInt8
  len : ℕ
  data : FixedBytes maxPayload
  len_le : len ≤ maxPayload

namespace Packet

def new (kind : UInt8) : Packet where
  kind := kind
  len := 0
  data := FixedBytes.padded []
  len_le := Nat.zero_le _

def payload (packet : Packet) : List UInt8 :=
  packet.data.toList.take packet.len

@[simp] theorem length_payload (packet : Packet) :
    packet.payload.length = packet.len := by
  simp only [payload, List.length_take, packet.data.length_toList]
  exact Nat.min_eq_left packet.len_le

/-- `finish` after a read into `buffer()`. -/
def finish (kind : UInt8) (data : FixedBytes maxPayload) (len : ℕ)
    (hlen : len ≤ maxPayload) : Packet :=
  ⟨kind, len, data, hlen⟩

def encode (packet : Packet) : List UInt8 :=
  packet.kind :: packet.payload

def queuedLen (packet : Packet) : ℕ := packet.len + 1

def copyQueuedSlice (packet : Packet) (start n : ℕ) : List UInt8 :=
  (List.range n).map fun i =>
    let p := start + i
    if p = 0 then packet.kind else packet.data.byte (p - 1)

def fromQueuedSlices (first second : List UInt8) : Option Packet :=
  let len := first.length + second.length
  if hlen : len = 0 ∨ maxPayload + 1 < len then none
  else
    match first ++ second with
    | [] => none
    | kind :: bytes =>
        some ⟨kind, len - 1, FixedBytes.padded bytes,
          Nat.sub_le_of_le_add (Nat.le_of_not_lt fun hlong => hlen (.inr hlong))⟩

theorem copyQueuedSlice_eq (packet : Packet) (start n : ℕ)
    (hn : start + n ≤ packet.encode.length) :
    packet.copyQueuedSlice start n =
      (packet.encode.drop start).take n := by
  have hlen : packet.encode.length = packet.len + 1 := by simp [encode]
  apply List.ext_getElem?
  intro i
  by_cases hi : i < n
  · rw [List.getElem?_take_of_lt hi, List.getElem?_drop]
    simp only [copyQueuedSlice, List.getElem?_map, List.getElem?_range hi,
      Option.map_some]
    cases hp : start + i with
    | zero => simp [encode]
    | succ p =>
        have hlt : p < packet.len := by omega
        have hdata : p < packet.data.toList.length := by
          rw [packet.data.length_toList]
          exact hlt.trans_le packet.len_le
        simp [encode, payload, FixedBytes.byte, hlt, hdata]
  · rw [List.getElem?_eq_none (by simp [copyQueuedSlice]; omega),
      List.getElem?_eq_none (by simp; omega)]

theorem fromQueuedSlices_encode (packet : Packet) (first second : List UInt8)
    (hsplit : first ++ second = packet.encode) :
    ∃ copy, fromQueuedSlices first second = some copy ∧
      copy.encode = packet.encode := by
  have hlen : first.length + second.length = packet.len + 1 := by
    rw [← List.length_append, hsplit]
    simp [encode]
  have hle := packet.len_le
  have hguard : ¬(first.length + second.length = 0 ∨
      maxPayload + 1 < first.length + second.length) := by omega
  have hbytes : first ++ second = packet.kind :: packet.payload := hsplit
  refine ⟨⟨packet.kind, first.length + second.length - 1,
    FixedBytes.padded packet.payload, by omega⟩, ?_, ?_⟩
  · unfold fromQueuedSlices
    simp only [hguard, hbytes, dif_neg, not_false_eq_true]
  · have hpadded :
        (FixedBytes.padded packet.payload : FixedBytes maxPayload).toList =
          packet.payload ++
            List.replicate (maxPayload - packet.payload.length) 0 :=
      FixedBytes.toList_padded packet.payload (by simpa using hle)
    have hlast : first.length + second.length - 1 = packet.payload.length := by
      rw [length_payload]
      omega
    show packet.kind :: (FixedBytes.padded packet.payload).toList.take
      (first.length + second.length - 1) = packet.kind :: packet.payload
    rw [hpadded, hlast, List.take_left]

theorem encode_eq_iff (a b : Packet) :
    a.encode = b.encode ↔ a.kind = b.kind ∧ a.payload = b.payload := by
  simp [encode]

instance : QueueCodec Packet where
  queuedLen := queuedLen
  copyQueuedSlice := copyQueuedSlice
  fromQueuedSlices := fromQueuedSlices
  wire := encode
  queuedLen_eq packet := by simp [encode, queuedLen]
  copyQueuedSlice_eq := copyQueuedSlice_eq
  fromQueuedSlices_wire := fromQueuedSlices_encode

end Packet

/-! ## I2C packets -/

abbrev i2cPacketMax : ℕ := 4096

/-- Variable-length message passed between the I2C bus task and the bridge
session. -/
@[ext] structure I2cPacket where
  kind : UInt8
  payload : BoundedVec UInt8 i2cPacketMax
  deriving DecidableEq

namespace I2cPacket

def encode (packet : I2cPacket) : List UInt8 :=
  packet.kind :: packet.payload.asSlice

def queuedLen (packet : I2cPacket) : ℕ := 1 + packet.payload.asSlice.length

def copyQueuedSlice (packet : I2cPacket) (start n : ℕ) : List UInt8 :=
  if n = 0 then []
  else if start = 0 then
    packet.kind :: slice packet.payload.asSlice 0 (n - 1)
  else slice packet.payload.asSlice (start - 1) (start - 1 + n)

def fromQueuedSlices (first second : List UInt8) : Option I2cPacket :=
  match first.head?.or second.head? with
  | none => none
  | some kind =>
      let payload : Option (BoundedVec UInt8 i2cPacketMax) :=
        if first = [] then BoundedVec.new.extendFromSlice (second.drop 1)
        else
          (BoundedVec.new.extendFromSlice (first.drop 1)).bind
            fun payload => payload.extendFromSlice second
      payload.map fun payload => ⟨kind, payload⟩

theorem copyQueuedSlice_eq (packet : I2cPacket) (start n : ℕ)
    (_hn : start + n ≤ packet.encode.length) :
    packet.copyQueuedSlice start n =
      (packet.encode.drop start).take n := by
  unfold copyQueuedSlice encode
  by_cases hzero : n = 0
  · simp [hzero]
  · rw [if_neg hzero]
    cases start with
    | zero =>
        obtain ⟨m, rfl⟩ := Nat.exists_eq_succ_of_ne_zero hzero
        simp [slice]
    | succ start =>
        simp [slice, List.drop_take]

theorem fromQueuedSlices_encode (packet : I2cPacket)
    (first second : List UInt8) (hsplit : first ++ second = packet.encode) :
    fromQueuedSlices first second = some packet := by
  unfold fromQueuedSlices
  cases first with
  | nil =>
      have hsecond : second = packet.kind :: packet.payload.asSlice := hsplit
      have hpayload := BoundedVec.extendFromSlice_eq_some
        BoundedVec.new packet.payload packet.payload.asSlice (by simp)
      simp [hsecond, hpayload]
  | cons kind rest =>
      have hboth : kind = packet.kind ∧
          rest ++ second = packet.payload.asSlice := by
        simpa [encode] using hsplit
      have hbound := packet.payload.length_le
      rw [← hboth.2, List.length_append] at hbound
      let front : BoundedVec UInt8 i2cPacketMax := ⟨rest, by omega⟩
      have hfront := BoundedVec.extendFromSlice_eq_some
        BoundedVec.new front rest (by simp [front])
      have hboth' := BoundedVec.extendFromSlice_eq_some
        front packet.payload second hboth.2.symm
      simp [hfront, hboth', hboth.1]

theorem encode_eq_iff (a b : I2cPacket) :
    a.encode = b.encode ↔ a = b := by
  rw [I2cPacket.ext_iff, BoundedVec.ext_iff]
  simp [encode]

instance : QueueCodec I2cPacket where
  queuedLen := queuedLen
  copyQueuedSlice := copyQueuedSlice
  fromQueuedSlices := fromQueuedSlices
  wire := encode
  queuedLen_eq packet := by simp [encode, queuedLen, Nat.add_comm]
  copyQueuedSlice_eq := copyQueuedSlice_eq
  fromQueuedSlices_wire packet first second hsplit :=
    ⟨packet, fromQueuedSlices_encode packet first second hsplit, rfl⟩

end I2cPacket

theorem I2cPacket.wire_injective :
    Function.Injective (QueueCodec.wire : I2cPacket → List UInt8) :=
  fun a b h => (I2cPacket.encode_eq_iff a b).mp h

/-! ## SPI frames -/

/-- Message type for framed SPI transfers passed between the bus task and
the bridge session. -/
@[ext] structure SpiFrame where
  data : BoundedVec UInt8 frameSize
  deriving DecidableEq

namespace SpiFrame

def fromRawFrame (data : Frame) : SpiFrame :=
  let payloadLen := u16le (data.byte 2) (data.byte 3)
  let len := min (frameHeaderSize + payloadLen) frameSize
  ⟨⟨data.toList.take len, by simp [data.length_toList]⟩⟩

def response (magic : UInt8) (payload : List UInt8) : SpiFrame :=
  let data : List UInt8 := List.replicate frameSize 0
  match buildFrameInto magic payload data with
  | none => ⟨BoundedVec.new⟩
  | some (len, data) =>
      ⟨(BoundedVec.new.extendFromSlice (data.take len)).getD BoundedVec.new⟩

def asSlice (frame : SpiFrame) : List UInt8 := frame.data.asSlice

def asFrame (frame : SpiFrame) : Frame := FixedBytes.padded frame.data.asSlice

def copyQueuedSlice (frame : SpiFrame) (start n : ℕ) : List UInt8 :=
  slice frame.data.asSlice start (start + n)

def fromQueuedSlices (first second : List UInt8) : Option SpiFrame :=
  ((BoundedVec.new.extendFromSlice first).bind
    fun data => data.extendFromSlice second).map SpiFrame.mk

theorem asSlice_response {magic : UInt8} {pair : UInt8 × UInt8}
    (hmagic : headerForMagic magic = some pair) (payload : List UInt8) :
    (response magic payload).asSlice = framed pair (payload.take payloadMax) := by
  set len := min (min payload.length payloadMax) 65535 with hlen
  have hmax : len ≤ payloadMax := by omega
  have htake : payload.take len = payload.take payloadMax := by
    rcases Nat.le_total payload.length payloadMax with h | h
    · have hlong : len = payload.length := by
        simp only [payloadMax, frameSize, frameHeaderSize] at h hlen
        omega
      rw [hlong, List.take_length, List.take_of_length_le h]
    · have hcut : len = payloadMax := by
        simp only [payloadMax, frameSize, frameHeaderSize] at h hlen ⊢
        omega
      rw [hcut]
  have hbuild : buildFrameInto magic payload (List.replicate frameSize 0) =
      some (frameHeaderSize + len, framed pair (payload.take len) ++
        (List.replicate frameSize 0).drop (frameHeaderSize + len)) := by
    have hout : frameHeaderSize ≤
        (List.replicate frameSize (0 : UInt8)).length := by
      rw [List.length_replicate]
      simp only [frameSize, frameHeaderSize]
      omega
    have heq := @buildFrameInto_eq magic payload (List.replicate frameSize 0)
      pair hmagic hout
    rw [List.length_replicate] at heq
    exact heq
  have hframed : (framed pair (payload.take len)).length =
      frameHeaderSize + len := by
    rw [length_framed, List.length_take]
    omega
  let data : BoundedVec UInt8 frameSize := ⟨framed pair (payload.take len), by
    rw [hframed]
    simp only [payloadMax, frameSize, frameHeaderSize] at hmax ⊢
    omega⟩
  have hextend : BoundedVec.new.extendFromSlice
      (framed pair (payload.take len)) = some data :=
    BoundedVec.extendFromSlice_eq_some _ _ _ rfl
  unfold response
  simp only [hbuild]
  rw [← hframed, List.take_left, hextend, htake.symm]
  rfl

theorem fromQueuedSlices_asSlice (frame : SpiFrame)
    (first second : List UInt8) (hsplit : first ++ second = frame.asSlice) :
    fromQueuedSlices first second = some frame := by
  have hbound := frame.data.length_le
  change frame.asSlice.length ≤ frameSize at hbound
  rw [← hsplit, List.length_append] at hbound
  let front : BoundedVec UInt8 frameSize := ⟨first, by omega⟩
  have hfront := BoundedVec.extendFromSlice_eq_some
    BoundedVec.new front first (by simp [front])
  have hboth := BoundedVec.extendFromSlice_eq_some
    front frame.data second hsplit.symm
  simp [fromQueuedSlices, hfront, hboth]

theorem asSlice_eq_iff (a b : SpiFrame) :
    a.asSlice = b.asSlice ↔ a = b := by
  rw [SpiFrame.ext_iff, BoundedVec.ext_iff]
  rfl

instance : QueueCodec SpiFrame where
  queuedLen frame := frame.data.asSlice.length
  copyQueuedSlice := copyQueuedSlice
  fromQueuedSlices := fromQueuedSlices
  wire := asSlice
  queuedLen_eq _ := rfl
  copyQueuedSlice_eq frame start n _ := by
    simp [copyQueuedSlice, slice, asSlice, List.drop_take]
  fromQueuedSlices_wire frame first second hsplit :=
    ⟨frame, fromQueuedSlices_asSlice frame first second hsplit, rfl⟩

end SpiFrame

theorem SpiFrame.wire_injective :
    Function.Injective (QueueCodec.wire : SpiFrame → List UInt8) :=
  fun a b h => (SpiFrame.asSlice_eq_iff a b).mp h

/-! ## Ring correctness for every message type -/

/-- For every capacity, byte budget and sequence of operations, the ring is a
bounded queue of items, and refused items leave it untouched. -/
def RefinesBoundedFifo (T : Type) [QueueCodec T] : Prop :=
  ∀ N B : ℕ, 0 < N → 0 < B → ∀ ops : List (QueueOp T),
    let ring := Runs.replies QueueState.apply (QueueState.new N B) ops
    let fifo := Runs.replies (fifoApply N B) [] ops
    ring.1.WithinBounds ∧
      ring.1.Represents (fifo.1.map QueueCodec.wire) ∧
      List.Forall₂ QueueReply.Matches ring.2 fifo.2 ∧
      ∀ item : T,
        ((ring.1.tryPushRef item).2 = false →
          (ring.1.tryPushRef item).1 = ring.1) ∧
        ((ring.1.pushOverwrite item).2 = false →
          (ring.1.pushOverwrite item).1 = ring.1)

theorem refinesBoundedFifo (T : Type) [QueueCodec T] : RefinesBoundedFifo T := by
  intro N B _ hB ops ring fifo
  have hrun := Runs.replies_simulate
    (QueueState.apply (N := N) (B := B) (T := T)) (fifoApply N B)
    (fun q items => q.Represents (items.map QueueCodec.wire))
    QueueReply.Matches (fun _ _ op hrep => hrep.apply op)
    (s := QueueState.new N B) (t := []) (QueueState.represents_new hB) ops
  exact ⟨hrun.1.withinBounds, hrun.1, hrun.2, fun item =>
    ⟨QueueState.tryPushRef_refused, QueueState.pushOverwrite_refused⟩⟩

/-- The mailbox ring refines the bounded queue for UART packets, I2C packets
and SPI frames, and each encoding determines the item's kind and payload. -/
theorem overwriteQueue_refines_boundedFifo :
    (RefinesBoundedFifo Packet ∧
      ∀ a b : Packet, QueueCodec.wire a = QueueCodec.wire b ↔
        a.kind = b.kind ∧ a.payload = b.payload) ∧
    (RefinesBoundedFifo I2cPacket ∧
      ∀ a b : I2cPacket, QueueCodec.wire a = QueueCodec.wire b ↔ a = b) ∧
    (RefinesBoundedFifo SpiFrame ∧
      ∀ a b : SpiFrame, QueueCodec.wire a = QueueCodec.wire b ↔ a = b) :=
  ⟨⟨refinesBoundedFifo Packet, Packet.encode_eq_iff⟩,
    ⟨refinesBoundedFifo I2cPacket, I2cPacket.encode_eq_iff⟩,
    ⟨refinesBoundedFifo SpiFrame, SpiFrame.asSlice_eq_iff⟩⟩

end Mailbox
end PicoFi
