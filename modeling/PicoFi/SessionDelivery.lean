import PicoFi.I2cTask
import PicoFi.SpiSession

/-!
# The I2C and the SPI session

The two sessions as instances of one loop.  Each checks for the largest item
a network frame can become, and no response of its handler is refused by the
queue, so the frames of the network reach the response queue in order and
only the network ends a session.
-/

namespace PicoFi
namespace I2c

open Buffer LinkFrame Mailbox Bridge

def handleI2cRequest (config : BridgeConfig) (runtime : CommandRuntime)
    (packet : I2cPacket) (socket : Bool) : Option (RequestEffect I2cPacket) :=
  let payload := packet.payload.asSlice
  if packet.kind = kindData then
    if socket ∧ payload ≠ [] then some (.writeBridgeFrame payload)
    else some .none
  else if packet.kind = kindCommand then
    (makePacket kindCommand (localResponse config runtime payload)).map .respond
  else (makePacket kindError (ascii "error invalid i2c frame")).map .respond

theorem exists_makePacket
    (kind : UInt8) {payload : List UInt8} (hpayload : payload.length ≤ i2cPacketMax) :
    ∃ packet, makePacket kind payload = some packet ∧
      QueueCodec.wire packet = kind :: payload := by
  have hextend := BoundedVec.extendFromSlice_eq_some BoundedVec.new
    (⟨payload, hpayload⟩ : BoundedVec UInt8 i2cPacketMax) payload rfl
  refine ⟨⟨kind, ⟨payload, hpayload⟩⟩, ?_, rfl⟩
  rw [makePacket, hextend, Option.map_some]

theorem pushable_packet (packet : I2cPacket) :
    Pushable I2cPacket packetQueueDepth packetQueueBytes packet := by
  have hlen : packet.payload.asSlice.length ≤ i2cPacketMax :=
    packet.payload.length_le
  have hqueued : QueueItem.queuedLen packet = 1 + packet.payload.asSlice.length :=
    rfl
  unfold Pushable
  rw [hqueued]
  simp only [i2cPacketMax, packetQueueDepth, packetQueueBytes] at hlen ⊢
  omega

theorem handleI2cRequest_fits
    (config : BridgeConfig) (runtime : CommandRuntime) (packet : I2cPacket)
    (socket : Bool) :
    ∃ effect, handleI2cRequest config runtime packet socket = some effect ∧
      effect.Fits packetQueueDepth packetQueueBytes := by
  have hrespond : ∀ (kind : UInt8) {text : List UInt8},
      text.length ≤ i2cPacketMax → ∃ effect : RequestEffect I2cPacket,
        (makePacket kind text).map .respond = some effect ∧
          effect.Fits packetQueueDepth packetQueueBytes := by
    intro kind text htext
    obtain ⟨response, hresponse, -⟩ := exists_makePacket kind htext
    exact ⟨.respond response, by rw [hresponse, Option.map_some],
      pushable_packet response⟩
  unfold handleI2cRequest
  simp only
  split
  · split
    · refine ⟨_, rfl, ?_⟩
      have hlen : packet.payload.asSlice.length ≤ i2cPacketMax :=
        packet.payload.length_le
      simp only [RequestEffect.Fits, i2cPacketMax] at hlen ⊢
      omega
    · exact ⟨_, rfl, trivial⟩
  · split
    · apply hrespond
      have hlen := length_renderLocalBridgeCommand_le config runtime
        (trimAsciiLine packet.payload.asSlice)
      simp only [commandTextMax, i2cPacketMax, localResponse] at hlen ⊢
      omega
    · apply hrespond
      decide

def session (config : BridgeConfig) :
    SessionKind I2cPacket packetQueueDepth packetQueueBytes where
  netBuf := i2cPacketMax
  reserve := i2cPacketMax + 1
  networkItem := makePacket kindData
  networkWire payload := kindData :: payload
  handleRequest runtime packet := handleI2cRequest config runtime packet true
  networkItem_fits payload hpayload := by
    obtain ⟨packet, hpacket, hwire⟩ := exists_makePacket kindData hpayload
    refine ⟨packet, hpacket, hwire, ?_, ?_⟩
    · simp
    · simpa using hpayload
  handleRequest_fits runtime packet :=
    handleI2cRequest_fits config runtime packet true

end I2c

namespace Spi

open Buffer LinkFrame Mailbox Bridge

theorem length_asSlice_response
    {magic : UInt8} (hmagic : (headerForMagic magic).isSome = true)
    (payload : List UInt8) :
    frameHeaderSize ≤ (SpiFrame.response magic payload).asSlice.length ∧
      (SpiFrame.response magic payload).asSlice.length ≤ frameSize := by
  obtain ⟨pair, hpair⟩ := Option.isSome_iff_exists.mp hmagic
  rw [SpiFrame.asSlice_response hpair, length_framed, List.length_take]
  simp only [payloadMax, frameSize, frameHeaderSize]
  omega

theorem fits_respond
    {magic : UInt8} (hmagic : (headerForMagic magic).isSome = true)
    (payload : List UInt8) :
    (RequestEffect.respond (SpiFrame.response magic payload)).Fits
      queueDepth queueBytes := by
  obtain ⟨hlow, hhigh⟩ := length_asSlice_response hmagic payload
  have hqueued : QueueItem.queuedLen (SpiFrame.response magic payload) =
      (SpiFrame.response magic payload).asSlice.length := rfl
  simp only [RequestEffect.Fits, Pushable, hqueued]
  simp only [frameSize, frameHeaderSize, queueDepth, queueBytes] at hlow hhigh ⊢
  omega

theorem handleSpiRequest_fits
    (config : BridgeConfig) (runtime : CommandRuntime) (frame : SpiFrame)
    (socket : Bool) :
    (handleSpiRequest config runtime frame socket).Fits queueDepth queueBytes := by
  have hframe : frame.asSlice.length ≤ frameSize := frame.data.length_le
  have hshort : ∀ {payload : List UInt8},
      parseRequestBytes frame.asSlice = some (.data payload) ∨
        parseRequestBytes frame.asSlice = some (.command payload) →
      payload.length ≤ 65535 := by
    intro payload hparse
    have hlen := length_of_parseRequestBytes hparse
    simp only [frameSize, frameHeaderSize] at hframe hlen
    omega
  unfold handleSpiRequest
  simp only
  split
  · next payload hparse =>
    split
    · exact fits_respond rfl _
    · split
      · split
        · exact hshort (.inl hparse)
        · trivial
      · split <;> exact fits_respond rfl _
  · next payload hparse =>
    split
    · exact fits_respond rfl _
    · split
      · split
        · exact hshort (.inr hparse)
        · trivial
      · split <;> exact fits_respond rfl _
  · exact fits_respond rfl _

/-- The response for a network frame, whose first two bytes are also
recorded. -/
def networkResponse (payload : List UInt8) : Option SpiFrame :=
  let response := SpiFrame.response respDataMagic payload
  if 2 ≤ response.asSlice.length then some response else none

def session (config : BridgeConfig) :
    SessionKind SpiFrame queueDepth queueBytes where
  netBuf := 256
  reserve := frameSize
  networkItem := networkResponse
  handleRequest runtime frame := some (handleSpiRequest config runtime frame true)
  networkWire := framed (reqDataMagic, respDataMagic)
  networkItem_fits payload hpayload := by
    obtain ⟨hlow, hhigh⟩ := @length_asSlice_response respDataMagic rfl payload
    have hwire : (SpiFrame.response respDataMagic payload).asSlice =
        framed (reqDataMagic, respDataMagic) payload := by
      have hwhole : payload.take payloadMax = payload :=
        List.take_of_length_le hpayload
      have hresponse := @SpiFrame.asSlice_response respDataMagic _ rfl payload
      rwa [hwhole] at hresponse
    refine ⟨SpiFrame.response respDataMagic payload, ?_, hwire, ?_, ?_⟩
    · have hpreview :
          2 ≤ (SpiFrame.response respDataMagic payload).asSlice.length :=
        le_trans (by decide) hlow
      simp only [networkResponse, if_pos hpreview]
    · rw [← hwire]
      exact Nat.lt_of_lt_of_le (by decide) hlow
    · rw [← hwire]
      exact hhigh
  handleRequest_fits runtime frame :=
    ⟨_, rfl, handleSpiRequest_fits config runtime frame true⟩

end Spi

namespace Bridge

open Buffer Mailbox

/-- In every run of either session the complete frames of the network are
queued once and in order, and a full queue never ends the session. -/
theorem sessions_deliver_frames (config : BridgeConfig) :
    DeliversFrames (I2c.session config) ∧ DeliversFrames (Spi.session config) :=
  ⟨deliversFrames (I2c.session config), deliversFrames (Spi.session config)⟩

/-- A frame of one byte, whose read is dropped for a request after the first
byte of its header. -/
def cutFrame : List (SessionEvent I2cPacket) :=
  [.checkSpace, .call, .read [0xB5], .busRequest ⟨I2c.kindData, BoundedVec.new⟩,
    .request CommandRuntime.idle, .checkSpace, .call, .read [0x4E], .read [1],
    .read [0], .read [7], .deliver]

/-- The response queue before the bus task has taken anything. -/
def noPackets : I2c.I2cQueue := I2c.I2cTask.start.rxResp

/-- The frame is read to its end after the request and queued. -/
theorem sessions_deliver_frames_cut :
    ∃ r, Runs.Reaches (SessionRun.step (I2c.session BridgeConfig.i2cServer))
        (SessionRun.start (I2c.session BridgeConfig.i2cServer) noPackets noPackets)
        cutFrame r ∧
      r.pushed.map QueueCodec.wire = [[I2c.kindData, 7]] ∧
      FramesQueued (I2c.session BridgeConfig.i2cServer) r ∧ EndsByNetwork r := by
  let step := SessionRun.step (I2c.session BridgeConfig.i2cServer)
  let start :=
    SessionRun.start (I2c.session BridgeConfig.i2cServer) noPackets noPackets
  have hsome : (cutFrame.foldlM step start).isSome = true := by decide +kernel
  obtain ⟨r, hreach⟩ := Option.isSome_iff_exists.mp hsome
  have hpushed : (cutFrame.foldlM step start).map
      (fun r => r.pushed.map QueueCodec.wire) = some [[I2c.kindData, 7]] := by
    decide +kernel
  rw [hreach, Option.map_some, Option.some.injEq] at hpushed
  have hall := (sessions_deliver_frames BridgeConfig.i2cServer).1
    noPackets noPackets cutFrame r hreach
  exact ⟨r, hreach, hpushed, hall.2.1, hall.2.2.2⟩

end Bridge
end PicoFi
