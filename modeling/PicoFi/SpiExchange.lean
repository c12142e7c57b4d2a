import PicoFi.SpiHost
import PicoFi.SpiRetention
import PicoFi.SpiSession

/-!
# Exchanges on the SPI bus

The host clocks a request out and the staged frame in at the same time.  On a
bus that loses no byte the transfer of the host and the transaction of the
slave are two views of one exchange: the slave receives what the host sends,
and the host receives the staged frame, cut where its own request ends.  No
transfer fails in the host.
-/

namespace PicoFi
namespace Spi

open Buffer LinkFrame Mailbox SpiHost

/-! ## Requests of the hosts -/

/-- `build_frame` of the Python host. -/
def buildFrame (payload : List UInt8) (magic : UInt8) : Option (List UInt8) :=
  (headerForMagic magic).map fun pair =>
    let payload := payload.take payloadMax
    writeFrame (List.replicate (frameHeaderSize + payload.length) 0) pair payload

/-- `_empty_request_frame` of the Python host. -/
def emptyRequestFrame : List UInt8 :=
  ((List.replicate frameSize 0).set 0 reqDataMagic).set 1 respDataMagic

/-- `build_request_frame` of the Rust host. -/
def buildRequestFrame (magic : UInt8) (payload : List UInt8) : List UInt8 :=
  let payload := payload.take (min payload.length payloadMax)
  let second := if magic = reqCommandMagic then respCommandMagic else respDataMagic
  writeFrame (List.replicate (frameHeaderSize + payload.length) 0) (magic, second) payload

/-- What `read_frame` of the Rust host sends. -/
def zeroRequestFrame : List UInt8 := List.replicate frameSize 0

theorem writeFrame_fresh (pair : UInt8 × UInt8) (payload : List UInt8) :
    writeFrame (List.replicate (frameHeaderSize + payload.length) 0) pair payload =
      framed pair payload := by
  rw [writeFrame_eq (by simp), List.drop_of_length_le (by simp), List.append_nil]
  rfl

theorem buildFrame_eq {magic : UInt8} {pair : UInt8 × UInt8}
    (hmagic : headerForMagic magic = some pair) (payload : List UInt8) :
    buildFrame payload magic = some (framed pair (payload.take payloadMax)) := by
  rw [buildFrame, hmagic, Option.map_some]
  exact congrArg some (writeFrame_fresh pair (payload.take payloadMax))

theorem buildRequestFrame_eq (magic : UInt8) (payload : List UInt8) :
    buildRequestFrame magic payload =
      framed (magic, if magic = reqCommandMagic then respCommandMagic else respDataMagic)
        (payload.take payloadMax) := by
  have htake : payload.take (min payload.length payloadMax) = payload.take payloadMax := by
    rw [Nat.min_comm, ← List.take_take, List.take_length]
  rw [buildRequestFrame, htake]
  exact writeFrame_fresh _ _

/-! ## One exchange -/

/-- The slave's view of an exchange. -/
def quietTransfer (tx : List UInt8) (staged : Frame) : Transfer where
  rx := FixedBytes.padded tx
  received := tx.length
  written := min tx.length (frameWireLen staged)

/-- The host's view: the staged frame and behind it whatever the bus carries,
as many bytes as the host has sent. -/
def captured (tx : List UInt8) (staged filler : Frame) : List UInt8 :=
  (wireBytes staged ++ filler.toList).take tx.length

namespace SpiTask

def exchange (config : BridgeConfig) (runtime : CommandRuntime) (s : SpiTask)
    (tx : List UInt8) (filler : Frame) : SpiTask × List UInt8 :=
  (s.transaction config runtime (quietTransfer tx s.transport.stagedTx),
    captured tx s.transport.stagedTx filler)

end SpiTask

/-- The staged frame is this one of the hosts' frames. -/
structure Holds (staged : Frame) (frame : HostFrame) : Prop where
  length_le : frame.payload.length ≤ payloadMax
  toList_eq : ∃ rest, staged.toList = framed frame.pair frame.payload ++ rest

section Captures

variable {staged filler : Frame} {frame : HostFrame} {tx : List UInt8}

theorem makeResponseFrame_take (magic : UInt8) (payload : List UInt8) :
    makeResponseFrame magic (payload.take payloadMax) = makeResponseFrame magic payload := by
  have htake : (payload.take payloadMax).take
      (min (payload.take payloadMax).length payloadMax) =
        payload.take (min payload.length payloadMax) := by
    rw [List.take_take, List.length_take]
    congr 1
    omega
  simp only [makeResponseFrame, htake]

theorem holds_makeResponseFrame {magic : UInt8} {payload : List UInt8}
    (hmagic : headerForMagic magic = some frame.pair)
    (hpayload : payload.take payloadMax = frame.payload) :
    Holds (makeResponseFrame magic payload) frame := by
  have hlen : frame.payload.length ≤ payloadMax := by
    rw [← hpayload, List.length_take]
    exact Nat.min_le_left _ _
  rw [← makeResponseFrame_take, hpayload]
  exact ⟨hlen, _, toList_makeResponseFrame hmagic hlen⟩

theorem holds_emptyDataResponse : Holds emptyDataResponse (.data []) :=
  holds_makeResponseFrame rfl rfl

theorem Holds.wireBytes_eq (hholds : Holds staged frame) :
    wireBytes staged = framed frame.pair frame.payload := by
  obtain ⟨rest, hrest⟩ := hholds.toList_eq
  exact wireBytes_staged hholds.length_le hrest

theorem Holds.frameLen_eq (hholds : Holds staged frame) :
    frameLen staged = frame.payload.length := by
  obtain ⟨rest, hrest⟩ := hholds.toList_eq
  rw [framed_append_eq] at hrest
  simp only [frameLen, FixedBytes.byte, hrest, List.getD_cons_zero, List.getD_cons_succ]
  exact announced_len hholds.length_le

theorem Holds.syncPair (hholds : Holds staged frame) :
    SyncPair (staged.byte 0) (staged.byte 1) := by
  obtain ⟨rest, hrest⟩ := hholds.toList_eq
  rw [framed_append_eq] at hrest
  simp only [FixedBytes.byte, hrest, List.getD_cons_zero, List.getD_cons_succ]
  cases frame with
  | data _ => exact .inl rfl
  | command _ => exact .inr rfl

theorem Holds.frameWireLen_eq (hholds : Holds staged frame) :
    frameWireLen staged = frameHeaderSize + frame.payload.length := by
  have hle := hholds.length_le
  rw [frameWireLen, if_neg (not_not_intro hholds.syncPair), hholds.frameLen_eq]
  simp only [payloadMax, frameSize, frameHeaderSize] at hle ⊢
  omega

/-- A frame is clocked out by a transfer that is long enough for it. -/
theorem Holds.clockedOut_iff (hholds : Holds staged frame) :
    ClockedOut staged (quietTransfer tx staged).written ↔
      frameHeaderSize + frame.payload.length ≤ tx.length := by
  have hwritten : (quietTransfer tx staged).written =
      min tx.length (frameHeaderSize + frame.payload.length) := by
    rw [quietTransfer, hholds.frameWireLen_eq]
  rw [ClockedOut, hholds.frameLen_eq, hwritten]
  omega

theorem Holds.captured_eq (hholds : Holds staged frame)
    (htx : frameHeaderSize + frame.payload.length ≤ tx.length) :
    captured tx staged filler = framed frame.pair frame.payload ++
      filler.toList.take (tx.length - (frameHeaderSize + frame.payload.length)) := by
  rw [captured, hholds.wireBytes_eq, List.take_append, length_framed,
    List.take_of_length_le (by rw [length_framed]; exact htx)]

theorem length_captured (htx : tx.length ≤ frameSize) :
    (captured tx staged filler).length = tx.length := by
  have hfiller := filler.length_toList
  rw [captured, List.length_take, List.length_append]
  omega

/-- A whole capture brings the staged frame to both hosts. -/
theorem Holds.parsedAs (hholds : Holds staged frame) (htx : tx.length = frameSize)
    (capture : Frame) (hcapture : capture.toList = captured tx staged filler) :
    ParsedAs frame capture := by
  have hle := hholds.length_le
  rw [hholds.captured_eq] at hcapture
  · exact parsedAs_aligned hle hcapture
  · simp only [payloadMax, frameSize, frameHeaderSize] at hle htx ⊢
    omega

/-- The second byte of a header is no first byte of one. -/
theorem second_ne_first (frame : HostFrame) :
    frame.pair.2 ≠ reqDataMagic ∧ frame.pair.2 ≠ reqCommandMagic := by
  cases frame with
  | data _ => exact show respDataMagic ≠ reqDataMagic ∧ respDataMagic ≠ reqCommandMagic by decide
  | command _ =>
      exact show respCommandMagic ≠ reqDataMagic ∧ respCommandMagic ≠ reqCommandMagic by decide

theorem parseAt_second {b0 b1 : UInt8} {rest : List UInt8}
    (hdata : b1 ≠ reqDataMagic) (hcommand : b1 ≠ reqCommandMagic) :
    parseAt (b0 :: b1 :: rest) 1 = none := by
  simp [parseAt, hdata, hcommand]

theorem parseFrame_of_header {bytes rest : List UInt8}
    (hbytes : bytes = frame.pair.1 :: frame.pair.2 :: rest) (hfour : 4 ≤ bytes.length) :
    parseFrame bytes = (parseAt bytes 0).getD (0, 0, []) := by
  have hnext : parseAt bytes 1 = none := by
    rw [hbytes]
    exact parseAt_second (second_ne_first frame).1 (second_ne_first frame).2
  have hshort : ¬bytes.length < frameHeaderSize := by
    simp only [frameHeaderSize]
    omega
  have hoffsets : min 2 (bytes.length - (frameHeaderSize - 1)) = 1 ∨
      min 2 (bytes.length - (frameHeaderSize - 1)) = 2 := by
    simp only [frameHeaderSize]
    omega
  rw [parseFrame, if_neg hshort]
  rcases hoffsets with hone | htwo
  · rw [hone]
    cases h : parseAt bytes 0 <;> simp [h]
  · rw [htwo]
    cases h : parseAt bytes 0 <;> simp [List.range_succ, h, hnext]

/-- A capture that ends inside the staged frame brings the host nothing. -/
theorem Holds.parseFrame_captured (hholds : Holds staged frame) (hfour : 4 ≤ tx.length)
    (htx : tx.length ≤ frameSize) :
    parseFrame (captured tx staged filler) =
      if frameHeaderSize + frame.payload.length ≤ tx.length then
        (frame.magic, frame.payload.length, frame.payload)
      else (0, 0, []) := by
  have hlength : (captured tx staged filler).length = tx.length := length_captured htx
  obtain ⟨rest, hrest⟩ : ∃ rest, captured tx staged filler =
      frame.pair.1 :: frame.pair.2 :: UInt8.ofNat frame.payload.length ::
        UInt8.ofNat (frame.payload.length / 256) :: rest := by
    obtain ⟨n, hn⟩ : ∃ n, tx.length = n + 1 + 1 + 1 + 1 := ⟨tx.length - 4, by omega⟩
    rw [captured, hholds.wireBytes_eq, framed_append_eq, hn]
    exact ⟨_, rfl⟩
  have hread : parseAt (captured tx staged filler) 0 =
      if tx.length < frameHeaderSize + frame.payload.length then none
      else
        some (frame.magic, frame.payload.length,
          slice (captured tx staged filler) frameHeaderSize
            (frameHeaderSize + frame.payload.length)) := by
    rw [parseAt, hlength, hrest]
    simp only [Nat.zero_add, List.getD_cons_zero, List.getD_cons_succ,
      announced_len hholds.length_le, if_neg (Nat.not_lt.mpr hholds.length_le)]
    cases frame with
    | data _ => rfl
    | command _ => rfl
  rw [parseFrame_of_header hrest (by omega), hread]
  by_cases hfits : frameHeaderSize + frame.payload.length ≤ tx.length
  · rw [if_pos hfits, if_neg (by omega), hholds.captured_eq hfits, slice_framed]
    rfl
  · rw [if_neg hfits, if_pos (by omega)]
    rfl

end Captures

/-! ## The slave's side -/

/-- The task once the staged response is out and the pull, if any, is done. -/
def SpiTask.answered (s : SpiTask) : SpiTask :=
  { s with transport := PioSpiTransportState.new, pendingPull := none }

@[simp] theorem staged_answered {s : SpiTask} :
    s.answered.transport.stagedTx = emptyDataResponse := rfl

section Transactions

variable {config : BridgeConfig} {runtime : CommandRuntime} {s : SpiTask}
  {tx : List UInt8} {frame : HostFrame} {payload : List UInt8}

theorem afterTransfer_answered {t : Transfer}
    (hpreserve : shouldPreserveStagedResponse s.transport.stagedTx t.written = false) :
    (s.afterTransfer t).1 = s.answered := by
  have hpending := afterTransfer_dropped hpreserve
  have htransport : (s.afterTransfer t).1.transport = PioSpiTransportState.new := by
    simp only [SpiTask.afterTransfer, hpreserve, Bool.false_eq_true, if_false]
    rfl
  rw [SpiTask.answered, ← hpending, ← htransport]
  rfl

theorem not_preserved_empty (written : ℕ) :
    shouldPreserveStagedResponse emptyDataResponse written = false := by
  have hlen : frameLen emptyDataResponse = 0 := holds_emptyDataResponse.frameLen_eq
  have hsync : (emptyDataResponse.byte 0, emptyDataResponse.byte 1) ≠
      (reqCommandMagic, respCommandMagic) := by decide
  simp [shouldPreserveStagedResponse, hlen, hsync]

/-- The read requests of the two hosts. -/
def IsRead (tx : List UInt8) : Prop := tx = emptyRequestFrame ∨ tx = zeroRequestFrame

theorem length_of_isRead (hread : IsRead tx) : tx.length = frameSize := by
  rcases hread with rfl | rfl
  · simp [emptyRequestFrame]
  · simp [zeroRequestFrame]

theorem padded_emptyRequestFrame :
    (FixedBytes.padded emptyRequestFrame : Frame) =
      requestFrame (reqDataMagic, respDataMagic) [] := by
  have hbytes : emptyRequestFrame =
      framed (reqDataMagic, respDataMagic) [] ++ List.replicate payloadMax 0 := by
    rw [framed_append_eq]
    rfl
  rw [hbytes, requestFrame]
  exact FixedBytes.padded_append_zeros (by decide)

theorem afterTransfer_result (s : SpiTask) (t : Transfer) :
    (s.afterTransfer t).2 =
      (PioSpiTransportState.new.finishTransaction t.rx t.received).2 := rfl

theorem finishTransaction_zeroRequest :
    (PioSpiTransportState.new.finishTransaction (FixedBytes.padded zeroRequestFrame)
      frameSize).2 = .idlePoll frameSize (List.replicate 8 0) := by
  decide +kernel

theorem finishTransaction_emptyRequest :
    (PioSpiTransportState.new.finishTransaction (dataFrame []) frameSize).2 =
      .complete (dataFrame []) := by
  decide +kernel

theorem extract_emptyRequest : extractAsciiCommand (dataFrame []) = none :=
  (extract_dataFrame (by decide)).mpr ⟨by decide, fun i h => by simpa using h.1⟩

theorem finalizeTransaction_emptyRequest :
    finalizeTransaction config runtime (.complete (dataFrame [])) =
      .respond emptyDataResponse := by
  have hparse := @parseRequestFrame_dataFrame [] (by decide)
  simp only [finalizeTransaction, hparse, extract_emptyRequest, if_true]

theorem verdict_read (hread : IsRead tx) (staged : Frame) :
    s.verdict config runtime (quietTransfer tx staged) = .respond emptyDataResponse := by
  have hlen := length_of_isRead hread
  rw [SpiTask.verdict, afterTransfer_result, quietTransfer, hlen]
  rcases hread with rfl | rfl
  · have hpadded : FixedBytes.padded emptyRequestFrame = dataFrame [] :=
      padded_emptyRequestFrame
    rw [hpadded, finishTransaction_emptyRequest, finalizeTransaction_emptyRequest]
  · rw [finishTransaction_zeroRequest]
    rfl

/-- A read takes the staged frame out of the task and leaves the queues alone. -/
theorem transaction_read (hread : IsRead tx) (hholds : Holds s.transport.stagedTx frame) :
    s.transaction config runtime (quietTransfer tx s.transport.stagedTx) = s.answered := by
  have hlen := length_of_isRead hread
  have hle := hholds.length_le
  have hclocked : ClockedOut s.transport.stagedTx
      (quietTransfer tx s.transport.stagedTx).written := by
    rw [hholds.clockedOut_iff]
    simp only [payloadMax, frameSize, frameHeaderSize] at hle hlen ⊢
    omega
  rw [SpiTask.transaction, verdict_read hread,
    afterTransfer_answered (not_shouldPreserve_of_clockedOut hclocked)]
  rfl

theorem transaction_clear (hclear : s.transport.stagedTx = emptyDataResponse) (t : Transfer) :
    s.transaction config runtime t =
      s.answered.perform (s.verdict config runtime t) := by
  rw [SpiTask.transaction, afterTransfer_answered]
  rw [hclear]
  exact not_preserved_empty _

theorem quietTransfer_framed {pair : UInt8 × UInt8} (staged : Frame) :
    quietTransfer (framed pair payload) staged =
      ⟨requestFrame pair payload, frameHeaderSize + payload.length,
        min (frameHeaderSize + payload.length) (frameWireLen staged)⟩ := by
  rw [quietTransfer, length_framed]
  rfl

end Transactions

/-! ## Responses through the queue -/

/-- The frame as far as it fits. -/
def cut : HostFrame → HostFrame
  | .data payload => .data (payload.take payloadMax)
  | .command payload => .command (payload.take payloadMax)

def responseWire (response : HostFrame) : List UInt8 :=
  QueueCodec.wire (SpiFrame.response response.magic response.payload)

theorem responseWire_eq (response : HostFrame) :
    responseWire response = framed (cut response).pair (cut response).payload := by
  cases response with
  | data payload => exact SpiFrame.asSlice_response rfl payload
  | command payload => exact SpiFrame.asSlice_response rfl payload

theorem holds_asFrame {item : SpiFrame} {response : HostFrame}
    (hwire : QueueCodec.wire item = responseWire response) :
    Holds item.asFrame (cut response) := by
  rw [responseWire_eq] at hwire
  have hslice : item.data.asSlice = framed (cut response).pair (cut response).payload := hwire
  constructor
  · cases response with
    | data payload => exact List.length_take_le _ _
    | command payload => exact List.length_take_le _ _
  · rw [SpiFrame.asFrame, FixedBytes.toList_padded _ item.data.length_le]
    exact ⟨_, congrArg (· ++ List.replicate (frameSize - item.data.asSlice.length) 0) hslice⟩

/-- The frame the slave has staged and the responses that wait behind it. -/
structure Queued (task : SpiTask) (frame : HostFrame) (waiting : List HostFrame) : Prop where
  holds : Holds task.transport.stagedTx frame
  contents : task.rxResp.contents = waiting.map responseWire

/-- What the session does with the two queues. -/
inductive SessionAct
  | queueResponse (response : HostFrame)
  | takeRequest

namespace SpiTask

def act (task : SpiTask) : SessionAct → SpiTask
  | .queueResponse response =>
      { task with
        rxResp := (task.rxResp.tryPushRef
          (SpiFrame.response response.magic response.payload)).1 }
  | .takeRequest => { task with ingress := task.ingress.tryPop.1 }

/-- The response that the queue accepts. -/
def acceptedBy (task : SpiTask) : SessionAct → List HostFrame
  | .queueResponse response =>
      if (task.rxResp.tryPushRef (SpiFrame.response response.magic response.payload)).2 then
        [response]
      else []
  | .takeRequest => []

/-- The request that the session takes. -/
def takenBy (task : SpiTask) : SessionAct → List SpiFrame
  | .queueResponse _ => []
  | .takeRequest => task.ingress.tryPop.2.toList

end SpiTask

section Queues

variable {task : SpiTask} {frame : HostFrame} {waiting : List HostFrame}

/-- The session only adds responses, behind those that wait. -/
theorem Queued.afterAct (hq : Queued task frame waiting) (act : SessionAct) :
    Queued (task.act act) frame (waiting ++ task.acceptedBy act) := by
  cases act with
  | queueResponse response =>
      have hcontents := task.rxResp.contents_push
        (SpiFrame.response response.magic response.payload)
      refine ⟨hq.holds, hcontents.trans ?_⟩
      rw [hq.contents, SpiTask.acceptedBy, List.map_append]
      split <;> rfl
  | takeRequest => exact ⟨hq.holds, hq.contents.trans (by simp [SpiTask.acceptedBy])⟩

@[simp] theorem transport_act (act : SessionAct) :
    (task.act act).transport = task.transport := by
  cases act <;> rfl

theorem ingress_act (act : SessionAct) :
    task.ingress.contents = (task.takenBy act).map QueueCodec.wire ++
      (task.act act).ingress.contents := by
  cases act with
  | queueResponse response => rfl
  | takeRequest => exact task.ingress.contents_pop

theorem Queued.answered (hq : Queued task frame waiting) :
    Queued task.answered (.data []) waiting :=
  ⟨holds_emptyDataResponse, hq.contents⟩

theorem Queued.afterRespond (hq : Queued task frame waiting) {next : Frame}
    {reply : HostFrame} (hnext : Holds next reply) :
    Queued (task.perform (.respond next)) reply waiting :=
  ⟨hnext, hq.contents⟩

theorem Queued.afterForward (hq : Queued task frame waiting) (item : SpiFrame) :
    Queued (task.perform (.forward item)) (.data []) waiting :=
  ⟨holds_emptyDataResponse, hq.contents⟩

theorem perform_pull (hpending : task.pendingPull = none) {rxResp : SpiQueue}
    {item : Option SpiFrame} (hpop : task.rxResp.tryPop = (rxResp, item)) :
    task.perform .pull = { task with
      rxResp := rxResp
      pendingPull := item.map SpiFrame.asFrame
      transport := ⟨(item.map SpiFrame.asFrame).getD emptyDataResponse⟩ } := by
  simp only [SpiTask.perform, pullQueuedResponse, hpending, hpop]
  cases item <;> rfl

/-- A pull stages the first response that waits. -/
theorem Queued.afterPull_cons {response : HostFrame} {rest : List HostFrame}
    (hq : Queued task frame (response :: rest)) (hpending : task.pendingPull = none) :
    Queued (task.perform .pull) (cut response) rest := by
  have hpop := task.rxResp.contents_pop
  rw [hq.contents] at hpop
  cases hitem : task.rxResp.tryPop with
  | mk rxResp item =>
      rw [hitem] at hpop
      rw [perform_pull hpending hitem]
      cases item with
      | none =>
          have hnone := OverwriteQueue.tryPop_eq_none.mp (congrArg Prod.snd hitem)
          rw [hq.contents] at hnone
          cases hnone
      | some item =>
          obtain ⟨hwire, hrest⟩ := List.cons.inj hpop
          exact ⟨holds_asFrame hwire.symm, hrest.symm⟩

/-- A pull while nothing waits stages the empty response. -/
theorem Queued.afterPull_nil (hq : Queued task frame []) (hpending : task.pendingPull = none) :
    Queued (task.perform .pull) (.data []) [] := by
  have hpop := task.rxResp.contents_pop
  rw [hq.contents] at hpop
  cases hitem : task.rxResp.tryPop with
  | mk rxResp item =>
      rw [hitem] at hpop
      rw [perform_pull hpending hitem]
      cases item with
      | none => exact ⟨holds_emptyDataResponse, hpop.symm⟩
      | some item => cases hpop

end Queues

end Spi
end PicoFi
