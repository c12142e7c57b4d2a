import PicoFi.LocalCommands
import PicoFi.QueueItems

/-!
# The SPI slave task

One transaction clocks the staged frame out and a request in.  The transport
classifies the request, the task answers it, forwards it or pulls a queued
response, and stages the next frame.  `SpiTask.transaction` is one pass of
the loop in the normal SPI mode; the shifting of bytes by the peripheral is
its input.
-/

namespace PicoFi
namespace Spi

open Buffer LinkFrame Mailbox

abbrev queueDepth : ℕ := 32
abbrev queueBytes : ℕ := 8192

/-- `OverwriteQueue<SpiFrame, SPI_PACKET_QUEUE_DEPTH, SPI_PACKET_QUEUE_BYTES>` -/
abbrev SpiQueue := OverwriteQueue SpiFrame queueDepth queueBytes

def SyncPair (b0 b1 : UInt8) : Prop :=
  (b0, b1) = (reqDataMagic, respDataMagic) ∨
    (b0, b1) = (reqCommandMagic, respCommandMagic)

instance (b0 b1 : UInt8) : Decidable (SyncPair b0 b1) :=
  inferInstanceAs (Decidable (_ ∨ _))

def frameLen (frame : Frame) : ℕ := u16le (frame.byte 2) (frame.byte 3)

/-! ## Transport -/

inductive TransactionResult
  | idlePoll (received : ℕ) (preview : List UInt8)
  | partialFrame (received expected : ℕ) (frame : Frame)
  | complete (frame : Frame)
  deriving DecidableEq

def recoverMissingMagicCommandFrame (rx : Frame) (received scanLen : ℕ) :
    Option (Frame × ℕ) :=
  let len := (rx.byte 0).toNat
  if len = 0 ∨ payloadMax < len then none
  else if (rx.byte 1).toNat ≠ len then none
  else if scanLen < 3 then none
  else
    let normalized := FixedBytes.padded
      ([reqCommandMagic, respCommandMagic] ++ le16 len ++
        slice rx.toList 2 (2 + len))
    some (normalized, max (min (len + frameHeaderSize) frameSize) received)

def normalizeRequestFrame (rx : Frame) (received : ℕ) : Frame × ℕ :=
  let received := min received frameSize
  let scanLen := min (max received 8) frameSize
  if SyncPair (rx.byte 0) (rx.byte 1) then (rx, received)
  else
    match recoverMissingMagicCommandFrame rx received scanLen with
    | some recovered => recovered
    | none =>
        match (List.range' 1 (scanLen - 1)).find? fun offset =>
            SyncPair (rx.byte offset) (rx.byte (offset + 1)) with
        | some offset =>
            (FixedBytes.padded (rx.toList.drop offset),
              min (max (received - offset) (scanLen - offset)) frameSize)
        | none => (rx, received)

structure PioSpiTransportState where
  stagedTx : Frame
  deriving DecidableEq

def emptyDataResponse : Frame := makeResponseFrame respDataMagic []

namespace PioSpiTransportState

def new : PioSpiTransportState := ⟨emptyDataResponse⟩

def stageResponse (_ : PioSpiTransportState) (frame : Frame) :
    PioSpiTransportState := ⟨frame⟩

/-- Classifies what was received and resets the staged response. -/
def finishTransaction (_ : PioSpiTransportState) (rx : Frame)
    (received : ℕ) : PioSpiTransportState × TransactionResult :=
  let (rx, received) := normalizeRequestFrame rx received
  let scanLen := min (max received 8) frameSize
  let preview := rx.toList.take 8
  let expected :=
    if frameHeaderSize ≤ received ∨ ¬(rx.byte 0 = 0 ∧ rx.byte 1 = 0) then
      min (frameLen rx + frameHeaderSize) frameSize
    else frameSize
  let result :=
    if (rx.toList.take scanLen).all (· == 0) then .idlePoll received preview
    else if expected ≤ frameSize ∧ expected ≤ max scanLen received then
      .complete rx
    else .partialFrame received expected rx
  (⟨emptyDataResponse⟩, result)

end PioSpiTransportState

/-! ## Requests at the start of the buffer -/

section Aligned

variable {rx : Frame} {received : ℕ}

theorem normalizeRequestFrame_sync (hsync : SyncPair (rx.byte 0) (rx.byte 1)) :
    normalizeRequestFrame rx received = (rx, min received frameSize) := by
  simp only [normalizeRequestFrame, if_pos hsync]

theorem SyncPair.first_ne_zero {b0 b1 : UInt8} (h : SyncPair b0 b1) : b0 ≠ 0 := by
  rcases h with h | h <;> rw [(Prod.mk.inj h).1] <;> decide

theorem not_all_zero_of_first {n : ℕ} (hn : 0 < n) (hfirst : rx.byte 0 ≠ 0) :
    (rx.toList.take n).all (· == 0) = false := by
  have hlength := rx.length_toList
  unfold FixedBytes.byte at hfirst
  cases hrx : rx.toList with
  | nil => simp [hrx, frameSize] at hlength
  | cons b rest =>
      rw [hrx] at hfirst
      obtain ⟨n, rfl⟩ := Nat.exists_eq_succ_of_ne_zero hn.ne'
      rw [List.take_succ_cons, List.all_cons]
      simp_all

/-- The classification of a request that starts the buffer, once it is
normalized. -/
theorem finishTransaction_of_sync {raw : Frame} {count : ℕ}
    (hnormal : normalizeRequestFrame raw count = (rx, received))
    (hsync : SyncPair (rx.byte 0) (rx.byte 1)) (hreceived : 4 ≤ received)
    (transport : PioSpiTransportState) :
    (transport.finishTransaction raw count) =
      (⟨emptyDataResponse⟩,
        if min (frameLen rx + frameHeaderSize) frameSize ≤
            max (min (max received 8) frameSize) received then
          .complete rx
        else
          .partialFrame received (min (frameLen rx + frameHeaderSize) frameSize) rx) := by
  have hexpected : frameHeaderSize ≤ received ∨ ¬(rx.byte 0 = 0 ∧ rx.byte 1 = 0) :=
    .inl hreceived
  have hnonzero : ¬(rx.toList.take (min (max received 8) frameSize)).all (· == 0) = true := by
    rw [not_all_zero_of_first (by simp only [frameSize]; omega) hsync.first_ne_zero]
    decide
  unfold PioSpiTransportState.finishTransaction
  simp only [hnormal, if_pos hexpected, if_neg hnonzero, Nat.min_le_right, true_and]

end Aligned

/-! ## Well-formed requests on the bus -/

def requestFrame (pair : UInt8 × UInt8) (payload : List UInt8) : Frame :=
  FixedBytes.padded (framed pair payload)

section RequestFrame

variable {pair : UInt8 × UInt8} {payload : List UInt8}

theorem toList_requestFrame (hmax : payload.length ≤ payloadMax) :
    (requestFrame pair payload).toList =
      framed pair payload ++
        List.replicate (frameSize - (frameHeaderSize + payload.length)) 0 := by
  rw [requestFrame, FixedBytes.toList_padded, length_framed]
  rw [length_framed]
  simp only [payloadMax, frameSize, frameHeaderSize] at hmax ⊢
  omega

theorem requestFrame_sync (hmax : payload.length ≤ payloadMax) :
    (requestFrame pair payload).byte 0 = pair.1 ∧
      (requestFrame pair payload).byte 1 = pair.2 := by
  simp only [FixedBytes.byte, toList_requestFrame hmax, framed_append_eq]
  exact ⟨rfl, rfl⟩

theorem frameLen_requestFrame (hmax : payload.length ≤ payloadMax) :
    frameLen (requestFrame pair payload) = payload.length := by
  simp only [frameLen, FixedBytes.byte, toList_requestFrame hmax,
    framed_append_eq]
  refine u16le_ofNat ?_
  simp only [payloadMax, frameSize, frameHeaderSize] at hmax
  omega

theorem finishTransaction_requestFrame (hmax : payload.length ≤ payloadMax)
    (hpair : SyncPair pair.1 pair.2) (transport : PioSpiTransportState) :
    transport.finishTransaction (requestFrame pair payload)
        (frameHeaderSize + payload.length) =
      (⟨emptyDataResponse⟩, .complete (requestFrame pair payload)) := by
  obtain ⟨h0, h1⟩ := @requestFrame_sync pair payload hmax
  have hlen := @frameLen_requestFrame pair payload hmax
  have hsync : SyncPair ((requestFrame pair payload).byte 0)
      ((requestFrame pair payload).byte 1) := by rwa [h0, h1]
  have hnormal := @normalizeRequestFrame_sync _ (frameHeaderSize + payload.length) hsync
  simp only [payloadMax, frameSize, frameHeaderSize] at hmax
  have hreceived : min (frameHeaderSize + payload.length) frameSize =
      frameHeaderSize + payload.length := by
    simp only [frameHeaderSize, frameSize]
    omega
  rw [hreceived] at hnormal
  rw [finishTransaction_of_sync hnormal hsync (Nat.le_add_right 4 _), hlen, if_pos]
  simp only [frameHeaderSize, frameSize]
  omega

end RequestFrame

/-! ## Requests -/

def frameWireLen (frame : Frame) : ℕ :=
  if ¬SyncPair (frame.byte 0) (frame.byte 1) then frameHeaderSize
  else min (frameLen frame + frameHeaderSize) frameSize

def isDefaultEmptyDataResponse (frame : Frame) : Bool :=
  frame.byte 0 == reqDataMagic && frame.byte 1 == respDataMagic &&
    frameLen frame == 0

def shouldPreserveStagedResponse (frame : Frame) (written : ℕ) : Bool :=
  let len := frameLen frame
  if (frame.byte 0, frame.byte 1) = (reqCommandMagic, respCommandMagic) then
    decide (written < len + frameHeaderSize)
  else if (frame.byte 0, frame.byte 1) = (reqDataMagic, respDataMagic) ∧
      len ≠ 0 then
    decide (written < len + frameHeaderSize)
  else false

/-- The diagnostic text; with eight bytes of preview it stays below the
capacity of its string. -/
def renderSpiDiag (kind : List UInt8) (received expected : ℕ)
    (preview : List UInt8) : List UInt8 :=
  kind ++ ascii " r=" ++ decimalDigits received ++ ascii " e=" ++
    decimalDigits expected ++
    (preview.take 8).flatMap fun byte =>
      [32, hexDigit (byte.toNat / 16), hexDigit (byte.toNat % 16)]

def isStrictForwardFrame (frame : Frame) : Bool :=
  if ¬SyncPair (frame.byte 0) (frame.byte 1) then false
  else if payloadMax < frameLen frame then false
  else (frame.toList.drop (frameHeaderSize + frameLen frame)).all (· == 0)

/-- A byte that ends a command line. -/
def EndsLine (b : UInt8) : Bool := b == 0 || b == 10 || b == 13

/-- The scan for a command, from every slash of the window in turn. -/
def scanAsciiCommand : List UInt8 → Option (List UInt8)
  | [] => none
  | b :: rest =>
      let candidate := (b :: rest).takeWhile fun b => !EndsLine b
      if b = 47 ∧ validUtf8 candidate ∧
          ∀ byte ∈ candidate, byte = 47 ∨ Printable byte then
        some candidate
      else scanAsciiCommand rest

abbrev commandWindow : ℕ := 96

def extractAsciiCommand (frame : Frame) : Option (List UInt8) :=
  scanAsciiCommand (frame.toList.take (min frameSize commandWindow))

/-! ## Answering a request -/

def pullQueuedResponse (rxResp : SpiQueue) (pendingPull : Option Frame) :
    Frame × SpiQueue × Option Frame :=
  match pendingPull with
  | some resp => (resp, rxResp, pendingPull)
  | none =>
      match rxResp.tryPop with
      | (rxResp, some resp) => (resp.asFrame, rxResp, some resp.asFrame)
      | (rxResp, none) => (emptyDataResponse, rxResp, none)

/-- What `finalize_transaction` decides: the frame to stage next, a frame for
the ingress queue, or a pull. -/
inductive Verdict
  | respond (next : Frame)
  | forward (item : SpiFrame)
  | pull
  deriving DecidableEq

section Finalize

variable (config : BridgeConfig) (runtime : CommandRuntime)

def commandResponse (line : List UInt8) : Frame :=
  makeResponseFrame respCommandMagic
    (renderLocalBridgeCommand config runtime line)

def finalizeTransaction : TransactionResult → Verdict
  | .idlePoll _ _ => .respond emptyDataResponse
  | .partialFrame received expected frame =>
      let diag := Verdict.respond (makeResponseFrame respCommandMagic
        (renderSpiDiag (ascii "part") received expected (frame.toList.take 8)))
      match extractAsciiCommand frame with
      | some line =>
          if line = ascii "/pull" then .pull
          else if StartsWithSlash line then
            .respond (commandResponse config runtime line)
          else diag
      | none => diag
  | .complete frame =>
      match parseRequestFrame frame with
      | some (.command payload) =>
          let line := trimAsciiLine payload
          if line = ascii "/pull" then .pull
          else if StartsWithSlash line then
            .respond (commandResponse config runtime line)
          else if payload = [] then .respond emptyDataResponse
          else if isStrictForwardFrame frame then
            .forward (SpiFrame.fromRawFrame frame)
          else .respond emptyDataResponse
      | some (.data payload) =>
          match extractAsciiCommand frame with
          | some line =>
              if line = ascii "/pull" then .pull
              else .respond (commandResponse config runtime line)
          | none =>
              if payload = [] then .respond emptyDataResponse
              else if isStrictForwardFrame frame then
                .forward (SpiFrame.fromRawFrame frame)
              else .respond emptyDataResponse
      | none =>
          let diag :=
            if (frame.toList.take 8).any (· != 0) then
              makeResponseFrame respCommandMagic
                (renderSpiDiag (ascii "none") 0 0 (frame.toList.take 8))
            else emptyDataResponse
          match extractAsciiCommand frame with
          | some line =>
              if StartsWithSlash line then
                .respond (commandResponse config runtime line)
              else .respond diag
          | none => .respond diag

end Finalize

/-! ## The task -/

structure SpiTask where
  transport : PioSpiTransportState
  pendingPull : Option Frame
  ingress : SpiQueue
  rxResp : SpiQueue

/-- What the peripheral reports of a transaction: the receive buffer, the
bytes received and the bytes of the staged frame clocked out. -/
structure Transfer where
  rx : Frame
  received : ℕ
  written : ℕ
  deriving DecidableEq

namespace SpiTask

def start : SpiTask where
  transport := PioSpiTransportState.new
  pendingPull := none
  ingress := OverwriteQueue.empty (by decide)
  rxResp := OverwriteQueue.empty (by decide)

/-- What happens before the request is answered: an incompletely clocked
response is staged again, and a pull counts as done once the staged response
is the empty one. -/
def afterTransfer (s : SpiTask) (t : Transfer) : SpiTask × TransactionResult :=
  let stagedTx := s.transport.stagedTx
  let (transport, result) := s.transport.finishTransaction t.rx t.received
  let transport :=
    if shouldPreserveStagedResponse stagedTx t.written then
      transport.stageResponse stagedTx
    else transport
  let pendingPull :=
    if s.pendingPull.isSome ∧ isDefaultEmptyDataResponse transport.stagedTx then
      none
    else s.pendingPull
  ({ s with transport := transport, pendingPull := pendingPull }, result)

def perform (s : SpiTask) : Verdict → SpiTask
  | .respond next => { s with transport := s.transport.stageResponse next }
  | .forward item =>
      { s with
        ingress := (s.ingress.pushOverwrite item).1
        transport := s.transport.stageResponse emptyDataResponse }
  | .pull =>
      let (next, rxResp, pendingPull) := pullQueuedResponse s.rxResp s.pendingPull
      { s with
        rxResp := rxResp
        pendingPull := pendingPull
        transport := s.transport.stageResponse next }

def verdict (config : BridgeConfig) (runtime : CommandRuntime) (s : SpiTask)
    (t : Transfer) : Verdict :=
  finalizeTransaction config runtime (s.afterTransfer t).2

def transaction (config : BridgeConfig) (runtime : CommandRuntime)
    (s : SpiTask) (t : Transfer) : SpiTask :=
  (s.afterTransfer t).1.perform (s.verdict config runtime t)

end SpiTask

end Spi
end PicoFi
