import Mathlib.Data.List.TakeWhile
import PicoFi.SpiExchange

/-!
# The router on the SPI host

`SpiRouterAdapter` sends payloads in data frames and fetches what the bridge
has queued for it with `/pull`.  The adapter, the slave task and its two
queues run as one system, in which the session behind the queues may act
between any two exchanges.  The transfers of the host succeed: an error of
`xfer2` would leave the adapter's call with an exception.
-/

namespace PicoFi
namespace Spi

open Bridge Buffer LinkFrame Mailbox SpiHost

/-! ## The adapter -/

inductive RouterPhase
  | idle
  /-- In `send_payload`, with the polls it may still make. -/
  | sending (left : ℕ)
  /-- In `recv_payload`; without polls left at the head of its loop. -/
  | receiving (left : ℕ)
  deriving DecidableEq

/-- The adapter and the slave.  The last four lists are what `recv_payload` has
returned, what `send_payload` was given, the responses the queue has accepted
from the session and the requests the session has taken. -/
structure RouterRun where
  task : SpiTask
  phase : RouterPhase
  pending : List (List UInt8)
  returned : List (List UInt8)
  sent : List (List UInt8)
  accepted : List HostFrame
  taken : List SpiFrame

inductive RouterEvent
  | sendPayload (payload : List UInt8) (runtime : CommandRuntime) (filler : Frame)
  | sendPoll (runtime : CommandRuntime) (filler : Frame)
  | recvPayload
  | pull (runtime : CommandRuntime) (filler : Frame)
  | recvPoll (expired : Bool) (runtime : CommandRuntime) (filler : Frame)
  /-- `recv_payload` finds its time over at the head of its loop. -/
  | expire
  | session (act : SessionAct)

abbrev sendPollAttempts : ℕ := 2
abbrev commandPollLimit : ℕ := 50

/-- `_capture` -/
def capture (frame : List UInt8) : Option (List UInt8) :=
  let (magic, _, payload) := parseFrame frame
  if magic = respDataMagic ∧ payload ≠ [] then some payload else none

namespace RouterRun

def start : RouterRun := ⟨SpiTask.start, .idle, [], [], [], [], []⟩

def exchange (config : BridgeConfig) (r : RouterRun) (runtime : CommandRuntime)
    (tx : List UInt8) (filler : Frame) : RouterRun × Option (List UInt8) :=
  let (task, rx) := r.task.exchange config runtime tx filler
  ({ r with task := task }, capture rx)

def afterSend (r : RouterRun) (left : ℕ) : Option (List UInt8) → RouterRun
  | some payload => { r with phase := .idle, pending := r.pending ++ [payload] }
  | none => { r with phase := if left = 0 then .idle else .sending left }

def afterRecv (r : RouterRun) (left : ℕ) (expired : Bool) :
    Option (List UInt8) → RouterRun
  | some payload => { r with phase := .idle, returned := r.returned ++ [payload] }
  | none => { r with phase := if expired then .idle else .receiving left }

def step (config : BridgeConfig) (r : RouterRun) : RouterEvent → Option RouterRun
  | .sendPayload payload runtime filler =>
      if r.phase = .idle then
        (buildFrame payload reqDataMagic).map fun tx =>
          let (next, captured) := r.exchange config runtime tx filler
          { next with sent := r.sent ++ [payload] }.afterSend sendPollAttempts captured
      else none
  | .sendPoll runtime filler =>
      match r.phase with
      | .sending (left + 1) =>
          let (next, captured) := r.exchange config runtime emptyRequestFrame filler
          some (next.afterSend left captured)
      | _ => none
  | .recvPayload =>
      if r.phase = .idle then
        match r.pending with
        | payload :: rest =>
            some { r with pending := rest, returned := r.returned ++ [payload] }
        | [] => some { r with phase := .receiving 0 }
      else none
  | .pull runtime filler =>
      if r.phase = .receiving 0 then
        (buildFrame (ascii "/pull\n") reqCommandMagic).map fun tx =>
          let (next, captured) := r.exchange config runtime tx filler
          next.afterRecv commandPollLimit false captured
      else none
  | .recvPoll expired runtime filler =>
      match r.phase with
      | .receiving (left + 1) =>
          let (next, captured) := r.exchange config runtime emptyRequestFrame filler
          some (next.afterRecv left expired captured)
      | _ => none
  | .expire => if r.phase = .receiving 0 then some { r with phase := .idle } else none
  | .session act =>
      some { r with
        task := r.task.act act
        accepted := r.accepted ++ r.task.acceptedBy act
        taken := r.taken ++ r.task.takenBy act }

end RouterRun

/-! ## What is due to the host -/

/-- What the adapter keeps of a frame. -/
def kept : HostFrame → Option (List UInt8)
  | .data payload => if payload = [] then none else some payload
  | .command _ => none

/-- The payload of a queued response that is due to the host. -/
def deliverable (response : HostFrame) : Option (List UInt8) := kept (cut response)

section Captures

variable {staged filler : Frame} {frame : HostFrame} {tx : List UInt8}

theorem capture_read (hread : IsRead tx) (hholds : Holds staged frame) :
    capture (captured tx staged filler) = kept frame := by
  have hlen := length_of_isRead hread
  have hle := hholds.length_le
  have hwhole : frameHeaderSize + frame.payload.length ≤ tx.length := by
    simp only [payloadMax, frameSize, frameHeaderSize] at hle hlen ⊢
    omega
  rw [capture, hholds.parseFrame_captured (by rw [hlen]; decide) hlen.le, if_pos hwhole]
  cases frame with
  | data payload => simp [kept, HostFrame.magic, HostFrame.payload, ite_not]
  | command payload => simp [kept, HostFrame.magic, respCommandMagic, respDataMagic]

/-- While the empty response is staged a write brings the adapter nothing. -/
theorem capture_write (hfour : 4 ≤ tx.length) (htx : tx.length ≤ frameSize) :
    capture (captured tx emptyDataResponse filler) = none := by
  have hwhole : frameHeaderSize + (HostFrame.data []).payload.length ≤ tx.length := hfour
  rw [capture, holds_emptyDataResponse.parseFrame_captured hfour htx, if_pos hwhole]
  rfl

end Captures

/-- What is still due to the host. -/
def due (frame : HostFrame) (waiting : List HostFrame) : List (List UInt8) :=
  (kept frame).toList ++ waiting.filterMap deliverable

section Tasks

variable {task : SpiTask} {frame : HostFrame} {waiting : List HostFrame}

theorem Queued.afterPull (hq : Queued task frame waiting) (hpending : task.pendingPull = none) :
    ∃ reply rest, Queued (task.perform .pull) reply rest ∧
      due reply rest = waiting.filterMap deliverable := by
  cases waiting with
  | nil => exact ⟨.data [], [], hq.afterPull_nil hpending, rfl⟩
  | cons response rest =>
      refine ⟨cut response, rest, hq.afterPull_cons hpending, ?_⟩
      rw [due, List.filterMap_cons, deliverable]
      cases kept (cut response) <;> rfl

/-- Nothing that the adapter keeps is answered but by a pull. -/
def Answers : Verdict → Prop
  | .respond next => ∃ reply, Holds next reply ∧ kept reply = none
  | _ => True

theorem Queued.afterVerdict (hq : Queued task frame waiting) (hpending : task.pendingPull = none)
    {verdict : Verdict} (hanswers : Answers verdict) :
    ∃ reply rest, Queued (task.perform verdict) reply rest ∧
      due reply rest = waiting.filterMap deliverable := by
  cases verdict with
  | respond next =>
      obtain ⟨reply, hnext, hkept⟩ := hanswers
      exact ⟨reply, waiting, hq.afterRespond hnext, by rw [due, hkept]; rfl⟩
  | forward item => exact ⟨.data [], waiting, hq.afterForward item, rfl⟩
  | pull => exact hq.afterPull hpending

end Tasks

/-! ## Requests of the adapter -/

/-- The payload is data for the other side of the bridge. -/
def Bridged (payload : List UInt8) : Prop := payload ≠ [] ∧ HidesNoCommand payload

instance (payload : List UInt8) : Decidable (HidesNoCommand payload) :=
  decidable_of_iff
    (payload.length ≠ 47 ∧ ∀ i < (payload.take payloadWindow).length,
      ¬CommandAt (payload.take payloadWindow) i)
    ⟨fun h => ⟨h.1, fun i hi => h.2 i (List.getElem?_eq_some_iff.mp hi.1).1 hi⟩,
      fun h => ⟨h.1, fun i _ => h.2 i⟩⟩

instance (payload : List UInt8) : Decidable (Bridged payload) :=
  inferInstanceAs (Decidable (_ ∧ _))

def requestWire (payload : List UInt8) : List UInt8 :=
  framed (reqDataMagic, respDataMagic) payload

section Requests

variable {config : BridgeConfig} {runtime : CommandRuntime} {s : SpiTask}
  {payload : List UInt8} {staged : Frame}

theorem answers_commandResponse (line : List UInt8) :
    Answers (.respond (commandResponse config runtime line)) :=
  ⟨.command _, holds_makeResponseFrame rfl rfl, rfl⟩

theorem verdict_emptyData (written : ℕ) :
    s.verdict config runtime ⟨dataFrame [], frameHeaderSize, written⟩ =
      .respond emptyDataResponse := by
  have hfinish := @finishTransaction_requestFrame (reqDataMagic, respDataMagic) []
    (by decide) (.inl rfl) PioSpiTransportState.new
  rw [SpiTask.verdict, afterTransfer_result]
  exact (congrArg (finalizeTransaction config runtime) (congrArg Prod.snd hfinish)).trans
    finalizeTransaction_emptyRequest

/-- A data frame is forwarded when its payload is to be bridged, and is
answered otherwise. -/
theorem verdict_sent (hmax : payload.length ≤ payloadMax) :
    let verdict := s.verdict config runtime (quietTransfer (requestWire payload) staged)
    Answers verdict ∧
      (∀ item, verdict = .forward item ↔
        Bridged payload ∧ item = SpiFrame.fromRawFrame (dataFrame payload)) ∧
      (verdict = .pull → extractAsciiCommand (dataFrame payload) = some (ascii "/pull")) := by
  intro verdict
  have hquiet := @quietTransfer_framed payload (reqDataMagic, respDataMagic) staged
  by_cases hpayload : payload = []
  · have hverdict : verdict = .respond emptyDataResponse := by
      simp only [verdict, requestWire, hpayload]
      exact verdict_emptyData _
    rw [hverdict]
    exact ⟨⟨.data [], holds_emptyDataResponse, rfl⟩, fun item => by simp [Bridged, hpayload],
      nofun⟩
  · have hverdict := @verdict_dataFrame payload hmax hpayload config runtime s
      (min (frameHeaderSize + payload.length) (frameWireLen staged))
    have hsame : verdict = _ := (congrArg (s.verdict config runtime) hquiet).trans hverdict
    have hhides := @extract_dataFrame payload hmax
    rw [hsame]
    cases hline : extractAsciiCommand (dataFrame payload) with
    | none =>
        rw [hline] at hhides
        have hplain : HidesNoCommand payload := hhides.mp rfl
        exact ⟨trivial, fun item => by simp [Bridged, hpayload, hplain, eq_comm], nofun⟩
    | some line =>
        rw [hline] at hhides
        have hhidden : ¬HidesNoCommand payload := fun h => absurd (hhides.mpr h) nofun
        simp only
        split
        next hpull =>
          exact ⟨trivial, fun item => by simp [Bridged, hhidden], fun _ => by rw [hpull]⟩
        next =>
          exact ⟨answers_commandResponse line, fun item => by simp [Bridged, hhidden], nofun⟩

theorem verdict_pull :
    s.verdict config runtime (quietTransfer
      (framed (reqCommandMagic, respCommandMagic) (ascii "/pull\n")) staged) = .pull := by
  rw [quietTransfer_framed]
  exact verdict_pullTransfer config runtime s _

end Requests

/-! ## Runs -/

def bridged (sent : List (List UInt8)) : List (List UInt8) :=
  (sent.map (List.take payloadMax)).filter fun payload => Bridged payload

namespace RouterRun

/-- No exchange of a call is open. -/
def AtRest (r : RouterRun) : Prop := r.phase = .idle ∨ r.phase = .receiving 0

end RouterRun

structure Downlink (r : RouterRun) (frame : HostFrame) (waiting : List HostFrame) : Prop where
  queued : Queued r.task frame waiting
  clear : r.AtRest → r.task.transport.stagedTx = emptyDataResponse ∧ frame = .data []
  alone : ∀ left, r.phase = .receiving left → r.pending = []
  in_order : r.accepted.filterMap deliverable = r.returned ++ r.pending ++ due frame waiting

def Uplink (r : RouterRun) : Prop :=
  List.Sublist (r.taken.map QueueCodec.wire ++ r.task.ingress.contents)
    ((bridged r.sent).map requestWire)

section Steps

variable {config : BridgeConfig} {runtime : CommandRuntime} {r t : RouterRun}
  {frame : HostFrame} {waiting : List HostFrame} {filler : Frame} {tx : List UInt8}

theorem exchange_read (hread : IsRead tx) (hq : Queued r.task frame waiting) :
    r.exchange config runtime tx filler =
      ({ r with task := r.task.answered }, kept frame) := by
  simp only [RouterRun.exchange, SpiTask.exchange, transaction_read hread hq.holds,
    capture_read hread hq.holds]

theorem exchange_write (hfour : 4 ≤ tx.length) (htx : tx.length ≤ frameSize)
    (hclear : r.task.transport.stagedTx = emptyDataResponse) :
    r.exchange config runtime tx filler =
      ({ r with
          task := r.task.answered.perform
            (r.task.verdict config runtime (quietTransfer tx emptyDataResponse)) }, none) := by
  simp only [RouterRun.exchange, SpiTask.exchange, transaction_clear hclear, hclear,
    capture_write hfour htx]

theorem Downlink.afterSendPoll (hr : Downlink r frame waiting)
    (hstep : r.step config (.sendPoll runtime filler) = some t) :
    ∃ frame waiting, Downlink t frame waiting := by
  simp only [RouterRun.step] at hstep
  split at hstep
  next left hphase =>
    simp only [exchange_read (.inl rfl) hr.queued, Option.some.injEq] at hstep
    subst hstep
    have horder := hr.in_order
    refine ⟨.data [], waiting, ?_⟩
    cases hkept : kept frame with
    | some payload =>
        rw [due, hkept] at horder
        exact ⟨hr.queued.answered, fun _ => ⟨rfl, rfl⟩, nofun, by
          simpa [RouterRun.afterSend, due, kept] using horder⟩
    | none =>
        rw [due, hkept] at horder
        refine ⟨hr.queued.answered, fun _ => ⟨rfl, rfl⟩, fun other hother => ?_, by
          simpa [RouterRun.afterSend, due, kept] using horder⟩
        simp only [RouterRun.afterSend] at hother
        split at hother <;> cases hother
  next => cases hstep

theorem Downlink.afterRecvPoll (hr : Downlink r frame waiting) {expired : Bool}
    (hstep : r.step config (.recvPoll expired runtime filler) = some t) :
    ∃ frame waiting, Downlink t frame waiting := by
  simp only [RouterRun.step] at hstep
  split at hstep
  next left hphase =>
    simp only [exchange_read (.inl rfl) hr.queued, Option.some.injEq] at hstep
    subst hstep
    have horder := hr.in_order
    have hpending := hr.alone _ hphase
    refine ⟨.data [], waiting, ?_⟩
    cases hkept : kept frame with
    | some payload =>
        rw [due, hkept] at horder
        exact ⟨hr.queued.answered, fun _ => ⟨rfl, rfl⟩, nofun, by
          simpa [RouterRun.afterRecv, due, kept, hpending] using horder⟩
    | none =>
        rw [due, hkept] at horder
        exact ⟨hr.queued.answered, fun _ => ⟨rfl, rfl⟩, fun _ _ => hpending, by
          simpa [RouterRun.afterRecv, due, kept, hpending] using horder⟩
  next => cases hstep

/-- A write while nothing is staged begins an exchange. -/
theorem Downlink.afterWrite (hr : Downlink r frame waiting) (hrest : r.AtRest)
    {verdict : Verdict} (hanswers : Answers verdict) (phase : RouterPhase)
    (hphase : phase ≠ .idle ∧ phase ≠ .receiving 0)
    (halone : ∀ left, phase = .receiving left → r.pending = []) (sent : List (List UInt8)) :
    ∃ frame waiting, Downlink
      { r with task := r.task.answered.perform verdict, phase := phase, sent := sent }
      frame waiting := by
  obtain ⟨-, rfl⟩ := hr.clear hrest
  obtain ⟨reply, rest, hqueued, hdue⟩ := hr.queued.answered.afterVerdict rfl hanswers
  refine ⟨reply, rest, hqueued, fun h => ?_, halone, ?_⟩
  · rcases h with hidle | hreceiving
    · exact absurd hidle hphase.1
    · exact absurd hreceiving hphase.2
  · rw [hdue]
    exact hr.in_order

theorem buildFrame_data (payload : List UInt8) :
    buildFrame payload reqDataMagic = some (requestWire (payload.take payloadMax)) :=
  buildFrame_eq rfl payload

theorem length_requestWire (payload : List UInt8) :
    4 ≤ (requestWire (payload.take payloadMax)).length ∧
      (requestWire (payload.take payloadMax)).length ≤ frameSize := by
  have hle := List.length_take_le payloadMax payload
  rw [requestWire, length_framed]
  simp only [payloadMax, frameSize, frameHeaderSize] at hle ⊢
  omega

theorem buildFrame_pull : buildFrame (ascii "/pull\n") reqCommandMagic =
    some (framed (reqCommandMagic, respCommandMagic) (ascii "/pull\n")) :=
  buildFrame_eq rfl _

theorem step_sendPayload (hclear : r.task.transport.stagedTx = emptyDataResponse)
    {payload : List UInt8} (hstep : r.step config (.sendPayload payload runtime filler) = some t) :
    r.phase = .idle ∧ t = { r with
      task := r.task.answered.perform (r.task.verdict config runtime
        (quietTransfer (requestWire (payload.take payloadMax)) emptyDataResponse))
      phase := .sending sendPollAttempts
      sent := r.sent ++ [payload] } := by
  obtain ⟨hidle, hnext⟩ := Option.ite_none_right_eq_some.mp hstep
  obtain ⟨hfour, hsize⟩ := length_requestWire payload
  rw [buildFrame_data, Option.map_some, exchange_write hfour hsize hclear] at hnext
  exact ⟨hidle, (Option.some.inj hnext).symm⟩

theorem step_pull (hclear : r.task.transport.stagedTx = emptyDataResponse)
    (hphase : r.phase = .receiving 0) :
    r.step config (.pull runtime filler) = some { r with
      task := r.task.answered.perform .pull
      phase := .receiving commandPollLimit } := by
  simp only [RouterRun.step, if_pos hphase]
  rw [buildFrame_pull, Option.map_some, exchange_write (by decide) (by decide) hclear,
    verdict_pull]
  rfl

theorem Downlink.afterStep (hr : Downlink r frame waiting) {e : RouterEvent}
    (hstep : r.step config e = some t) : ∃ frame waiting, Downlink t frame waiting := by
  cases e with
  | sendPayload payload runtime filler =>
      have hidle := (Option.ite_none_right_eq_some.mp hstep).1
      obtain ⟨-, rfl⟩ := step_sendPayload (hr.clear (.inl hidle)).1 hstep
      exact hr.afterWrite (.inl hidle) (verdict_sent (List.length_take_le _ _)).1
        (.sending sendPollAttempts) ⟨nofun, nofun⟩ nofun (r.sent ++ [payload])
  | sendPoll runtime filler => exact hr.afterSendPoll hstep
  | recvPayload =>
      obtain ⟨hidle, hnext⟩ := Option.ite_none_right_eq_some.mp hstep
      have horder := hr.in_order
      split at hnext
      next payload rest hpending =>
        cases hnext
        refine ⟨frame, waiting, hr.queued, hr.clear, fun left h => ?_, ?_⟩
        · rw [hidle] at h
          cases h
        · rw [hpending] at horder
          simpa using horder
      next hpending =>
        cases hnext
        exact ⟨frame, waiting, hr.queued, fun _ => hr.clear (.inl hidle),
          fun _ _ => hpending, horder⟩
  | pull runtime filler =>
      have hphase := (Option.ite_none_right_eq_some.mp hstep).1
      rw [step_pull (hr.clear (.inr hphase)).1 hphase, Option.some.injEq] at hstep
      subst hstep
      have hanswers : Answers .pull := trivial
      exact hr.afterWrite (.inr hphase) hanswers (.receiving commandPollLimit)
        ⟨nofun, nofun⟩ (fun _ _ => hr.alone 0 hphase) r.sent
  | recvPoll expired runtime filler => exact hr.afterRecvPoll hstep
  | expire =>
      obtain ⟨hphase, hnext⟩ := Option.ite_none_right_eq_some.mp hstep
      cases hnext
      exact ⟨frame, waiting, hr.queued, fun _ => hr.clear (.inr hphase), nofun, hr.in_order⟩
  | session act =>
      cases hstep
      refine ⟨frame, waiting ++ r.task.acceptedBy act, hr.queued.afterAct act, fun hrest => ?_,
        hr.alone, ?_⟩
      · exact ⟨(congrArg PioSpiTransportState.stagedTx (transport_act act)).trans
          (hr.clear hrest).1, (hr.clear hrest).2⟩
      · have hdue : ∀ more, due frame (waiting ++ more) =
            due frame waiting ++ more.filterMap deliverable := by simp [due]
        rw [hdue, ← List.append_assoc, ← hr.in_order]
        exact List.filterMap_append

theorem bridged_append (sent : List (List UInt8)) (payload : List UInt8) :
    bridged (sent ++ [payload]) = bridged sent ++
      if Bridged (payload.take payloadMax) then [payload.take payloadMax] else [] := by
  rw [bridged, bridged, List.map_append, List.filter_append]
  congr 1
  by_cases h : Bridged (payload.take payloadMax) <;> simp [h]

theorem wire_fromRawFrame (payload : List UInt8) :
    QueueCodec.wire (SpiFrame.fromRawFrame (dataFrame (payload.take payloadMax))) =
      requestWire (payload.take payloadMax) :=
  asSlice_fromRawFrame_dataFrame (List.length_take_le _ _)

theorem Uplink.afterSend (hr : Uplink r) (payload : List UInt8)
    (hclear : r.task.transport.stagedTx = emptyDataResponse)
    (hstep : r.step config (.sendPayload payload runtime filler) = some t) : Uplink t := by
  obtain ⟨-, rfl⟩ := step_sendPayload hclear hstep
  obtain ⟨-, hforward, -⟩ := @verdict_sent config runtime r.task (payload.take payloadMax)
    emptyDataResponse (List.length_take_le _ _)
  have hadded : List.Sublist
      (r.task.answered.perform (r.task.verdict config runtime
        (quietTransfer (requestWire (payload.take payloadMax)) emptyDataResponse))).ingress.contents
      (r.task.ingress.contents ++ if Bridged (payload.take payloadMax) then
        [requestWire (payload.take payloadMax)] else []) := by
    cases hverdict : r.task.verdict config runtime
        (quietTransfer (requestWire (payload.take payloadMax)) emptyDataResponse) with
    | respond next => exact List.sublist_append_left _ _
    | pull => exact List.sublist_append_left _ _
    | forward item =>
        obtain ⟨hbridged, rfl⟩ := (hforward item).mp hverdict
        have hpush := (r.task.ingress.contents_pushOverwrite
          (SpiFrame.fromRawFrame (dataFrame (payload.take payloadMax)))).1
        rw [wire_fromRawFrame] at hpush
        rw [if_pos hbridged]
        show List.Sublist (r.task.ingress.pushOverwrite _).1.contents _
        rw [hpush]
        exact Fifo.overwrite_sublist _ _
  have hall := (hadded.append_left (r.taken.map QueueCodec.wire)).trans
    (List.append_assoc _ _ _ ▸ hr.append_right _)
  have hone : (if Bridged (payload.take payloadMax) then [payload.take payloadMax]
      else []).map requestWire = if Bridged (payload.take payloadMax) then
        [requestWire (payload.take payloadMax)] else [] := by
    split <;> rfl
  show List.Sublist _ ((bridged (r.sent ++ [payload])).map requestWire)
  rw [bridged_append, List.map_append, hone]
  exact hall

theorem Uplink.afterStep (hr : Uplink r) (hdown : Downlink r frame waiting) {e : RouterEvent}
    (hstep : r.step config e = some t) : Uplink t := by
  cases e with
  | sendPayload payload runtime filler =>
      have hidle := (Option.ite_none_right_eq_some.mp hstep).1
      exact hr.afterSend payload (hdown.clear (.inl hidle)).1 hstep
  | sendPoll runtime filler =>
      simp only [RouterRun.step] at hstep
      split at hstep
      next =>
        simp only [exchange_read (.inl rfl) hdown.queued, Option.some.injEq] at hstep
        subst hstep
        cases kept frame <;> exact hr
      next => cases hstep
  | recvPoll expired runtime filler =>
      simp only [RouterRun.step] at hstep
      split at hstep
      next =>
        simp only [exchange_read (.inl rfl) hdown.queued, Option.some.injEq] at hstep
        subst hstep
        cases kept frame <;> exact hr
      next => cases hstep
  | recvPayload =>
      obtain ⟨-, hnext⟩ := Option.ite_none_right_eq_some.mp hstep
      split at hnext <;> cases hnext <;> exact hr
  | pull runtime filler =>
      have hphase := (Option.ite_none_right_eq_some.mp hstep).1
      rw [step_pull (hdown.clear (.inr hphase)).1 hphase, Option.some.injEq] at hstep
      subst hstep
      exact hr
  | expire =>
      obtain ⟨-, hnext⟩ := Option.ite_none_right_eq_some.mp hstep
      cases hnext
      exact hr
  | session act =>
      cases hstep
      unfold Uplink at hr
      rw [ingress_act act, ← List.append_assoc, ← List.map_append] at hr
      exact hr

end Steps

structure Routed (r : RouterRun) : Prop where
  downlink : ∃ frame waiting, Downlink r frame waiting
  uplink : Uplink r

theorem routed_start : Routed RouterRun.start where
  downlink := ⟨.data [], [], ⟨holds_emptyDataResponse, rfl⟩, fun _ => ⟨rfl, rfl⟩,
    fun _ _ => rfl, rfl⟩
  uplink := List.nil_sublist _

theorem routed_of_reaches {config : BridgeConfig} {events : List RouterEvent} {r : RouterRun}
    (hreach : Runs.Reaches (RouterRun.step config) RouterRun.start events r) : Routed r := by
  refine hreach.invariant (fun s e t hs hstep => ?_) routed_start
  obtain ⟨frame, waiting, hdown⟩ := hs.downlink
  exact ⟨hdown.afterStep hstep, hs.uplink.afterStep hdown hstep⟩

/-! ## What the session does with the requests -/

/-- The session takes nothing for a command that the slave has let through. -/
theorem HidesNoCommand.not_local {payload : List UInt8} (hhides : HidesNoCommand payload) :
    looksLikeLocalCommand payload = false := by
  by_contra hlocal
  obtain ⟨hslash, hbytes⟩ := Bool.and_eq_true_iff.mp (Bool.eq_true_of_not_eq_false hlocal)
  refine hhides.2 0 ⟨?_, fun b hb => ?_⟩
  · rw [List.getElem?_take_of_lt (by decide), ← List.head?_eq_getElem?]
    exact beq_iff_eq.mp hslash
  · have hmem : b ∈ payload := List.mem_of_mem_take ((List.takeWhile_sublist _).subset hb)
    have hline := List.mem_takeWhile_imp hb
    have hbyte := List.all_eq_true.mp hbytes b hmem
    simp_all [EndsLine]

theorem handleSpiRequest_bridged {config : BridgeConfig} {runtime : CommandRuntime}
    {payload : List UInt8} (hmax : payload.length ≤ payloadMax) (hbridged : Bridged payload)
    {item : SpiFrame} (hwire : QueueCodec.wire item = requestWire payload) :
    handleSpiRequest config runtime item true = .writeBridgeFrame payload := by
  have hslice : item.asSlice = framed (reqDataMagic, respDataMagic) payload := hwire
  have hparse : parseRequestBytes (framed (reqDataMagic, respDataMagic) payload) =
      some (.data payload) := by
    have hframe := @parseRequestBytes_framed_data payload []
      (hmax.trans_lt (by decide))
    rwa [List.append_nil] at hframe
  simp only [handleSpiRequest, hslice, hparse, hbridged.2.not_local, Bool.false_eq_true,
    if_false, if_true, ne_eq, hbridged.1, not_false_eq_true]

theorem mem_bridged {sent : List (List UInt8)} {payload : List UInt8}
    (hmem : payload ∈ bridged sent) : payload.length ≤ payloadMax ∧ Bridged payload := by
  obtain ⟨hcut, hbridged⟩ := List.mem_filter.mp hmem
  obtain ⟨whole, -, rfl⟩ := List.mem_map.mp hcut
  exact ⟨List.length_take_le _ _, of_decide_eq_true hbridged⟩

theorem Uplink.handled {r : RouterRun} (hr : Uplink r) (config : BridgeConfig)
    (runtime : CommandRuntime) :
    List.Sublist (r.taken.map fun item => handleSpiRequest config runtime item true)
      ((bridged r.sent).map RequestEffect.writeBridgeFrame) := by
  obtain ⟨some_sent, hsublist, hwires⟩ :=
    List.sublist_map_iff.mp ((List.sublist_append_left _ _).trans hr)
  have hhandled : r.taken.map (fun item => handleSpiRequest config runtime item true) =
      some_sent.map RequestEffect.writeBridgeFrame := by
    have hmem : ∀ payload ∈ some_sent, payload ∈ bridged r.sent :=
      fun payload h => hsublist.subset h
    clear hsublist hr
    generalize r.taken = taken at hwires ⊢
    induction some_sent generalizing taken with
    | nil => simp_all
    | cons payload rest ih =>
        cases taken with
        | nil => simp at hwires
        | cons item taken =>
            simp only [List.map_cons, List.cons.injEq] at hwires ⊢
            obtain ⟨hmax, hbridged⟩ := mem_bridged (hmem payload (by simp))
            exact ⟨handleSpiRequest_bridged hmax hbridged hwires.1,
              ih (fun other h => hmem other (by simp [h])) taken hwires.2⟩
  rw [hhandled]
  exact hsublist.map _

/-! ## Fetching a response -/

theorem framed_data_inj {response : HostFrame} {payload : List UInt8}
    (hwire : responseWire response = framed (reqDataMagic, respDataMagic) payload) :
    cut response = .data payload := by
  rw [responseWire_eq] at hwire
  have hpayload := congrArg (List.drop frameHeaderSize) hwire
  have hfirst := congrArg List.head? hwire
  cases response with
  | data whole => exact congrArg HostFrame.data hpayload
  | command whole => simp [framed, cut, HostFrame.pair, reqCommandMagic, reqDataMagic] at hfirst

section Fetch

variable {config : BridgeConfig} {r t : RouterRun} {frame : HostFrame}
  {waiting rest : List HostFrame} {payload : List UInt8}

/-- Whatever the session does, the adapter stays where it is. -/
theorem Queued.afterSession (hq : Queued r.task frame waiting) (acts : List SessionAct) :
    ∃ t more, Runs.Reaches (RouterRun.step config) r (acts.map RouterEvent.session) t ∧
      t.phase = r.phase ∧ t.returned = r.returned ∧
      Queued t.task frame (waiting ++ more) ∧ t.task.transport = r.task.transport := by
  induction acts generalizing r waiting with
  | nil => exact ⟨r, [], Runs.reaches_nil.mpr rfl, rfl, rfl, by simpa using hq, rfl⟩
  | cons act acts ih =>
      obtain ⟨t, more, hreach, hphase, hreturned, hlast, htransport⟩ :=
        @ih { r with
          task := r.task.act act
          accepted := r.accepted ++ r.task.acceptedBy act
          taken := r.taken ++ r.task.takenBy act } _ (hq.afterAct act)
      refine ⟨t, r.task.acceptedBy act ++ more, Runs.reaches_cons.mpr ⟨_, rfl, hreach⟩,
        hphase, hreturned, ?_, htransport.trans (transport_act act)⟩
      rwa [← List.append_assoc]

/-- `recv_payload` returns the first response that waits at its first poll. -/
theorem Downlink.fetch (hr : Downlink r frame waiting) (hidle : r.phase = .idle)
    (hpending : r.pending = []) {response : HostFrame} (hwaiting : waiting = response :: rest)
    (hdeliver : deliverable response = some payload) (before between : List SessionAct)
    (expired : Bool) (runtime runtime' : CommandRuntime) (filler filler' : Frame) :
    ∃ t, Runs.Reaches (RouterRun.step config) r (.recvPayload :: (before.map .session ++
        .pull runtime filler ::
          (between.map .session ++ [.recvPoll expired runtime' filler']))) t ∧
      t.phase = .idle ∧ t.returned = r.returned ++ [payload] := by
  have hentered : r.step config .recvPayload = some { r with phase := .receiving 0 } := by
    simp only [RouterRun.step, if_pos hidle, hpending]
  obtain ⟨u, more, hreach, hphase, hreturned, hqueued, htransport⟩ :=
    @Queued.afterSession config { r with phase := .receiving 0 } frame waiting hr.queued before
  have hclear : u.task.transport.stagedTx = emptyDataResponse := by
    rw [htransport]
    exact (hr.clear (.inl hidle)).1
  have hpull := @step_pull config runtime u filler hclear hphase
  rw [hwaiting] at hqueued
  have hstaged := hqueued.answered.afterPull_cons rfl
  obtain ⟨v, later, hreach', hphase', hreturned', hqueued', -⟩ :=
    @Queued.afterSession config { u with
      task := u.task.answered.perform .pull
      phase := .receiving commandPollLimit } _ _ hstaged between
  have hpoll : v.step config (.recvPoll expired runtime' filler') =
      some { v with
        task := v.task.answered
        phase := .idle
        returned := v.returned ++ [payload] } := by
    simp only [RouterRun.step, hphase', exchange_read (.inl rfl) hqueued']
    rw [deliverable] at hdeliver
    rw [hdeliver]
    rfl
  refine ⟨{ v with
      task := v.task.answered
      phase := .idle
      returned := v.returned ++ [payload] }, ?_, rfl,
    congrArg (· ++ [payload]) (hreturned'.trans hreturned)⟩
  rw [Runs.reaches_cons]
  refine ⟨_, hentered, Runs.reaches_append.mpr ⟨u, hreach, ?_⟩⟩
  rw [Runs.reaches_cons]
  refine ⟨_, hpull, Runs.reaches_append.mpr ⟨v, hreach', ?_⟩⟩
  exact Runs.reaches_cons.mpr ⟨_, hpoll, Runs.reaches_nil.mpr rfl⟩

/-- With its time over at once it pulls nothing. -/
theorem Downlink.expired (hr : Downlink r frame waiting) (hidle : r.phase = .idle)
    (hpending : r.pending = []) (before : List SessionAct) :
    ∃ t, Runs.Reaches (RouterRun.step config) r
        (.recvPayload :: (before.map .session ++ [.expire])) t ∧
      t.phase = .idle ∧ t.returned = r.returned ∧
      ∃ more, t.task.rxResp.contents = (waiting ++ more).map responseWire := by
  have hentered : r.step config .recvPayload = some { r with phase := .receiving 0 } := by
    simp only [RouterRun.step, if_pos hidle, hpending]
  obtain ⟨u, more, hreach, hphase, hreturned, hqueued, -⟩ :=
    @Queued.afterSession config { r with phase := .receiving 0 } frame waiting hr.queued before
  have hleft : u.step config .expire = some { u with phase := .idle } := by
    simp only [RouterRun.step, if_pos hphase]
  refine ⟨{ u with phase := .idle }, ?_, rfl, hreturned, more, hqueued.contents⟩
  rw [Runs.reaches_cons]
  refine ⟨_, hentered, Runs.reaches_append.mpr ⟨u, hreach, ?_⟩⟩
  exact Runs.reaches_cons.mpr ⟨_, hleft, Runs.reaches_nil.mpr rfl⟩

end Fetch

/-! ## One queued response -/

theorem acceptedBy_of_accepted {task : SpiTask} {response : HostFrame}
    (haccepted : (task.rxResp.tryPushRef
      (SpiFrame.response response.magic response.payload)).2 = true) :
    task.acceptedBy (.queueResponse response) = [response] :=
  if_pos haccepted

def offeredA : RouterRun :=
  { RouterRun.start with
    task := { SpiTask.start with rxResp := (SpiTask.start.rxResp.tryPushRef queuedA).1 }
    accepted := [.data (ascii "a")] }

theorem reaches_offeredA (config : BridgeConfig) :
    Runs.Reaches (RouterRun.step config) RouterRun.start
      [.session (.queueResponse (.data (ascii "a")))] offeredA := by
  have haccepted := @acceptedBy_of_accepted SpiTask.start (.data (ascii "a")) queuedA_accepted
  have hstep : RouterRun.start.step config (.session (.queueResponse (.data (ascii "a")))) =
      some { RouterRun.start with
        task := SpiTask.start.act (.queueResponse (.data (ascii "a")))
        accepted := [] ++ SpiTask.start.acceptedBy (.queueResponse (.data (ascii "a"))) } := rfl
  rw [haccepted] at hstep
  exact Runs.reaches_cons.mpr ⟨_, hstep, Runs.reaches_nil.mpr rfl⟩

theorem contents_offeredA : offeredA.task.rxResp.contents =
    [framed (reqDataMagic, respDataMagic) (ascii "a")] := by
  have hempty : SpiTask.start.rxResp.contents = [] := rfl
  have hpushed := OverwriteQueue.contents_of_accepted queuedA_accepted
  refine hpushed.trans ?_
  show SpiTask.start.rxResp.contents ++ [queuedA.asSlice] = _
  rw [hempty]
  exact congrArg (fun bytes => [bytes]) (SpiFrame.asSlice_response rfl (ascii "a"))

/-! ## Both directions -/

/-- Whenever a data response is the first to wait, `recv_payload` returns it with
one pull and one poll, whatever the session does between them and whether or not
its time is over at the poll; if it is over before the pull, the call returns
nothing and the response stays where it is. -/
theorem router_fetches (config : BridgeConfig) (events : List RouterEvent) (r : RouterRun)
    (hreach : Runs.Reaches (RouterRun.step config) RouterRun.start events r)
    (hidle : r.phase = .idle) (hpending : r.pending = []) (payload : List UInt8)
    (hpayload : payload ≠ []) (rest : List (List UInt8))
    (hfirst : r.task.rxResp.contents = framed (reqDataMagic, respDataMagic) payload :: rest)
    (before between : List SessionAct) (expired : Bool)
    (runtime runtime' : CommandRuntime) (filler filler' : Frame) :
    (∃ t, Runs.Reaches (RouterRun.step config) r (.recvPayload :: (before.map .session ++
        .pull runtime filler ::
          (between.map .session ++ [.recvPoll expired runtime' filler']))) t ∧
      t.phase = .idle ∧ t.returned = r.returned ++ [payload]) ∧
    ∃ t, Runs.Reaches (RouterRun.step config) r
        (.recvPayload :: (before.map .session ++ [.expire])) t ∧
      t.phase = .idle ∧ t.returned = r.returned ∧
      ∃ later, t.task.rxResp.contents =
        framed (reqDataMagic, respDataMagic) payload :: later := by
  obtain ⟨⟨frame, waiting, hdown⟩, -⟩ := routed_of_reaches hreach
  have hcontents := hdown.queued.contents
  rw [hfirst] at hcontents
  cases waiting with
  | nil => cases hcontents
  | cons response waiting =>
      have hcut := framed_data_inj (List.cons.inj hcontents).1.symm
      have hdeliver : deliverable response = some payload := by
        rw [deliverable, hcut, kept, if_neg hpayload]
      refine ⟨hdown.fetch hidle hpending rfl hdeliver before between expired runtime runtime'
        filler filler', ?_⟩
      obtain ⟨t, hexpired, hphase, hreturned, more, hkept⟩ := @Downlink.expired config
        r _ _ hdown hidle hpending before
      refine ⟨t, hexpired, hphase, hreturned, (waiting ++ more).map responseWire, ?_⟩
      rw [hkept, List.cons_append, List.map_cons, (List.cons.inj hcontents).1]

theorem router_fetches_queued :
    ∃ t, Runs.Reaches (RouterRun.step BridgeConfig.spiServer) offeredA
        [.recvPayload, .pull CommandRuntime.idle emptyDataResponse,
          .session (.queueResponse (.command (ascii "pong"))),
          .recvPoll true CommandRuntime.idle emptyDataResponse] t ∧
      t.phase = .idle ∧ t.returned = [ascii "a"] :=
  (router_fetches _ _ offeredA (reaches_offeredA _) rfl rfl (ascii "a") (by decide) []
    contents_offeredA [] [.queueResponse (.command (ascii "pong"))] true _ _ _ _).1

end Spi
end PicoFi
