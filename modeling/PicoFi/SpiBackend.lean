import PicoFi.SpiCapture
import PicoFi.SpiRouter

/-!
# Commands from the Rust host

`SpiBackend` sends a request in one exchange and reads frames in others; what it
receives while it sends is thrown away.  Each operation is a function of what
happens at each of its exchanges: what the session does before it, what the
commands print in it and what the bus carries behind the staged frame.  The
transfers themselves succeed, and a reply is taken as bytes: `send_command` puts
replacement characters for what is no UTF-8 in it.
-/

namespace PicoFi
namespace Spi

open Buffer LinkFrame Mailbox SpiHost

structure Turn where
  acts : List SessionAct
  runtime : CommandRuntime
  filler : Frame

inductive BackendError
  | invalidFrame (error : InvalidFrame)
  | timedOut
  deriving DecidableEq

abbrev replyPolls : ℕ := 50

namespace SpiBackend

def transfer (config : BridgeConfig) (turn : Turn) (task : SpiTask) (tx : List UInt8) :
    SpiTask × List UInt8 :=
  (turn.acts.foldl SpiTask.act task).exchange config turn.runtime tx turn.filler

def writeRequest (config : BridgeConfig) (turn : Turn) (task : SpiTask) (magic : UInt8)
    (payload : List UInt8) : SpiTask :=
  (transfer config turn task (buildRequestFrame magic payload)).1

def readFrame (config : BridgeConfig) (turn : Turn) (task : SpiTask) :
    SpiTask × Except InvalidFrame HostFrame :=
  let (task, raw) := transfer config turn task zeroRequestFrame
  (task, parseResponse (FixedBytes.padded raw))

def sendData (config : BridgeConfig) (turn : Turn) (task : SpiTask) (payload : List UInt8) :
    SpiTask :=
  writeRequest config turn task reqDataMagic payload

/-- The loop of `send_command`, from the exchange of this number on. -/
def pollReply (read : ℕ → SpiTask → SpiTask × Except InvalidFrame HostFrame) :
    ℕ → ℕ → SpiTask → SpiTask × Except BackendError (List UInt8)
  | 0, _, task => (task, .error .timedOut)
  | left + 1, turn, task =>
      match read turn task with
      | (task, .error error) => (task, .error (.invalidFrame error))
      | (task, .ok (.command bytes)) =>
          if bytes ≠ [] then (task, .ok bytes) else pollReply read left (turn + 1) task
      | (task, .ok (.data _)) => pollReply read left (turn + 1) task

def commandLine (command : List UInt8) : List UInt8 :=
  if command.getLast? = some 10 then command else command ++ [10]

def sendCommand (config : BridgeConfig) (env : ℕ → Turn) (task : SpiTask)
    (command : List UInt8) : SpiTask × Except BackendError (List UInt8) :=
  pollReply (fun turn => readFrame config (env turn)) replyPolls 1
    (writeRequest config (env 0) task reqCommandMagic (commandLine command))

/-- What `poll_once` makes of a frame. -/
def polledData : HostFrame → Option (List UInt8)
  | .data bytes => if bytes ≠ [] then some bytes else none
  | .command _ => none

def pollOnce (config : BridgeConfig) (turn : Turn) (task : SpiTask) :
    SpiTask × Except InvalidFrame (Option (List UInt8)) :=
  let (task, frame) := readFrame config turn task
  (task, frame.map polledData)

end SpiBackend

/-! ## Exchanges of the backend -/

/-- No response is taken from the queue. -/
def Grows (before after : SpiTask) : Prop :=
  ∃ more, after.rxResp.contents = before.rxResp.contents ++ more

theorem Grows.of_eq {before after : SpiTask} (h : after.rxResp = before.rxResp) :
    Grows before after :=
  ⟨[], by rw [h, List.append_nil]⟩

theorem Grows.trans {first second third : SpiTask} (h : Grows first second)
    (h' : Grows second third) : Grows first third := by
  obtain ⟨more, hmore⟩ := h
  obtain ⟨later, hlater⟩ := h'
  exact ⟨more ++ later, by rw [hlater, hmore, List.append_assoc]⟩

theorem grows_act (task : SpiTask) (act : SessionAct) : Grows task (task.act act) := by
  cases act with
  | queueResponse response => exact ⟨_, task.rxResp.contents_push _⟩
  | takeRequest => exact Grows.of_eq rfl

theorem grows_perform (task : SpiTask) {verdict : Verdict} (hpull : verdict ≠ .pull) :
    Grows task (task.perform verdict) := by
  cases verdict with
  | respond next => exact Grows.of_eq rfl
  | forward item => exact Grows.of_eq rfl
  | pull => exact absurd rfl hpull

section Exchanges

variable {config : BridgeConfig} {turn : Turn} {task : SpiTask} {frame : HostFrame}

theorem transport_acts (acts : List SessionAct) :
    (acts.foldl SpiTask.act task).transport = task.transport := by
  induction acts generalizing task with
  | nil => rfl
  | cons act acts ih => exact ih.trans (transport_act act)

theorem grows_acts (acts : List SessionAct) : Grows task (acts.foldl SpiTask.act task) := by
  induction acts generalizing task with
  | nil => exact Grows.of_eq rfl
  | cons act acts ih => exact (grows_act task act).trans ih

/-- A read brings the staged frame and leaves the empty one. -/
theorem readFrame_eq (hholds : Holds task.transport.stagedTx frame) :
    SpiBackend.readFrame config turn task =
      ((turn.acts.foldl SpiTask.act task).answered, .ok frame) := by
  have hserved : Holds (turn.acts.foldl SpiTask.act task).transport.stagedTx frame := by
    rw [transport_acts]
    exact hholds
  have hzeros : zeroRequestFrame.length = frameSize := List.length_replicate
  have hlen : (captured zeroRequestFrame (turn.acts.foldl SpiTask.act task).transport.stagedTx
      turn.filler).length = frameSize := (length_captured hzeros.le).trans hzeros
  have hparsed := (hserved.parsedAs hzeros (FixedBytes.padded
    (captured zeroRequestFrame (turn.acts.foldl SpiTask.act task).transport.stagedTx
      turn.filler)) (by
    rw [FixedBytes.toList_padded _ hlen.le, hlen, Nat.sub_self, List.replicate_zero,
      List.append_nil])).rust
  simp only [SpiBackend.readFrame, SpiBackend.transfer, SpiTask.exchange,
    transaction_read (.inr rfl) hserved, hparsed]

theorem grows_answered (acts : List SessionAct) :
    Grows task (acts.foldl SpiTask.act task).answered :=
  (grows_acts acts).trans (Grows.of_eq rfl)

/-- With nothing but the empty response staged the loop runs out. -/
theorem pollReply_empty {env : ℕ → Turn} (left turn : ℕ)
    (hclear : task.transport.stagedTx = emptyDataResponse) :
    let polled := SpiBackend.pollReply (fun turn => SpiBackend.readFrame config (env turn))
      left turn task
    polled.2 = .error .timedOut ∧ polled.1.transport.stagedTx = emptyDataResponse ∧
      Grows task polled.1 := by
  induction left generalizing task turn with
  | zero => exact ⟨rfl, hclear, Grows.of_eq rfl⟩
  | succ left ih =>
      have hholds : Holds task.transport.stagedTx (.data []) := by
        rw [hclear]
        exact holds_emptyDataResponse
      have hread := @readFrame_eq config (env turn) task (.data []) hholds
      simp only [SpiBackend.pollReply, hread]
      obtain ⟨hresult, hstaged, hgrows⟩ := @ih _ (turn + 1) staged_answered
      exact ⟨hresult, hstaged, (grows_answered _).trans hgrows⟩

/-- What the loop makes of a staged frame. -/
def replyOf : HostFrame → Except BackendError (List UInt8)
  | .command bytes => if bytes = [] then .error .timedOut else .ok bytes
  | .data _ => .error .timedOut

theorem replyOf_ne_invalid (frame : HostFrame) (error : InvalidFrame) :
    replyOf frame ≠ .error (.invalidFrame error) := by
  cases frame with
  | command bytes => simp only [replyOf]; split <;> simp
  | data bytes => simp [replyOf]

/-- The loop returns the staged reply at its first poll or never. -/
theorem pollReply_eq {env : ℕ → Turn} (left turn : ℕ)
    (hholds : Holds task.transport.stagedTx frame) :
    let polled := SpiBackend.pollReply (fun turn => SpiBackend.readFrame config (env turn))
      (left + 1) turn task
    polled.2 = replyOf frame ∧
      (∀ bytes, polled.2 = .ok bytes →
        polled.1 = (SpiBackend.readFrame config (env turn) task).1) ∧
      polled.1.transport.stagedTx = emptyDataResponse ∧ Grows task polled.1 := by
  have hread := @readFrame_eq config (env turn) task frame hholds
  have hrest := @pollReply_empty config _ env left (turn + 1)
    (@staged_answered ((env turn).acts.foldl SpiTask.act task))
  obtain ⟨hresult, hstaged, hgrows⟩ := hrest
  have hall := (grows_answered (env turn).acts).trans hgrows
  simp only [SpiBackend.pollReply, hread]
  cases frame with
  | data bytes => exact ⟨hresult, fun bytes h => by simp [hresult] at h, hstaged, hall⟩
  | command bytes =>
      by_cases hbytes : bytes = []
      · simp only [hbytes, replyOf, ne_eq, not_true_eq_false, if_false, if_true]
        exact ⟨hresult, fun bytes h => by simp [hresult] at h, hstaged, hall⟩
      · simp only [ne_eq, hbytes, replyOf, not_false_eq_true, if_true, if_false]
        exact ⟨trivial, fun _ _ => trivial, staged_answered, grows_answered _⟩

end Exchanges

/-! ## Commands -/

section Commands

variable {config : BridgeConfig} {runtime : CommandRuntime} {s : SpiTask}
  {payload : List UInt8} {staged : Frame}

/-- What a command frame stages when it is no pull. -/
theorem verdict_command (hmax : payload.length ≤ payloadMax)
    (hpull : trimAsciiLine payload ≠ ascii "/pull") :
    let verdict := s.verdict config runtime
      (quietTransfer (framed (reqCommandMagic, respCommandMagic) payload) staged)
    verdict ≠ .pull ∧ ∀ mid : SpiTask, (mid.perform verdict).transport.stagedTx =
      if StartsWithSlash (trimAsciiLine payload) then
        commandResponse config runtime (trimAsciiLine payload)
      else emptyDataResponse := by
  intro verdict
  have hfinish := @finishTransaction_requestFrame (reqCommandMagic, respCommandMagic) payload
    hmax (.inr rfl) PioSpiTransportState.new
  have hparse := @parseRequestFrame_requestFrame (reqCommandMagic, respCommandMagic) payload
    hmax (.inr rfl)
  rw [if_neg (by decide)] at hparse
  have hverdict : verdict = finalizeTransaction config runtime
      (.complete (requestFrame (reqCommandMagic, respCommandMagic) payload)) := by
    show s.verdict config runtime _ = _
    rw [quietTransfer_framed, SpiTask.verdict, afterTransfer_result]
    exact congrArg (finalizeTransaction config runtime) (congrArg Prod.snd hfinish)
  rw [hverdict]
  simp only [finalizeTransaction, hparse, if_neg hpull]
  split
  · exact ⟨by simp, fun _ => rfl⟩
  · split
    · exact ⟨by simp, fun _ => rfl⟩
    · split
      · exact ⟨by simp, fun _ => rfl⟩
      · exact ⟨by simp, fun _ => rfl⟩

end Commands

section Operations

variable {config : BridgeConfig} {turn : Turn} {task : SpiTask} {payload : List UInt8}

theorem grows_write {tx : List UInt8} {filler : Frame}
    (hpull : task.verdict config turn.runtime (quietTransfer tx task.transport.stagedTx) ≠ .pull) :
    Grows task (task.exchange config turn.runtime tx filler).1 :=
  (Grows.of_eq (show (task.afterTransfer _).1.rxResp = task.rxResp from rfl)).trans
    (grows_perform _ hpull)

/-- The frame the slave has staged when it has been given a command. -/
def answerTo (config : BridgeConfig) (runtime : CommandRuntime) (line : List UInt8) :
    HostFrame :=
  if StartsWithSlash line then .command (renderLocalBridgeCommand config runtime line)
  else .data []

theorem holds_answerTo (config : BridgeConfig) (runtime : CommandRuntime) (line : List UInt8) :
    Holds (if StartsWithSlash line then commandResponse config runtime line
      else emptyDataResponse) (answerTo config runtime line) := by
  unfold answerTo
  split
  next =>
    have hlen := length_renderLocalBridgeCommand_le config runtime line
    exact holds_makeResponseFrame rfl
      (List.take_of_length_le (hlen.trans (by decide)))
  next => exact holds_emptyDataResponse

/-- The line the slave reads from a command of the backend. -/
def receivedLine (command : List UInt8) : List UInt8 :=
  trimAsciiLine ((SpiBackend.commandLine command).take payloadMax)

theorem writeRequest_command {command : List UInt8}
    (hpull : receivedLine command ≠ ascii "/pull") :
    let next := SpiBackend.writeRequest config turn task reqCommandMagic
      (SpiBackend.commandLine command)
    Holds next.transport.stagedTx (answerTo config turn.runtime (receivedLine command)) ∧
      Grows task next := by
  intro next
  have hverdict := @verdict_command config turn.runtime (turn.acts.foldl SpiTask.act task)
    ((SpiBackend.commandLine command).take payloadMax)
    (turn.acts.foldl SpiTask.act task).transport.stagedTx (List.length_take_le _ _) hpull
  obtain ⟨hne, hstaged⟩ := hverdict
  have hframe : buildRequestFrame reqCommandMagic (SpiBackend.commandLine command) =
      framed (reqCommandMagic, respCommandMagic)
        ((SpiBackend.commandLine command).take payloadMax) := buildRequestFrame_eq _ _
  have hnext : next = ((turn.acts.foldl SpiTask.act task).exchange config turn.runtime
      (framed (reqCommandMagic, respCommandMagic)
        ((SpiBackend.commandLine command).take payloadMax)) turn.filler).1 := by
    simp only [next, SpiBackend.writeRequest, SpiBackend.transfer, hframe]
  rw [hnext]
  refine ⟨?_, (grows_acts turn.acts).trans (grows_write hne)⟩
  have hlast := hstaged ((turn.acts.foldl SpiTask.act task).afterTransfer
    (quietTransfer (framed (reqCommandMagic, respCommandMagic)
      ((SpiBackend.commandLine command).take payloadMax))
      (turn.acts.foldl SpiTask.act task).transport.stagedTx)).1
  show Holds (SpiTask.perform _ _).transport.stagedTx _
  rw [hlast]
  exact holds_answerTo config turn.runtime (receivedLine command)

theorem sendCommand_spec {env : ℕ → Turn} {command : List UInt8}
    (hpull : receivedLine command ≠ ascii "/pull") :
    let sent := SpiBackend.sendCommand config env task command
    sent.2 = replyOf (answerTo config (env 0).runtime (receivedLine command)) ∧
      (∀ bytes, sent.2 = .ok bytes → sent.1 = (SpiBackend.readFrame config (env 1)
        (SpiBackend.writeRequest config (env 0) task reqCommandMagic
          (SpiBackend.commandLine command))).1) ∧
      sent.1.transport.stagedTx = emptyDataResponse ∧ Grows task sent.1 := by
  obtain ⟨hholds, hgrows⟩ := @writeRequest_command config (env 0) task command hpull
  obtain ⟨left, hleft⟩ : ∃ left, replyPolls = left + 1 := ⟨49, rfl⟩
  obtain ⟨hresult, hfirst, hstaged, hpolled⟩ := @pollReply_eq config _ _ env left 1 hholds
  simp only [SpiBackend.sendCommand]
  rw [hleft]
  exact ⟨hresult, hfirst, hstaged, hgrows.trans hpolled⟩

/-- A command of the backend is answered by its own reply, behind one write and
one read, whatever the slave had staged and whatever the session does; without a
reply of its own it times out.  It takes no response from the queue. -/
theorem send_command_own_reply (config : BridgeConfig) (env : ℕ → Turn) (task : SpiTask)
    (command : List UInt8) (hpull : receivedLine command ≠ ascii "/pull") :
    let sent := SpiBackend.sendCommand config env task command
    sent.2 = replyOf (answerTo config (env 0).runtime (receivedLine command)) ∧
      (∀ bytes, sent.2 = .ok bytes → sent.1 = (SpiBackend.readFrame config (env 1)
        (SpiBackend.writeRequest config (env 0) task reqCommandMagic
          (SpiBackend.commandLine command))).1) ∧
      sent.1.transport.stagedTx = emptyDataResponse ∧
      ∃ more, sent.1.rxResp.contents = task.rxResp.contents ++ more :=
  sendCommand_spec hpull

end Operations

theorem receivedLine_ping : receivedLine (ascii "/ping") = ascii "/ping" := by
  have hline : (SpiBackend.commandLine (ascii "/ping")).take payloadMax =
      ascii "/ping\n" := by decide
  rw [receivedLine, hline, trimAsciiLine, validUtf8_of_ascii (by decide)]
  decide

theorem send_command_own_reply_ping :
    let turn : Turn := ⟨[], CommandRuntime.idle, emptyDataResponse⟩
    let sent := SpiBackend.sendCommand BridgeConfig.spiServer (fun _ => turn) SpiTask.start
      (ascii "/ping")
    sent.2 = replyOf (answerTo BridgeConfig.spiServer CommandRuntime.idle
        (receivedLine (ascii "/ping"))) ∧
      (∀ bytes, sent.2 = .ok bytes → sent.1 =
        (SpiBackend.readFrame BridgeConfig.spiServer turn
          (SpiBackend.writeRequest BridgeConfig.spiServer turn SpiTask.start reqCommandMagic
            (SpiBackend.commandLine (ascii "/ping")))).1) ∧
      sent.1.transport.stagedTx = emptyDataResponse ∧
      ∃ more, sent.1.rxResp.contents = SpiTask.start.rxResp.contents ++ more :=
  send_command_own_reply _ _ _ _ (by
    rw [receivedLine_ping]
    decide)

/-! ## Runs of the backend -/

inductive BackendOp
  | sendData (payload : List UInt8) (turn : Turn)
  | sendCommand (command : List UInt8) (env : ℕ → Turn)
  | pollOnce (turn : Turn)

inductive BackendReply
  | sent
  | replied (result : Except BackendError (List UInt8))
  | polled (result : Except InvalidFrame (Option (List UInt8)))

namespace BackendOp

def perform (config : BridgeConfig) (task : SpiTask) : BackendOp → SpiTask × BackendReply
  | .sendData payload turn => (SpiBackend.sendData config turn task payload, .sent)
  | .sendCommand command env =>
      let sent := SpiBackend.sendCommand config env task command
      (sent.1, .replied sent.2)
  | .pollOnce turn =>
      let polled := SpiBackend.pollOnce config turn task
      (polled.1, .polled polled.2)

/-- The slave reads no pull in the request. -/
def NoPull : BackendOp → Prop
  | .sendData payload _ =>
      extractAsciiCommand (dataFrame (payload.take payloadMax)) ≠ some (ascii "/pull")
  | .sendCommand command _ => receivedLine command ≠ ascii "/pull"
  | .pollOnce _ => True

end BackendOp

/-- Nothing is staged that the host would keep. -/
def Answered (task : SpiTask) : Prop :=
  ∃ frame, Holds task.transport.stagedTx frame ∧ kept frame = none

theorem answered_of_empty {task : SpiTask} (h : task.transport.stagedTx = emptyDataResponse) :
    Answered task :=
  ⟨.data [], by rw [h]; exact holds_emptyDataResponse, rfl⟩

theorem answered_start : Answered SpiTask.start := ⟨.data [], holds_emptyDataResponse, rfl⟩

section Runs

variable {config : BridgeConfig} {turn : Turn} {task : SpiTask} {payload : List UInt8}

theorem staged_perform {mid : SpiTask} {verdict : Verdict} (hanswers : Answers verdict)
    (hpull : verdict ≠ .pull) : Answered (mid.perform verdict) := by
  cases verdict with
  | respond next => exact hanswers
  | forward item => exact answered_of_empty rfl
  | pull => exact absurd rfl hpull

theorem sendData_answered
    (hnone : extractAsciiCommand (dataFrame (payload.take payloadMax)) ≠
      some (ascii "/pull")) :
    Answered (SpiBackend.sendData config turn task payload) ∧
      Grows task (SpiBackend.sendData config turn task payload) := by
  have hmax := List.length_take_le payloadMax payload
  have hframe : buildRequestFrame reqDataMagic payload =
      requestWire (payload.take payloadMax) := buildRequestFrame_eq _ _
  obtain ⟨hanswers, -, hpull⟩ := @verdict_sent config turn.runtime
    (turn.acts.foldl SpiTask.act task) (payload.take payloadMax)
    (turn.acts.foldl SpiTask.act task).transport.stagedTx hmax
  have hne := fun h => hnone (hpull h)
  have hnext : SpiBackend.sendData config turn task payload =
      ((turn.acts.foldl SpiTask.act task).exchange config turn.runtime
        (requestWire (payload.take payloadMax)) turn.filler).1 := by
    simp only [SpiBackend.sendData, SpiBackend.writeRequest, SpiBackend.transfer, hframe]
  rw [hnext]
  exact ⟨staged_perform hanswers hne, (grows_acts turn.acts).trans (grows_write hne)⟩

/-- A poll brings nothing, and a command fails by its time-out only. -/
def BackendReply.Quiet : BackendReply → Prop
  | .sent => True
  | .replied result => ∀ error, result ≠ .error (.invalidFrame error)
  | .polled result => result = .ok none

/-- One operation without a pull. -/
theorem perform_answered (ha : Answered task) {op : BackendOp} (hop : op.NoPull) :
    Answered (op.perform config task).1 ∧ Grows task (op.perform config task).1 ∧
      (op.perform config task).2.Quiet := by
  cases op with
  | sendData payload turn =>
      obtain ⟨hanswered, hgrows⟩ := @sendData_answered config turn task payload hop
      simp only [BackendOp.perform]
      exact ⟨hanswered, hgrows, trivial⟩
  | sendCommand command env =>
      obtain ⟨hresult, -, hstaged, hgrows⟩ := @sendCommand_spec config task env command hop
      simp only [BackendOp.perform, BackendReply.Quiet, hresult]
      exact ⟨answered_of_empty hstaged, hgrows, replyOf_ne_invalid _⟩
  | pollOnce turn =>
      obtain ⟨frame, hholds, hkept⟩ := ha
      have hread := @readFrame_eq config turn task frame hholds
      have hpolled : SpiBackend.pollOnce config turn task =
          ((turn.acts.foldl SpiTask.act task).answered,
            .ok (SpiBackend.polledData frame)) := by
        simp only [SpiBackend.pollOnce, hread, Except.map]
      have hnone : SpiBackend.polledData frame = none := by
        rw [← hkept]
        cases frame with
        | data bytes => simp only [SpiBackend.polledData, kept, ne_eq, ite_not]
        | command bytes => rfl
      simp only [BackendOp.perform, hpolled, hnone]
      exact ⟨answered_of_empty staged_answered, grows_answered _, rfl⟩

theorem run_answered (ha : Answered task) (ops : List BackendOp)
    (hops : ∀ op ∈ ops, op.NoPull) :
    let run := Runs.replies (BackendOp.perform config) task ops
    Answered run.1 ∧ Grows task run.1 ∧ ∀ reply ∈ run.2, reply.Quiet := by
  induction ops generalizing task with
  | nil => exact ⟨ha, Grows.of_eq rfl, fun reply h => absurd h (List.not_mem_nil)⟩
  | cons op ops ih =>
      obtain ⟨hanswered, hgrows, hquiet⟩ := @perform_answered config task ha op (hops op (by simp))
      obtain ⟨hlast, hlater, hrest⟩ := ih hanswered fun other h => hops other (by simp [h])
      exact ⟨hlast, hgrows.trans hlater, List.forall_mem_cons.mpr ⟨hquiet, hrest⟩⟩

end Runs

/-- A backend that sends no pull is given no bridged data: each poll comes back
empty, a command fails by its time-out only, and every response that the session
has queued stays in the queue. -/
theorem backend_never_receives (config : BridgeConfig) (front back : List BackendOp)
    (hfront : ∀ op ∈ front, op.NoPull) (hback : ∀ op ∈ back, op.NoPull) :
    let before := Runs.replies (BackendOp.perform config) SpiTask.start front
    let after := Runs.replies (BackendOp.perform config) before.1 back
    (∀ result, .polled result ∈ after.2 → result = .ok none) ∧
      (∀ result, .replied result ∈ after.2 → ∀ error, result ≠ .error (.invalidFrame error)) ∧
      before.1.rxResp.contents <+: after.1.rxResp.contents := by
  intro before after
  obtain ⟨hanswered, -, -⟩ := @run_answered config SpiTask.start answered_start front hfront
  obtain ⟨-, ⟨more, hmore⟩, hquiet⟩ := run_answered hanswered back hback
  exact ⟨fun result h => hquiet _ h, fun result h => hquiet _ h, more, hmore.symm⟩

/-- A response is queued before each exchange. -/
def busyTurn : Turn where
  acts := [.queueResponse (.data (ascii "a"))]
  runtime := CommandRuntime.idle
  filler := emptyDataResponse

theorem backend_never_receives_ping :
    let before := Runs.replies (BackendOp.perform BridgeConfig.spiServer) SpiTask.start
      [.pollOnce busyTurn]
    let after := Runs.replies (BackendOp.perform BridgeConfig.spiServer) before.1
      [.sendCommand (ascii "/ping") fun _ => busyTurn, .pollOnce busyTurn]
    (∀ result, .polled result ∈ after.2 → result = .ok none) ∧
      (∀ result, .replied result ∈ after.2 → ∀ error, result ≠ .error (.invalidFrame error)) ∧
      before.1.rxResp.contents <+: after.1.rxResp.contents := by
  have hping : BackendOp.NoPull (.sendCommand (ascii "/ping") fun _ => busyTurn) := by
    show receivedLine (ascii "/ping") ≠ ascii "/pull"
    rw [receivedLine_ping]
    decide
  have hpoll : BackendOp.NoPull (.pollOnce busyTurn) := trivial
  exact backend_never_receives BridgeConfig.spiServer [.pollOnce busyTurn]
    [.sendCommand (ascii "/ping") fun _ => busyTurn, .pollOnce busyTurn]
    (List.forall_mem_cons.mpr ⟨hpoll, nofun⟩)
    (List.forall_mem_cons.mpr ⟨hping, List.forall_mem_cons.mpr ⟨hpoll, nofun⟩⟩)

end Spi
end PicoFi
