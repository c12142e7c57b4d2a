import PicoFi.SpiTask
import PicoFi.StepRuns

/-!
# Pulled responses until they are clocked out

A pull takes a frame from the response queue for good, so the task has to
keep it until the bus has clocked all of it.  The run records the frames it
owes the host.  They stay with the task as long as the host does nothing but
pull until the frame is clocked out; any other request has its answer staged
over the frame, and the transaction that reads that answer ends the pending
pull.
-/

namespace PicoFi
namespace Spi

open Buffer LinkFrame Mailbox

/-! ## Runs with a record of pulled frames -/

inductive SpiEvent
  /-- One transaction, with the runtime its commands print. -/
  | transaction (runtime : CommandRuntime) (t : Transfer)
  /-- The session queues a response. -/
  | queueResponse (magic : UInt8) (payload : List UInt8)
  /-- The session takes a request. -/
  | takeRequest

def ClockedOut (frame : Frame) (written : ℕ) : Prop :=
  frameLen frame + frameHeaderSize ≤ written

instance (frame : Frame) (written : ℕ) : Decidable (ClockedOut frame written) :=
  inferInstanceAs (Decidable (_ ≤ _))

/-- The task and the frames popped by a pull that no transaction has clocked
out completely, oldest first. -/
structure PullRun where
  task : SpiTask
  owed : List Frame

namespace PullRun

def start : PullRun := ⟨SpiTask.start, []⟩

def popped (mid : SpiTask) : Verdict → Option Frame
  | .pull =>
      if mid.pendingPull.isNone then mid.rxResp.tryPop.2.map SpiFrame.asFrame
      else none
  | _ => none

def step (config : BridgeConfig) (s : PullRun) : SpiEvent → PullRun
  | .transaction runtime t =>
      let staged := s.task.transport.stagedTx
      let owed :=
        if ClockedOut staged t.written then s.owed.erase staged else s.owed
      { task := s.task.transaction config runtime t
        owed := owed ++ (popped (s.task.afterTransfer t).1
          (s.task.verdict config runtime t)).toList }
  | .queueResponse magic payload =>
      { s with
        task := { s.task with
          rxResp := (s.task.rxResp.tryPushRef (SpiFrame.response magic payload)).1 } }
  | .takeRequest =>
      { s with task := { s.task with ingress := s.task.ingress.tryPop.1 } }

end PullRun

def Held (s : SpiTask) (frame : Frame) : Prop :=
  s.transport.stagedTx = frame ∨ s.pendingPull = some frame

/-! ## Requests that pull -/

/-- The request asks for a queued response, as the task reads it. -/
def TransactionResult.AsksPull : TransactionResult → Prop
  | .idlePoll _ _ => False
  | .partialFrame _ _ frame => extractAsciiCommand frame = some (ascii "/pull")
  | .complete frame =>
      match parseRequestFrame frame with
      | some (.command payload) => trimAsciiLine payload = ascii "/pull"
      | some (.data _) => extractAsciiCommand frame = some (ascii "/pull")
      | none => False

@[irreducible] def AsksPull (t : Transfer) : Prop :=
  (PioSpiTransportState.new.finishTransaction t.rx t.received).2.AsksPull

theorem finalizeTransaction_eq_pull (config : BridgeConfig) (runtime : CommandRuntime)
    (result : TransactionResult) :
    finalizeTransaction config runtime result = .pull ↔ result.AsksPull := by
  cases result with
  | idlePoll received preview => simp [finalizeTransaction, TransactionResult.AsksPull]
  | partialFrame received expected frame =>
      cases hline : extractAsciiCommand frame <;>
        grind [finalizeTransaction, TransactionResult.AsksPull]
  | complete frame =>
      cases hparse : parseRequestFrame frame with
      | none =>
          cases hline : extractAsciiCommand frame <;>
            grind [finalizeTransaction, TransactionResult.AsksPull]
      | some request =>
          cases request with
          | command payload => grind [finalizeTransaction, TransactionResult.AsksPull]
          | data payload =>
              cases hline : extractAsciiCommand frame <;>
                grind [finalizeTransaction, TransactionResult.AsksPull]

theorem verdict_eq_pull (config : BridgeConfig) (runtime : CommandRuntime)
    (s : SpiTask) (t : Transfer) :
    s.verdict config runtime t = .pull ↔ AsksPull t := by
  unfold AsksPull
  exact finalizeTransaction_eq_pull config runtime _

/-- While a pull is pending, the transaction clocks the whole staged frame out
or is a pull itself; and a pull that turns to the queue finds no empty data
response there, which the task cannot tell from the response of an idle poll. -/
def KeepsPull (s : PullRun) : SpiEvent → Prop
  | .transaction _ t =>
      let clocked := ClockedOut s.task.transport.stagedTx t.written
      (s.task.pendingPull.isSome → clocked ∨ AsksPull t) ∧
        (AsksPull t → (s.task.pendingPull.isSome → clocked) →
          ∀ item, s.task.rxResp.tryPop.2 = some item →
            isDefaultEmptyDataResponse item.asFrame = false)
  | .queueResponse magic _ => magic = respDataMagic ∨ magic = respCommandMagic
  | .takeRequest => True

/-- The frame is held, and the next pull, unless it clocks the frame out
itself, stages it again and leaves the response queue alone. -/
def Resumes (config : BridgeConfig) (task : SpiTask) (frame : Frame) : Prop :=
  Held task frame ∧ ∀ runtime t, AsksPull t →
    (task.transport.stagedTx = frame ∧ ClockedOut frame t.written) ∨
      ((task.transaction config runtime t).transport.stagedTx = frame ∧
        (task.transaction config runtime t).rxResp = task.rxResp)

/-! ## One transaction -/

theorem isDefaultEmpty_emptyDataResponse :
    isDefaultEmptyDataResponse emptyDataResponse = true := by decide

theorem of_shouldPreserve {frame : Frame} {written : ℕ}
    (hpreserve : shouldPreserveStagedResponse frame written = true) :
    ¬ClockedOut frame written ∧ isDefaultEmptyDataResponse frame = false := by
  unfold shouldPreserveStagedResponse at hpreserve
  simp only at hpreserve
  unfold ClockedOut isDefaultEmptyDataResponse
  split at hpreserve
  next hcommand =>
    have hfirst : frame.byte 0 = reqCommandMagic := (Prod.mk.inj hcommand).1
    refine ⟨by simpa using hpreserve, ?_⟩
    simp [hfirst, reqCommandMagic, reqDataMagic]
  next =>
    split at hpreserve
    next hdata =>
      refine ⟨by simpa using hpreserve, ?_⟩
      simp [hdata.2]
    next => cases hpreserve

theorem not_shouldPreserve_of_clockedOut {frame : Frame} {written : ℕ}
    (hclocked : ClockedOut frame written) :
    shouldPreserveStagedResponse frame written = false := by
  by_contra hpreserve
  exact (of_shouldPreserve (by simpa using hpreserve)).1 hclocked

theorem afterTransfer_preserved {s : SpiTask} {t : Transfer}
    (hpreserve : shouldPreserveStagedResponse s.transport.stagedTx t.written =
      true) :
    (s.afterTransfer t).1.pendingPull = s.pendingPull := by
  have hdefault := (of_shouldPreserve hpreserve).2
  simp only [SpiTask.afterTransfer, hpreserve, if_true,
    PioSpiTransportState.stageResponse, hdefault, Bool.false_eq_true, and_false,
    if_false]

theorem afterTransfer_dropped {s : SpiTask} {t : Transfer}
    (hpreserve : shouldPreserveStagedResponse s.transport.stagedTx t.written =
      false) :
    (s.afterTransfer t).1.pendingPull = none := by
  have hdefault := isDefaultEmpty_emptyDataResponse
  simp only [SpiTask.afterTransfer, hpreserve, Bool.false_eq_true, if_false,
    PioSpiTransportState.finishTransaction, hdefault, and_true]
  cases s.pendingPull <;> rfl

theorem perform_pendingPull (mid : SpiTask) (verdict : Verdict) :
    (mid.perform verdict).pendingPull =
      (mid.pendingPull <|> PullRun.popped mid verdict) := by
  cases verdict with
  | respond next => cases h : mid.pendingPull <;> simp [SpiTask.perform, PullRun.popped, h]
  | forward item => cases h : mid.pendingPull <;> simp [SpiTask.perform, PullRun.popped, h]
  | pull =>
      cases h : mid.pendingPull with
      | some resp => simp [SpiTask.perform, pullQueuedResponse, h]
      | none =>
          cases hpop : mid.rxResp.tryPop with
          | mk rxResp item =>
              cases item <;>
                simp [SpiTask.perform, pullQueuedResponse, PullRun.popped, h, hpop]

theorem shouldPreserve_iff {frame : Frame} {written : ℕ}
    (hsync : SyncPair (frame.byte 0) (frame.byte 1))
    (hfull : isDefaultEmptyDataResponse frame = false) :
    shouldPreserveStagedResponse frame written = true ↔ ¬ClockedOut frame written := by
  have hmagics : (reqDataMagic, respDataMagic) ≠ (reqCommandMagic, respCommandMagic) := by
    decide
  rw [ClockedOut, not_le]
  unfold shouldPreserveStagedResponse
  rcases hsync with hdata | hcommand
  · have hlen : frameLen frame ≠ 0 := by
      intro hzero
      have hfirst := (Prod.mk.inj hdata).1
      have hsecond := (Prod.mk.inj hdata).2
      simp [isDefaultEmptyDataResponse, hfirst, hsecond, hzero] at hfull
    simp [hdata, hmagics, hlen]
  · simp [hcommand]

/-- A pull during a pending one that is left incomplete stages its frame again. -/
theorem transaction_restages {config : BridgeConfig} {runtime : CommandRuntime}
    {s : SpiTask} {t : Transfer} {frame : Frame}
    (hpending : s.pendingPull = some frame) (hasks : AsksPull t)
    (hpreserve : shouldPreserveStagedResponse s.transport.stagedTx t.written = true) :
    (s.transaction config runtime t).transport.stagedTx = frame ∧
      (s.transaction config runtime t).pendingPull = some frame ∧
      (s.transaction config runtime t).rxResp = s.rxResp := by
  have hkept : (s.afterTransfer t).1.pendingPull = some frame :=
    (afterTransfer_preserved hpreserve).trans hpending
  have hverdict := (verdict_eq_pull config runtime s t).mpr hasks
  simp only [SpiTask.transaction, hverdict, SpiTask.perform, pullQueuedResponse, hkept,
    PioSpiTransportState.stageResponse]
  exact ⟨trivial, trivial, rfl⟩

/-- A frame that starts with a pair of magics and is no empty data response. -/
structure Retainable (frame : Frame) : Prop where
  sync : SyncPair (frame.byte 0) (frame.byte 1)
  full : isDefaultEmptyDataResponse frame = false

/-- The frame of the pending pull is the staged one, and it is the only frame
owed. -/
structure OwesPending (s : PullRun) : Prop where
  owed_eq : s.owed = s.task.pendingPull.toList
  staged : ∀ frame, s.task.pendingPull = some frame →
    s.task.transport.stagedTx = frame ∧ Retainable frame
  queued : ∀ wire ∈ s.task.rxResp.contents, ∃ pair payload,
    SyncPair pair.1 pair.2 ∧ payload.length ≤ payloadMax ∧ wire = framed pair payload

theorem owesPending_start : OwesPending PullRun.start where
  owed_eq := rfl
  staged := by simp [PullRun.start, SpiTask.start]
  queued := by simp [PullRun.start, SpiTask.start]

theorem OwesPending.sync_head {s : PullRun} (howes : OwesPending s) {item : SpiFrame}
    (hpop : s.task.rxResp.tryPop.2 = some item) :
    SyncPair (item.asFrame.byte 0) (item.asFrame.byte 1) := by
  have hmem : QueueCodec.wire item ∈ s.task.rxResp.contents := by
    rw [OverwriteQueue.contents_of_tryPop hpop]
    exact List.mem_cons_self
  obtain ⟨pair, payload, hpair, hmax, hwire⟩ := howes.queued _ hmem
  have hframe : item.asFrame = requestFrame pair payload := by
    rw [requestFrame, ← hwire]
    rfl
  obtain ⟨hfirst, hsecond⟩ := @requestFrame_sync pair payload hmax
  rwa [hframe, hfirst, hsecond]

theorem OwesPending.queueResponse {s : PullRun} (howes : OwesPending s)
    {magic : UInt8} (payload : List UInt8)
    (hmagic : magic = respDataMagic ∨ magic = respCommandMagic)
    (config : BridgeConfig) :
    OwesPending (s.step config (.queueResponse magic payload)) where
  owed_eq := howes.owed_eq
  staged := howes.staged
  queued := by
    obtain ⟨pair, hpair, hsync⟩ : ∃ pair, headerForMagic magic = some pair ∧
        SyncPair pair.1 pair.2 := by
      rcases hmagic with rfl | rfl
      · exact ⟨_, rfl, .inl rfl⟩
      · exact ⟨_, rfl, .inr rfl⟩
    intro wire hwire
    have hcontents := s.task.rxResp.contents_push (SpiFrame.response magic payload)
    have hboth : wire ∈ s.task.rxResp.contents ∨
        wire = framed pair (payload.take payloadMax) := by
      rw [← SpiFrame.asSlice_response hpair]
      simp only [PullRun.step, hcontents, List.mem_append] at hwire
      refine hwire.imp_right fun hnew => ?_
      split at hnew
      · exact List.mem_singleton.mp hnew
      · cases hnew
    rcases hboth with hold | hnew
    · exact howes.queued wire hold
    · exact ⟨pair, _, hsync, List.length_take_le _ _, hnew⟩

/-- A transaction with no pull left pending before its answer. -/
theorem OwesPending.afterPop {s : PullRun} (howes : OwesPending s)
    {config : BridgeConfig} {runtime : CommandRuntime} {t : Transfer}
    (hnone : (s.task.afterTransfer t).1.pendingPull = none)
    (hcleared : (if ClockedOut s.task.transport.stagedTx t.written then
      s.owed.erase s.task.transport.stagedTx else s.owed) = [])
    (hfull : AsksPull t → ∀ item, s.task.rxResp.tryPop.2 = some item →
      isDefaultEmptyDataResponse item.asFrame = false) :
    OwesPending (s.step config (.transaction runtime t)) := by
  have hqueue : (s.task.afterTransfer t).1.rxResp = s.task.rxResp := rfl
  have hpull := verdict_eq_pull config runtime s.task t
  have hpending : ((s.task.afterTransfer t).1.perform
      (s.task.verdict config runtime t)).pendingPull =
        PullRun.popped (s.task.afterTransfer t).1 (s.task.verdict config runtime t) := by
    rw [perform_pendingPull, hnone]
    rfl
  constructor
  case owed_eq =>
    simp only [PullRun.step, hcleared, List.nil_append, SpiTask.transaction, hpending]
  case staged =>
    intro frame hframe
    simp only [PullRun.step, SpiTask.transaction] at hframe ⊢
    rw [hpending] at hframe
    cases hverdict : s.task.verdict config runtime t with
    | respond next => simp [hverdict, PullRun.popped] at hframe
    | forward item => simp [hverdict, PullRun.popped] at hframe
    | pull =>
        simp only [hverdict, PullRun.popped, hnone, Option.isNone_none, if_true, hqueue,
          Option.map_eq_some_iff] at hframe
        obtain ⟨item, hpop, rfl⟩ := hframe
        refine ⟨?_, howes.sync_head hpop, hfull (hpull.mp hverdict) item hpop⟩
        obtain ⟨rxResp, hboth⟩ : ∃ rxResp, s.task.rxResp.tryPop = (rxResp, some item) :=
          ⟨_, Prod.ext rfl hpop⟩
        simp only [SpiTask.perform, pullQueuedResponse, hnone, hqueue, hboth,
          PioSpiTransportState.stageResponse]
  case queued =>
    intro wire hwire
    refine howes.queued wire ?_
    simp only [PullRun.step, SpiTask.transaction] at hwire
    cases hverdict : s.task.verdict config runtime t with
    | respond next => simpa only [hverdict, SpiTask.perform, hqueue] using hwire
    | forward item => simpa only [hverdict, SpiTask.perform, hqueue] using hwire
    | pull =>
        have hcontents := s.task.rxResp.contents_pop
        rw [hcontents]
        refine List.mem_append_right _ ?_
        simp only [hverdict, SpiTask.perform, pullQueuedResponse, hnone, hqueue] at hwire
        cases hpop : s.task.rxResp.tryPop with
        | mk rxResp item => cases item <;> simpa only [hpop] using hwire

theorem OwesPending.afterStep {config : BridgeConfig} {s : PullRun}
    {event : SpiEvent} (howes : OwesPending s) (hkeeps : KeepsPull s event) :
    OwesPending (s.step config event) := by
  cases event with
  | queueResponse magic payload => exact howes.queueResponse payload hkeeps config
  | takeRequest => exact ⟨howes.owed_eq, howes.staged, howes.queued⟩
  | transaction runtime t =>
      obtain ⟨honly, hfull⟩ := hkeeps
      cases hpending : s.task.pendingPull with
      | none =>
          have hnone : (s.task.afterTransfer t).1.pendingPull = none := by
            simp [SpiTask.afterTransfer, hpending]
          refine howes.afterPop hnone ?_ fun hasks => hfull hasks ?_
          · simp [howes.owed_eq, hpending]
          · simp [hpending]
      | some frame =>
          obtain ⟨hstaged, hretain⟩ := howes.staged frame hpending
          have howed : s.owed = [frame] := by rw [howes.owed_eq, hpending]; rfl
          by_cases hclocked : ClockedOut s.task.transport.stagedTx t.written
          · have hnone := afterTransfer_dropped (not_shouldPreserve_of_clockedOut hclocked)
            refine howes.afterPop hnone ?_ fun hasks => hfull hasks fun _ => hclocked
            rw [if_pos hclocked, howed, hstaged]
            simp
          · have hasks : AsksPull t :=
              (honly (by simp [hpending])).resolve_left hclocked
            have hpreserve : shouldPreserveStagedResponse s.task.transport.stagedTx
                t.written = true := by
              rw [hstaged] at hclocked ⊢
              exact (shouldPreserve_iff hretain.sync hretain.full).mpr hclocked
            obtain ⟨hagain, hstill, hqueue⟩ := @transaction_restages config runtime _ _ _
              hpending hasks hpreserve
            have hverdict := (verdict_eq_pull config runtime s.task t).mpr hasks
            have hkept := (afterTransfer_preserved hpreserve).trans hpending
            constructor
            case owed_eq =>
              simp [PullRun.step, hstill, hclocked, howed, hverdict, PullRun.popped, hkept]
            case staged =>
              intro other hother
              rw [PullRun.step, hstill] at hother
              cases hother
              exact ⟨hagain, hretain⟩
            case queued =>
              intro wire hwire
              rw [PullRun.step, hqueue] at hwire
              exact howes.queued wire hwire

/-! ## Runs -/

/-- As long as the host does nothing but pull while a pulled frame is not
clocked out completely, no pulled frame is lost: each one still owed is held,
and the next pull stages it again and leaves the response queue alone. -/
theorem pulled_frame_kept (config : BridgeConfig) (events : List SpiEvent)
    (hkeeps : Runs.AllSteps (PullRun.step config) KeepsPull PullRun.start
      events)
    (frame : Frame)
    (howed : frame ∈ (events.foldl (PullRun.step config) PullRun.start).owed) :
    Resumes config (events.foldl (PullRun.step config) PullRun.start).task frame := by
  have howes : OwesPending (events.foldl (PullRun.step config) PullRun.start) :=
    Runs.invariant_of_allSteps (fun _ _ h hk => h.afterStep hk) owesPending_start hkeeps
  generalize events.foldl (PullRun.step config) PullRun.start = s at howed howes ⊢
  rw [howes.owed_eq, Option.mem_toList] at howed
  have hpending : s.task.pendingPull = some frame := howed
  obtain ⟨hstaged, hretain⟩ := howes.staged frame hpending
  refine ⟨.inl hstaged, fun runtime t hasks => ?_⟩
  by_cases hclocked : ClockedOut frame t.written
  · exact .inl ⟨hstaged, hclocked⟩
  · have hpreserve : shouldPreserveStagedResponse s.task.transport.stagedTx t.written =
        true := by
      rw [hstaged]
      exact (shouldPreserve_iff hretain.sync hretain.full).mpr hclocked
    have hagain := @transaction_restages config runtime _ _ _ hpending hasks hpreserve
    exact .inr ⟨hagain.1, hagain.2.2⟩

/-! ## Two short runs -/

def pullTransfer (written : ℕ) : Transfer where
  rx := requestFrame (reqCommandMagic, respCommandMagic) (ascii "/pull\n")
  received := 10
  written := written

/-- A poll that clocks four zero bytes. -/
def idleTransfer : Transfer := ⟨FixedBytes.padded [], 4, 4⟩

theorem asksPull_pullTransfer (written : ℕ) : AsksPull (pullTransfer written) := by
  have hfinish := @finishTransaction_requestFrame
    (reqCommandMagic, respCommandMagic) (ascii "/pull\n") (by decide)
    (.inr rfl) PioSpiTransportState.new
  have hresult : (PioSpiTransportState.new.finishTransaction (pullTransfer written).rx
      (pullTransfer written).received).2 = .complete (pullTransfer written).rx :=
    congrArg Prod.snd hfinish
  have hparse : parseRequestFrame (pullTransfer written).rx =
      some (.command (ascii "/pull\n")) := by
    rw [parseRequestFrame, pullTransfer, toList_requestFrame (by decide)]
    exact parseRequestBytes_framed_command (by decide)
  have hline : trimAsciiLine (ascii "/pull\n") = ascii "/pull" := by
    unfold trimAsciiLine
    rw [validUtf8_of_ascii (by decide)]
    decide
  rw [AsksPull, hresult]
  simp only [TransactionResult.AsksPull, hparse, hline]

theorem verdict_pullTransfer (config : BridgeConfig) (runtime : CommandRuntime)
    (s : SpiTask) (written : ℕ) :
    s.verdict config runtime (pullTransfer written) = .pull :=
  (verdict_eq_pull config runtime s _).mpr (asksPull_pullTransfer written)

/-- Another response on the wire ends this: the pull that reads it to the end
turns to the queue. -/
theorem Resumes.staged_eq {config : BridgeConfig} {task : SpiTask} {frame : Frame}
    (hresumes : Resumes config task frame)
    (hfull : isDefaultEmptyDataResponse frame = false) :
    task.transport.stagedTx = frame := by
  by_contra hother
  obtain ⟨written, hclocked⟩ : ∃ written, ClockedOut task.transport.stagedTx written :=
    ⟨_, Nat.le_refl _⟩
  have hnone : (task.afterTransfer (pullTransfer written)).1.pendingPull = none :=
    afterTransfer_dropped (not_shouldPreserve_of_clockedOut hclocked)
  have hqueue : (task.afterTransfer (pullTransfer written)).1.rxResp = task.rxResp := rfl
  rcases hresumes.2 CommandRuntime.idle _ (asksPull_pullTransfer written) with hout | hagain
  · exact hother hout.1
  · simp only [SpiTask.transaction, verdict_pullTransfer, SpiTask.perform, pullQueuedResponse,
      hnone, hqueue, PioSpiTransportState.stageResponse] at hagain
    cases hpop : task.rxResp.tryPop with
    | mk rxResp popped =>
        rw [hpop] at hagain
        cases popped with
        | none =>
            rw [← hagain.1, isDefaultEmpty_emptyDataResponse] at hfull
            cases hfull
        | some item =>
            have hcontents := OverwriteQueue.contents_of_tryPop (congrArg Prod.snd hpop)
            have hrest : task.rxResp.tryPop.1 = task.rxResp :=
              (congrArg Prod.fst hpop).trans hagain.2
            rw [hrest] at hcontents
            exact List.cons_ne_self _ _ hcontents.symm

theorem verdict_idleTransfer (config : BridgeConfig) (runtime : CommandRuntime)
    (s : SpiTask) :
    s.verdict config runtime idleTransfer = .respond emptyDataResponse := rfl

theorem PullRun.mem_owed_step {config : BridgeConfig} {s : PullRun}
    {runtime : CommandRuntime} {t : Transfer} {frame : Frame}
    (hmem : frame ∈ s.owed)
    (hopen : ¬(frame = s.task.transport.stagedTx ∧
      ClockedOut s.task.transport.stagedTx t.written)) :
    frame ∈ (s.step config (.transaction runtime t)).owed := by
  refine List.mem_append_left _ ?_
  show frame ∈ if ClockedOut s.task.transport.stagedTx t.written then _ else _
  split
  next hclocked =>
    exact (List.mem_erase_of_ne fun heq => hopen ⟨heq, hclocked⟩).mpr hmem
  next => exact hmem

theorem staged_step_idle (config : BridgeConfig) (runtime : CommandRuntime)
    (s : PullRun) :
    (s.step config (.transaction runtime idleTransfer)).task.transport.stagedTx =
      emptyDataResponse := by
  simp only [PullRun.step, SpiTask.transaction, verdict_idleTransfer,
    SpiTask.perform, PioSpiTransportState.stageResponse]

theorem pendingPull_step_idle (config : BridgeConfig) (runtime : CommandRuntime)
    {s : PullRun} (hstaged : s.task.transport.stagedTx = emptyDataResponse) :
    (s.step config (.transaction runtime idleTransfer)).task.pendingPull =
      none := by
  have hdropped : shouldPreserveStagedResponse s.task.transport.stagedTx
      idleTransfer.written = false := by
    rw [hstaged]
    decide
  simp only [PullRun.step, SpiTask.transaction, verdict_idleTransfer,
    SpiTask.perform]
  exact afterTransfer_dropped hdropped

theorem step_pullTransfer (config : BridgeConfig) (runtime : CommandRuntime)
    {s : PullRun} {item : SpiFrame} (written : ℕ)
    (hpending : s.task.pendingPull = none)
    (hpop : s.task.rxResp.tryPop.2 = some item) (howed : s.owed = []) :
    let next := s.step config (.transaction runtime (pullTransfer written))
    next.task.transport.stagedTx = item.asFrame ∧
      next.task.pendingPull = some item.asFrame ∧
      next.owed = [item.asFrame] := by
  have hnone : (s.task.afterTransfer (pullTransfer written)).1.pendingPull =
      none := by
    simp [SpiTask.afterTransfer, hpending]
  have hrxResp : (s.task.afterTransfer (pullTransfer written)).1.rxResp =
      s.task.rxResp := rfl
  obtain ⟨rxResp, hboth⟩ : ∃ rxResp, s.task.rxResp.tryPop = (rxResp, some item) :=
    ⟨_, Prod.ext rfl hpop⟩
  simp only [PullRun.step, SpiTask.transaction, verdict_pullTransfer,
    SpiTask.perform, pullQueuedResponse, hnone, hrxResp, hboth,
    PioSpiTransportState.stageResponse, PullRun.popped, howed]
  simp

section Queued

variable {payload : List UInt8}

theorem queued_accepted (hmax : payload.length ≤ payloadMax) :
    (PullRun.start.task.rxResp.tryPushRef
      (SpiFrame.response respDataMagic payload)).2 = true := by
  have hslice : QueueCodec.wire (SpiFrame.response respDataMagic payload) =
      framed (reqDataMagic, respDataMagic) (payload.take payloadMax) :=
    SpiFrame.asSlice_response rfl payload
  rw [OverwriteQueue.tryPushRef_accepted, hslice, length_framed, List.length_take,
    Nat.min_eq_right hmax]
  have hempty : PullRun.start.task.rxResp.state = QueueState.new queueDepth queueBytes := rfl
  simp only [OverwriteQueue.HasSpaceFor, hempty, QueueState.Fits, QueueState.new]
  simp only [payloadMax, frameSize, frameHeaderSize] at hmax ⊢
  simp only [queueDepth, queueBytes, List.length_nil]
  omega

theorem asFrame_response (hmax : payload.length ≤ payloadMax) :
    (SpiFrame.response respDataMagic payload).asFrame =
      requestFrame (reqDataMagic, respDataMagic) payload := by
  have hslice : (SpiFrame.response respDataMagic payload).asSlice =
      framed (reqDataMagic, respDataMagic) (payload.take payloadMax) :=
    SpiFrame.asSlice_response rfl payload
  rw [List.take_of_length_le hmax] at hslice
  unfold requestFrame
  rw [← hslice]
  rfl

/-- The task with this response queued, and after a pull that reads the staged
empty response. -/
def withQueued (payload : List UInt8) : PullRun :=
  PullRun.start.step BridgeConfig.spiServer (.queueResponse respDataMagic payload)

def pulledOnce (payload : List UInt8) : PullRun :=
  (withQueued payload).step BridgeConfig.spiServer
    (.transaction CommandRuntime.idle (pullTransfer 4))

theorem tryPop_withQueued (hmax : payload.length ≤ payloadMax) :
    (withQueued payload).task.rxResp.tryPop.2 =
      some (SpiFrame.response respDataMagic payload) := by
  have hempty : PullRun.start.task.rxResp.contents = [] :=
    OverwriteQueue.contents_empty (by decide)
  have hqueue : (withQueued payload).task.rxResp = (PullRun.start.task.rxResp.tryPushRef
      (SpiFrame.response respDataMagic payload)).1 := rfl
  have hcontents := OverwriteQueue.contents_of_accepted (queued_accepted hmax)
  rw [hempty] at hcontents
  rw [hqueue]
  exact OverwriteQueue.tryPop_eq_some SpiFrame.wire_injective hcontents

theorem pulledOnce_eq (hmax : payload.length ≤ payloadMax) :
    (pulledOnce payload).task.transport.stagedTx =
        requestFrame (reqDataMagic, respDataMagic) payload ∧
      (pulledOnce payload).task.pendingPull =
        some (requestFrame (reqDataMagic, respDataMagic) payload) ∧
      (pulledOnce payload).owed = [requestFrame (reqDataMagic, respDataMagic) payload] := by
  have hpending : (withQueued payload).task.pendingPull = none := rfl
  have howed : (withQueued payload).owed = [] := rfl
  have hpull := step_pullTransfer BridgeConfig.spiServer CommandRuntime.idle 4
    hpending (tryPop_withQueued hmax) howed
  rw [asFrame_response hmax] at hpull
  rw [pulledOnce]
  exact hpull

end Queued

def queuedA : SpiFrame := SpiFrame.response respDataMagic (ascii "a")

theorem queuedA_accepted :
    (PullRun.start.task.rxResp.tryPushRef queuedA).2 = true :=
  queued_accepted (by decide)

theorem queuedA_asFrame :
    queuedA.asFrame = requestFrame (reqDataMagic, respDataMagic) (ascii "a") :=
  asFrame_response (by decide)

theorem queuedA_preserved :
    shouldPreserveStagedResponse queuedA.asFrame 4 = true := by
  rw [queuedA_asFrame]
  decide

theorem queuedA_ne_empty : queuedA.asFrame ≠ emptyDataResponse := by
  intro heq
  have hpreserved := queuedA_preserved
  rw [heq] at hpreserved
  exact absurd hpreserved (by decide)

theorem keepsPull_withQueued {payload : List UInt8} (hmax : payload.length ≤ payloadMax)
    (hfull : isDefaultEmptyDataResponse
      (requestFrame (reqDataMagic, respDataMagic) payload) = false) :
    KeepsPull (withQueued payload) (.transaction CommandRuntime.idle (pullTransfer 4)) := by
  have hpending : (withQueued payload).task.pendingPull = none := rfl
  refine ⟨fun hsome => ?_, fun _ _ item hpop => ?_⟩
  · rw [hpending] at hsome
    cases hsome
  · rw [tryPop_withQueued hmax] at hpop
    rw [← Option.some.inj hpop, asFrame_response hmax]
    exact hfull

/-- A second pull of ten bytes leaves the twelve bytes of the first one's
frame incomplete, and keeps it. -/
theorem pulled_frame_kept_second_pull :
    Resumes BridgeConfig.spiServer
      (([.queueResponse respDataMagic (ascii "response"),
        .transaction CommandRuntime.idle (pullTransfer 4),
        .transaction CommandRuntime.idle (pullTransfer 10)] : List SpiEvent).foldl
          (PullRun.step BridgeConfig.spiServer) PullRun.start).task
      (requestFrame (reqDataMagic, respDataMagic) (ascii "response")) := by
  obtain ⟨hstaged, hpending, howed⟩ := @pulledOnce_eq (ascii "response") (by decide)
  have hopen : ¬ClockedOut (pulledOnce (ascii "response")).task.transport.stagedTx
      (pullTransfer 10).written := by
    rw [hstaged, ClockedOut, frameLen_requestFrame (by decide)]
    decide
  have hfirst := @keepsPull_withQueued (ascii "response") (by decide) (by decide)
  have hsecond : KeepsPull (pulledOnce (ascii "response"))
      (.transaction CommandRuntime.idle (pullTransfer 10)) := by
    refine ⟨fun _ => .inr (asksPull_pullTransfer 10), fun _ hout => ?_⟩
    rw [hpending] at hout
    exact absurd (hout rfl) hopen
  have hmem : requestFrame (reqDataMagic, respDataMagic) (ascii "response") ∈
      ((pulledOnce (ascii "response")).step BridgeConfig.spiServer
        (.transaction CommandRuntime.idle (pullTransfer 10))).owed := by
    refine PullRun.mem_owed_step ?_ fun hout => hopen hout.2
    rw [howed]
    exact List.mem_singleton_self _
  have hkeeps : Runs.AllSteps (PullRun.step BridgeConfig.spiServer) KeepsPull
      PullRun.start [.queueResponse respDataMagic (ascii "response"),
        .transaction CommandRuntime.idle (pullTransfer 4),
        .transaction CommandRuntime.idle (pullTransfer 10)] :=
    ⟨.inl rfl, hfirst, hsecond, trivial⟩
  have hkept := pulled_frame_kept BridgeConfig.spiServer _ hkeeps
    (requestFrame (reqDataMagic, respDataMagic) (ascii "response"))
  simp only [List.foldl_cons, List.foldl_nil] at hkept ⊢
  rw [← withQueued, ← pulledOnce] at hkept ⊢
  exact hkept hmem

/-- An idle poll of four bytes replaces the staged frame, and the next one
ends its pending pull: the frame is owed and nowhere held. -/
theorem pulled_frame_lost :
    let s := [.queueResponse respDataMagic (ascii "a"),
      .transaction CommandRuntime.idle (pullTransfer 4),
      .transaction CommandRuntime.idle idleTransfer,
      .transaction CommandRuntime.idle idleTransfer].foldl
        (PullRun.step BridgeConfig.spiServer) PullRun.start
    queuedA.asFrame ∈ s.owed ∧ ¬Held s.task queuedA.asFrame := by
  obtain ⟨hstaged, -, howed⟩ := @pulledOnce_eq (ascii "a") (by decide)
  rw [← queuedA_asFrame] at hstaged howed
  simp only [List.foldl_cons, List.foldl_nil]
  rw [← withQueued, ← pulledOnce]
  have hreplaced := staged_step_idle BridgeConfig.spiServer CommandRuntime.idle
    (pulledOnce (ascii "a"))
  have hagain := staged_step_idle BridgeConfig.spiServer CommandRuntime.idle
    ((pulledOnce (ascii "a")).step BridgeConfig.spiServer
      (.transaction CommandRuntime.idle idleTransfer))
  have hnone := pendingPull_step_idle BridgeConfig.spiServer
    CommandRuntime.idle hreplaced
  have hmem : queuedA.asFrame ∈ ((pulledOnce (ascii "a")).step BridgeConfig.spiServer
      (.transaction CommandRuntime.idle idleTransfer)).owed := by
    refine PullRun.mem_owed_step ?_ ?_
    · rw [howed]
      exact List.mem_singleton_self _
    · rw [hstaged]
      exact fun hout => absurd hout.2 (of_shouldPreserve queuedA_preserved).1
  refine ⟨PullRun.mem_owed_step hmem ?_, ?_⟩
  · rw [hreplaced]
    exact fun hout => queuedA_ne_empty hout.1
  · rintro (hheld | hheld)
    · rw [hagain] at hheld
      exact queuedA_ne_empty hheld.symm
    · rw [hnone] at hheld
      cases hheld

end Spi
end PicoFi
