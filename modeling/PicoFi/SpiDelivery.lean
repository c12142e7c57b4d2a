import PicoFi.SpiRetention

/-!
# Pulled responses are delivered once and in order

A partly clocked response is staged again on purpose, so a copy of it may
stand on the wire more than once.  The run numbers the frames popped from the
response queue and carries the number along with the pending pull and with
the staged frame.  Only the last frame popped can have either, and a complete
delivery takes both away from it.
-/

namespace PicoFi
namespace Spi

open Buffer LinkFrame Mailbox

/-! ## Runs with numbered frames -/

/-- `popped` are the frames taken from the response queue, `pending` and
`staged` say which of them the pending pull and the staged frame are copies
of, and `delivered` lists the copies clocked out completely. -/
structure DeliveryRun where
  task : SpiTask
  popped : List Frame
  pending : Option ℕ
  staged : Option ℕ
  delivered : List (ℕ × Frame)

namespace DeliveryRun

def start : DeliveryRun := ⟨SpiTask.start, [], none, none, []⟩

/-- The numbers after the transfer: a response that is staged again keeps its
number, and so does a pull that stays pending. -/
def afterTransfer (s : DeliveryRun) (t : Transfer) : DeliveryRun :=
  let stagedTx := s.task.transport.stagedTx
  let task := (s.task.afterTransfer t).1
  { task := task
    popped := s.popped
    pending := if task.pendingPull.isSome then s.pending else none
    staged := if shouldPreserveStagedResponse stagedTx t.written then s.staged else none
    delivered := s.delivered ++
      if ClockedOut stagedTx t.written then (s.staged.map (·, stagedTx)).toList else [] }

/-- A pull stages the pending frame, or the next one of the queue under a new
number; every other answer is not a copy of a queue frame. -/
def perform (s : DeliveryRun) (verdict : Verdict) : DeliveryRun :=
  let task := s.task.perform verdict
  match verdict with
  | .pull =>
      match PullRun.popped s.task verdict with
      | some frame =>
          { s with
            task := task
            popped := s.popped ++ [frame]
            pending := some s.popped.length
            staged := some s.popped.length }
      | none => { s with task := task, staged := s.pending }
  | _ => { s with task := task, staged := none }

def step (config : BridgeConfig) (s : DeliveryRun) : SpiEvent → DeliveryRun
  | .transaction runtime t =>
      (s.afterTransfer t).perform (s.task.verdict config runtime t)
  | .queueResponse magic payload =>
      { s with
        task := { s.task with
          rxResp := (s.task.rxResp.tryPushRef (SpiFrame.response magic payload)).1 } }
  | .takeRequest =>
      { s with task := { s.task with ingress := s.task.ingress.tryPop.1 } }

theorem task_step (config : BridgeConfig) (s : DeliveryRun) (owed : List Frame)
    (event : SpiEvent) :
    (s.step config event).task = (PullRun.step config ⟨s.task, owed⟩ event).task := by
  cases event with
  | queueResponse magic payload => rfl
  | takeRequest => rfl
  | transaction runtime t =>
      show ((s.afterTransfer t).perform (s.task.verdict config runtime t)).task =
        s.task.transaction config runtime t
      rw [SpiTask.transaction]
      cases s.task.verdict config runtime t with
      | respond next => rfl
      | forward item => rfl
      | pull =>
          unfold perform
          dsimp only
          split <;> rfl

/-- The numbers are a record only: the task runs as it does without them. -/
theorem task_run (config : BridgeConfig) (events : List SpiEvent) {s : DeliveryRun}
    {other : PullRun} (hsame : s.task = other.task) :
    (events.foldl (step config) s).task =
      (events.foldl (PullRun.step config) other).task := by
  induction events generalizing s other with
  | nil => exact hsame
  | cons event events ih =>
      apply ih
      rw [task_step config s other.owed, hsame]

end DeliveryRun

/-! ## What the numbers say -/

/-- The frame a number stands for. -/
def DeliveryRun.frameOf (s : DeliveryRun) (i : Option ℕ) : Option Frame :=
  i.bind (s.popped[·]?)

structure Numbered (s : DeliveryRun) : Prop where
  pending_eq : s.task.pendingPull = s.frameOf s.pending
  pending_last : ∀ i, s.pending = some i → i + 1 = s.popped.length
  staged_pending : ∀ i, s.staged = some i → s.pending = some i
  staged_eq : ∀ i, s.staged = some i → s.popped[i]? = some s.task.transport.stagedTx
  delivered_eq : ∀ entry ∈ s.delivered, s.popped[entry.1]? = some entry.2
  delivered_fresh : ∀ entry ∈ s.delivered, s.pending ≠ some entry.1
  delivered_sorted : (s.delivered.map Prod.fst).Pairwise (· < ·)

theorem numbered_start : Numbered DeliveryRun.start where
  pending_eq := rfl
  pending_last := by simp [DeliveryRun.start]
  staged_pending := by simp [DeliveryRun.start]
  staged_eq := by simp [DeliveryRun.start]
  delivered_eq := by simp [DeliveryRun.start]
  delivered_fresh := by simp [DeliveryRun.start]
  delivered_sorted := List.Pairwise.nil

theorem staged_afterTransfer {s : SpiTask} {t : Transfer}
    (hpreserve : shouldPreserveStagedResponse s.transport.stagedTx t.written = true) :
    (s.afterTransfer t).1.transport.stagedTx = s.transport.stagedTx := by
  simp only [SpiTask.afterTransfer, hpreserve, if_true,
    PioSpiTransportState.stageResponse]

/-- After a pull the pending frame is the staged one. -/
theorem staged_perform_pull {s : SpiTask} {frame : Frame}
    (hpull : (s.perform .pull).pendingPull = some frame) :
    (s.perform .pull).transport.stagedTx = frame := by
  unfold SpiTask.perform pullQueuedResponse at hpull ⊢
  cases hpending : s.pendingPull with
  | some resp => simpa [hpending, PioSpiTransportState.stageResponse] using hpull
  | none =>
      cases hpop : s.rxResp.tryPop with
      | mk rxResp item =>
          cases item with
          | none => simp [hpending, hpop] at hpull
          | some item =>
              simpa [hpending, hpop, PioSpiTransportState.stageResponse] using hpull

theorem Numbered.lt_length {s : DeliveryRun} (h : Numbered s) {entry : ℕ × Frame}
    (hentry : entry ∈ s.delivered) : entry.1 < s.popped.length :=
  (List.getElem?_eq_some_iff.mp (h.delivered_eq entry hentry)).1

theorem Numbered.pending_lt {s : DeliveryRun} (h : Numbered s) {i : ℕ}
    (hi : s.pending = some i) : i < s.popped.length := by
  have hlast := h.pending_last i hi
  omega

theorem Numbered.pending_isSome {s : DeliveryRun} (h : Numbered s) :
    s.task.pendingPull.isSome = s.pending.isSome := by
  rw [h.pending_eq, DeliveryRun.frameOf]
  cases hpending : s.pending with
  | none => rfl
  | some i => simp [h.pending_lt hpending]

theorem Numbered.withTask {s : DeliveryRun} (h : Numbered s) {task : SpiTask}
    (hpull : task.pendingPull = s.task.pendingPull)
    (hstaged : task.transport.stagedTx = s.task.transport.stagedTx) :
    Numbered { s with task := task } where
  pending_eq := hpull.trans h.pending_eq
  pending_last := h.pending_last
  staged_pending := h.staged_pending
  staged_eq := hstaged ▸ h.staged_eq
  delivered_eq := h.delivered_eq
  delivered_fresh := h.delivered_fresh
  delivered_sorted := h.delivered_sorted

/-- An incomplete response: nothing is delivered, and every number stays. -/
theorem Numbered.afterPreserved {s : DeliveryRun} (h : Numbered s) {t : Transfer}
    (hpreserve : shouldPreserveStagedResponse s.task.transport.stagedTx t.written =
      true) :
    Numbered (s.afterTransfer t) := by
  have hopen := (of_shouldPreserve hpreserve).1
  have hpull := afterTransfer_preserved hpreserve
  have hpending : (if s.task.pendingPull.isSome then s.pending else none) = s.pending := by
    rw [h.pending_isSome]
    cases s.pending <;> rfl
  have hsame : s.afterTransfer t = { s with task := (s.task.afterTransfer t).1 } := by
    simp only [DeliveryRun.afterTransfer, hpull, hpending, if_pos hpreserve,
      if_neg hopen, List.append_nil]
  rw [hsame]
  exact h.withTask hpull (staged_afterTransfer hpreserve)

theorem Numbered.delivered_append {s : DeliveryRun} (h : Numbered s) {i : ℕ}
    (hstaged : s.staged = some i) (frame : Frame) :
    ((s.delivered ++ [(i, frame)]).map Prod.fst).Pairwise (· < ·) := by
  have hpending := h.staged_pending i hstaged
  have hlast := h.pending_last i hpending
  rw [List.map_append, List.pairwise_append]
  refine ⟨h.delivered_sorted, List.pairwise_singleton _ _, ?_⟩
  intro j hj k hk
  obtain ⟨entry, hentry, rfl⟩ := List.mem_map.mp hj
  obtain rfl : k = i := by simpa using hk
  have hlt := h.lt_length hentry
  have hne : entry.1 ≠ k := fun heq => h.delivered_fresh entry hentry (heq ▸ hpending)
  omega

/-- Any other transfer ends the pull; the staged number is delivered if all
of its frame was clocked. -/
theorem Numbered.afterDropped {s : DeliveryRun} (h : Numbered s) {t : Transfer}
    (hdrop : shouldPreserveStagedResponse s.task.transport.stagedTx t.written =
      false) :
    Numbered (s.afterTransfer t) := by
  have hpull := afterTransfer_dropped hdrop
  have hpending : (s.afterTransfer t).pending = none := by
    simp [DeliveryRun.afterTransfer, hpull]
  have hstaged : (s.afterTransfer t).staged = none := by
    simp [DeliveryRun.afterTransfer, hdrop]
  have hdelivered : (s.afterTransfer t).delivered = s.delivered ∨
      ∃ i, s.staged = some i ∧ (s.afterTransfer t).delivered =
        s.delivered ++ [(i, s.task.transport.stagedTx)] := by
    by_cases hclocked : ClockedOut s.task.transport.stagedTx t.written
    · cases hcase : s.staged with
      | none => left; simp [DeliveryRun.afterTransfer, hcase]
      | some i => right; exact ⟨i, rfl, by simp [DeliveryRun.afterTransfer, hcase, hclocked]⟩
    · left
      simp [DeliveryRun.afterTransfer, hclocked]
  constructor
  case pending_eq =>
    rw [hpending]
    exact hpull
  case pending_last => simp [hpending]
  case staged_pending => simp [hstaged]
  case staged_eq => simp [hstaged]
  case delivered_fresh => simp [hpending]
  case delivered_eq =>
    rcases hdelivered with hsame | ⟨i, hcase, hnew⟩
    · rw [hsame]
      exact h.delivered_eq
    · rw [hnew]
      intro entry hentry
      rcases List.mem_append.mp hentry with hold | hnew
      · exact h.delivered_eq entry hold
      · rw [List.mem_singleton.mp hnew]
        exact h.staged_eq i hcase
  case delivered_sorted =>
    rcases hdelivered with hsame | ⟨i, hcase, hnew⟩
    · rw [hsame]
      exact h.delivered_sorted
    · rw [hnew]
      exact h.delivered_append hcase _

theorem Numbered.afterTransfer {s : DeliveryRun} (h : Numbered s) (t : Transfer) :
    Numbered (s.afterTransfer t) := by
  cases hpreserve : shouldPreserveStagedResponse s.task.transport.stagedTx t.written with
  | true => exact h.afterPreserved hpreserve
  | false => exact h.afterDropped hpreserve

/-- An answer that is no copy of a queue frame. -/
theorem Numbered.afterOther {s : DeliveryRun} (h : Numbered s) {task : SpiTask}
    (hpull : task.pendingPull = s.task.pendingPull) :
    Numbered { s with task := task, staged := none } where
  pending_eq := hpull.trans h.pending_eq
  pending_last := h.pending_last
  staged_pending := by simp
  staged_eq := by simp
  delivered_eq := h.delivered_eq
  delivered_fresh := h.delivered_fresh
  delivered_sorted := h.delivered_sorted

/-- A pull while another one is pending stages the same frame again. -/
theorem Numbered.afterRestage {s : DeliveryRun} (h : Numbered s) {task : SpiTask}
    (hpull : task.pendingPull = s.task.pendingPull)
    (hstaged : ∀ frame, s.task.pendingPull = some frame →
      task.transport.stagedTx = frame) :
    Numbered { s with task := task, staged := s.pending } where
  pending_eq := hpull.trans h.pending_eq
  pending_last := h.pending_last
  staged_pending := fun _ hi => hi
  staged_eq := by
    intro i hi
    have hlt := h.pending_lt hi
    have hframe : s.task.pendingPull = some s.popped[i] := by
      rw [h.pending_eq]
      simp only at hi
      simp [hi, DeliveryRun.frameOf, hlt]
    simp [hstaged _ hframe, hlt]
  delivered_eq := h.delivered_eq
  delivered_fresh := h.delivered_fresh
  delivered_sorted := h.delivered_sorted

/-- A pull that pops the queue stages the new frame under the next number. -/
theorem Numbered.afterPop {s : DeliveryRun} (h : Numbered s) {task : SpiTask}
    {frame : Frame} (hpull : task.pendingPull = some frame)
    (hstaged : task.transport.stagedTx = frame) :
    Numbered { s with
      task := task
      popped := s.popped ++ [frame]
      pending := some s.popped.length
      staged := some s.popped.length } where
  pending_eq := by simp [hpull, DeliveryRun.frameOf]
  pending_last := by simp
  staged_pending := fun _ hi => hi
  staged_eq := by simp [hstaged]
  delivered_eq := by
    intro entry hentry
    rw [List.getElem?_append_left (h.lt_length hentry)]
    exact h.delivered_eq entry hentry
  delivered_fresh := by
    intro entry hentry heq
    have hlt := h.lt_length hentry
    simp only [Option.some.injEq] at heq
    omega
  delivered_sorted := h.delivered_sorted

theorem Numbered.perform {s : DeliveryRun} (h : Numbered s) (verdict : Verdict) :
    Numbered (s.perform verdict) := by
  have hpull := perform_pendingPull s.task verdict
  cases verdict with
  | respond next => exact h.afterOther (by simpa [PullRun.popped] using hpull)
  | forward item => exact h.afterOther (by simpa [PullRun.popped] using hpull)
  | pull =>
      unfold DeliveryRun.perform
      dsimp only
      split
      next frame hpopped =>
        have hnone : s.task.pendingPull = none := by
          by_contra hsome
          simp [PullRun.popped, hsome] at hpopped
        rw [hnone, hpopped] at hpull
        exact h.afterPop hpull (staged_perform_pull hpull)
      next hpopped =>
        rw [hpopped] at hpull
        have hpull : (s.task.perform .pull).pendingPull = s.task.pendingPull := by
          cases hcase : s.task.pendingPull <;> simpa [hcase] using hpull
        refine h.afterRestage hpull ?_
        intro frame hframe
        exact staged_perform_pull (hpull.trans hframe)

theorem Numbered.afterStep {config : BridgeConfig} {s : DeliveryRun} (h : Numbered s)
    (event : SpiEvent) : Numbered (s.step config event) := by
  cases event with
  | transaction runtime t => exact (h.afterTransfer t).perform _
  | queueResponse magic payload => exact h.withTask rfl rfl
  | takeRequest => exact h.withTask rfl rfl

theorem Numbered.staged_pull {s : DeliveryRun} (h : Numbered s) {i : ℕ}
    (hi : s.staged = some i) :
    s.task.pendingPull = some s.task.transport.stagedTx := by
  rw [h.pending_eq, h.staged_pending i hi, DeliveryRun.frameOf]
  exact h.staged_eq i hi

/-! ## Numbers in order -/

/-- Entries of a list at increasing positions form a sublist. -/
theorem sublist_of_sorted {α : Type*} {items : List α} {entries : List (ℕ × α)}
    (hsorted : (entries.map Prod.fst).Pairwise (· < ·))
    (hentries : ∀ entry ∈ entries, items[entry.1]? = some entry.2) :
    (entries.map Prod.snd).Sublist items := by
  have hlt : ∀ entry ∈ entries, entry.1 < items.length := fun entry hentry =>
    (List.getElem?_eq_some_iff.mp (hentries entry hentry)).1
  let positions : List (Fin items.length) :=
    entries.pmap (fun entry h => ⟨entry.1, h⟩) hlt
  have hpositions : positions.Pairwise (· < ·) := by
    rw [List.pairwise_map] at hsorted
    exact hsorted.pmap hlt fun _ _ _ _ hij => hij
  have hentries_eq : entries.map Prod.snd = positions.map (items[·]) := by
    rw [List.map_pmap, ← List.pmap_eq_map hlt]
    apply List.pmap_congr_left
    intro entry hentry _ hin
    exact (List.getElem?_eq_some_iff.mp (hentries entry hentry)).2.symm
  rw [hentries_eq]
  exact List.map_getElem_sublist hpositions

theorem pulled_frames_delivered_in_order (config : BridgeConfig) (events : List SpiEvent) :
    let s := events.foldl (DeliveryRun.step config) DeliveryRun.start
    ((s.delivered.map Prod.fst).Pairwise (· < ·) ∧
      (∀ entry ∈ s.delivered, s.popped[entry.1]? = some entry.2) ∧
      (s.delivered.map Prod.snd).Sublist s.popped) ∧
      ∀ i, s.staged = some i →
        s.popped[i]? = some s.task.transport.stagedTx ∧
          s.task.pendingPull = some s.task.transport.stagedTx := by
  intro s
  have h : Numbered s :=
    Runs.invariant (fun _ event h => h.afterStep event) numbered_start events
  refine ⟨⟨h.delivered_sorted, h.delivered_eq,
    sublist_of_sorted h.delivered_sorted h.delivered_eq⟩, ?_⟩
  intro i hi
  exact ⟨h.staged_eq i hi, h.staged_pull hi⟩

end Spi
end PicoFi
