import PicoFi.LatchedSignal
import PicoFi.QueueItems

/-!
# Waiting on the mailbox

The asynchronous operations of `OverwriteQueue` run as sequences of lock
sections, signals and polls.  One consumer is in `pop`, one producer in
`push` or `wait_for_space`, and any number of others in `try_push`; each of
their atomic parts is an event, so a run is one interleaving of them.  No
task is left parked once what it waits for is there.
-/

namespace PicoFi
namespace Mailbox

open Latch QueueItem QueueCodec

/-! ## Tasks on one queue -/

/-- `taken` is between the lock section that removed an item and the signal
of `try_pop`. -/
inductive ConsumerPhase
  | away
  | checking
  | taken
  | waiting
  deriving DecidableEq

inductive SpaceRequest (T : Type)
  | waitForSpace (len : ℕ)
  | push (item : T)

def SpaceRequest.len {T : Type} [QueueItem T] : SpaceRequest T → ℕ
  | .waitForSpace len => len
  | .push item => queuedLen item

/-- `inserting` is before the lock section of `try_push`, `inserted` between
it and its signal. -/
inductive ProducerPhase (T : Type)
  | away
  | checking (request : SpaceRequest T)
  | waiting (request : SpaceRequest T)
  | inserting (item : T)
  | inserted

/-- A queue with the tasks that use it; `pushed i` when the producer `i` is
between the lock section of `try_push` and its signal. -/
structure SharedQueue (T ι : Type) (N B : ℕ) where
  state : QueueState N B
  ready : Signal
  space : Signal
  consumer : ConsumerPhase
  producer : ProducerPhase T
  pushed : ι → Bool

inductive QueueEvent (T ι : Type)
  | startPop
  | lockPop
  | signalSpace
  | pollReady
  | cancelPop
  | startRequest (request : SpaceRequest T)
  | lockCheck
  | pollSpace
  | cancelRequest
  | lockPush
  | signalReady
  | lockTryPush (i : ι) (item : T)
  | signalTryPush (i : ι)

namespace SharedQueue

variable {T ι : Type} {N B : ℕ}

def start (T ι : Type) (N B : ℕ) : SharedQueue T ι N B where
  state := QueueState.new N B
  ready := Signal.new
  space := Signal.new
  consumer := .away
  producer := .away
  pushed := fun _ => false

section Step

variable [QueueItem T] [DecidableEq ι] (s : SharedQueue T ι N B)

def lockPop : SharedQueue T ι N B :=
  match s.state.tryPop (T := T) with
  | (state, some _) => { s with state := state, consumer := .taken }
  | (state, none) =>
      { s with state := state, consumer := .waiting, ready := s.ready.wait }

def pollReady : SharedQueue T ι N B :=
  { s with
    ready := s.ready.poll
    consumer := if s.ready.raised then .checking else .waiting }

/-- `push` refuses an item that no queue of this size can take. -/
def startRequest (request : SpaceRequest T) : SharedQueue T ι N B :=
  match request with
  | .waitForSpace _ => { s with producer := .checking request }
  | .push _ =>
      if request.len = 0 ∨ B < request.len ∨ N = 0 then s
      else { s with producer := .checking request }

/-- The lock section of `has_space_for`. -/
def lockCheck (request : SpaceRequest T) : SharedQueue T ι N B :=
  if s.state.Fits request.len then
    match request with
    | .waitForSpace _ => { s with producer := .away }
    | .push item => { s with producer := .inserting item }
  else { s with producer := .waiting request, space := s.space.wait }

def pollSpace (request : SpaceRequest T) : SharedQueue T ι N B :=
  { s with
    space := s.space.poll
    producer := if s.space.raised then .checking request else .waiting request }

def lockPush (item : T) : SharedQueue T ι N B :=
  match s.state.tryPushRef item with
  | (state, true) => { s with state := state, producer := .inserted }
  | (state, false) =>
      { s with state := state, producer := .checking (.push item) }

def lockTryPush (i : ι) (item : T) : SharedQueue T ι N B :=
  match s.state.tryPushRef item with
  | (state, accepted) =>
      { s with state := state, pushed := Function.update s.pushed i accepted }

/-- One atomic part of an operation; `none` when no task is there. -/
def step : QueueEvent T ι → Option (SharedQueue T ι N B)
  | .startPop =>
      if s.consumer = .away then some { s with consumer := .checking } else none
  | .lockPop => if s.consumer = .checking then some s.lockPop else none
  | .signalSpace =>
      if s.consumer = .taken then
        some { s with consumer := .away, space := s.space.signal }
      else none
  | .pollReady => if s.consumer = .waiting then some s.pollReady else none
  | .cancelPop =>
      if s.consumer = .waiting then
        some { s with consumer := .away, ready := s.ready.cancel }
      else none
  | .startRequest request =>
      match s.producer with
      | .away => some (s.startRequest request)
      | _ => none
  | .lockCheck =>
      match s.producer with
      | .checking request => some (s.lockCheck request)
      | _ => none
  | .pollSpace =>
      match s.producer with
      | .waiting request => some (s.pollSpace request)
      | _ => none
  | .cancelRequest =>
      match s.producer with
      | .waiting _ => some { s with producer := .away, space := s.space.cancel }
      | _ => none
  | .lockPush =>
      match s.producer with
      | .inserting item => some (s.lockPush item)
      | _ => none
  | .signalReady =>
      match s.producer with
      | .inserted => some { s with producer := .away, ready := s.ready.signal }
      | _ => none
  | .lockTryPush i item =>
      if s.pushed i = false then some (s.lockTryPush i item) else none
  | .signalTryPush i =>
      if s.pushed i = true then
        some
          { s with
            pushed := Function.update s.pushed i false
            ready := s.ready.signal }
      else none

end Step

/-! ## Nobody sleeps over its condition -/

/-- An item was inserted and its signal is still to come. -/
def ReadyPending (s : SharedQueue T ι N B) : Prop :=
  s.producer = .inserted ∨ ∃ i, s.pushed i = true

def ItemWanted (s : SharedQueue T ι N B) : Prop :=
  s.consumer = .waiting ∧ s.state.lengths ≠ []

def SpaceWanted [QueueItem T] (s : SharedQueue T ι N B) : Prop :=
  ∃ request, s.producer = .waiting request ∧ s.state.Fits request.len

def Quiet (s : SharedQueue T ι N B) : Prop :=
  ¬s.ReadyPending ∧ s.consumer ≠ .taken

/-- The ring holds encoded items; a ring without bytes never holds any. -/
def Stored (T : Type) [QueueCodec T] (q : QueueState N B) : Prop :=
  (B = 0 ∧ q.lengths = []) ∨ ∃ items : List T, q.Represents (items.map wire)

structure Inv [QueueCodec T] (s : SharedQueue T ι N B) : Prop where
  stored : Stored T s.state
  ready : s.ready.Alert s.ItemWanted s.ReadyPending
  space : s.space.Alert s.SpaceWanted (s.consumer = .taken)

theorem stored_new [QueueCodec T] : Stored T (QueueState.new N B) := by
  cases Nat.eq_zero_or_pos B with
  | inl hB => exact .inl ⟨hB, rfl⟩
  | inr hB => exact .inr ⟨[], QueueState.represents_new hB⟩

theorem Stored.tryPushRef [QueueCodec T]
    {q : QueueState N B} (hq : Stored T q) (item : T) :
    Stored T (q.tryPushRef item).1 := by
  cases hq with
  | inl hempty =>
      have hfits : ¬q.Fits (queuedLen item) := by
        intro hfits
        have hroom := hfits.2.2
        have hpos := hfits.1
        omega
      unfold QueueState.tryPushRef
      rw [if_neg hfits]
      exact .inl hempty
  | inr hitems =>
      obtain ⟨items, hrep⟩ := hitems
      exact .inr ⟨_, (hrep.apply (.tryPushRef item)).1⟩

theorem Stored.tryPop [QueueCodec T]
    {q : QueueState N B} (hq : Stored T q) :
    Stored T (q.tryPop (T := T)).1 := by
  cases hq with
  | inl hempty =>
      have hsame : (q.tryPop (T := T)).1 = q := by
        simp [QueueState.tryPop, hempty.2]
      rw [hsame]
      exact .inl hempty
  | inr hitems =>
      obtain ⟨items, hrep⟩ := hitems
      exact .inr ⟨_, hrep.tryPop.1⟩

theorem Stored.tryPop_none [QueueCodec T]
    {q : QueueState N B} (hq : Stored T q) (hnone : (q.tryPop (T := T)).2 = none) :
    q.lengths = [] ∧ (q.tryPop (T := T)).1 = q := by
  have hlengths : q.lengths = [] := by
    cases hq with
    | inl hempty => exact hempty.2
    | inr hitems =>
        obtain ⟨items, hrep⟩ := hitems
        have hpop := hrep.tryPop.2
        rw [hnone] at hpop
        cases items with
        | nil => simpa using hrep.lengths_eq
        | cons item items => simp [Fifo.pop] at hpop
  refine ⟨hlengths, ?_⟩
  simp [QueueState.tryPop, hlengths]

/-- Inserting never makes room. -/
theorem fits_of_tryPushRef [QueueItem T]
    {q : QueueState N B} {item : T} {len : ℕ}
    (hfits : (q.tryPushRef item).1.Fits len) : q.Fits len := by
  unfold QueueState.tryPushRef at hfits
  split at hfits
  next hroom =>
    have hcount := hroom.2.1
    have hbytes := hfits.2.2
    simp only [QueueState.insert] at hbytes
    exact ⟨hfits.1, hcount, by omega⟩
  next => exact hfits

section Invariant

variable [QueueCodec T] {s : SharedQueue T ι N B}

theorem start_inv : (start T ι N B).Inv := by
  constructor
  · exact stored_new
  · apply Signal.alert_of_not
    intro hwanted
    cases hwanted.1
  · apply Signal.alert_of_not
    rintro ⟨request, hwaiting, -⟩
    cases hwaiting

theorem Inv.space_of_not_taken
    (hs : s.Inv) (hconsumer : s.consumer ≠ .taken) {pending : Prop} :
    s.space.Alert s.SpaceWanted pending := by
  apply hs.space.mono
  · exact .inl
  · intro htaken
    exact absurd htaken hconsumer

theorem Inv.lockPop
    (hs : s.Inv) (hconsumer : s.consumer = .checking) : s.lockPop.Inv := by
  cases hpop : (s.state.tryPop (T := T)).2 with
  | none =>
      obtain ⟨hempty, hsame⟩ := hs.stored.tryPop_none hpop
      have hnext : s.lockPop =
          { s with consumer := .waiting, ready := s.ready.wait } := by
        unfold SharedQueue.lockPop
        rw [← Prod.mk.eta (p := s.state.tryPop (T := T)), hpop, hsame]
      rw [hnext]
      constructor
      · exact hs.stored
      · apply Signal.alert_of_not
        intro hwanted
        exact hwanted.2 hempty
      · apply hs.space_of_not_taken
        simp [hconsumer]
  | some item =>
      have hnext : s.lockPop =
          { s with
            state := (s.state.tryPop (T := T)).1
            consumer := .taken } := by
        unfold SharedQueue.lockPop
        rw [← Prod.mk.eta (p := s.state.tryPop (T := T)), hpop]
      rw [hnext]
      constructor
      · exact hs.stored.tryPop
      · apply Signal.alert_of_not
        intro hwanted
        cases hwanted.1
      · exact Signal.alert_of_pending rfl

theorem Inv.pollReady
    (hs : s.Inv) (hconsumer : s.consumer = .waiting) : s.pollReady.Inv := by
  constructor
  · exact hs.stored
  · cases hraised : s.ready.raised with
    | true =>
        apply Signal.alert_of_not
        intro hwanted
        simp [SharedQueue.pollReady, ItemWanted, hraised] at hwanted
    | false =>
        apply (hs.ready.poll hraised).mono
        · intro hwanted
          exact .inl ⟨hconsumer, hwanted.2⟩
        · exact id
  · apply hs.space_of_not_taken
    simp [hconsumer]

theorem Inv.consumerLeaves
    (hs : s.Inv) {consumer : ConsumerPhase} {ready space : Signal}
    (hconsumer : consumer ≠ .waiting)
    (hspace : space.Alert s.SpaceWanted (consumer = .taken)) :
    Inv { s with consumer := consumer, ready := ready, space := space } := by
  constructor
  · exact hs.stored
  · apply Signal.alert_of_not
    intro hwanted
    exact hconsumer hwanted.1
  · exact hspace

theorem Inv.producerMoves
    (hs : s.Inv) {producer : ProducerPhase T} {space : Signal}
    (hbefore : s.producer ≠ .inserted)
    (hspace : space.Alert (SpaceWanted { s with producer := producer })
      (s.consumer = .taken)) :
    Inv { s with producer := producer, space := space } := by
  constructor
  · exact hs.stored
  · apply hs.ready.mono
    · exact .inl
    · intro hpending
      cases hpending with
      | inl hinserted => exact absurd hinserted hbefore
      | inr hpushed => exact .inr hpushed
  · exact hspace

theorem not_spaceWanted
    (hproducer : ∀ request, s.producer ≠ .waiting request) : ¬s.SpaceWanted := by
  rintro ⟨request, hwaiting, -⟩
  exact hproducer request hwaiting

theorem Inv.producerLeaves
    (hs : s.Inv) {producer : ProducerPhase T} {space : Signal}
    (hbefore : s.producer ≠ .inserted)
    (hproducer : ∀ request, producer ≠ .waiting request) :
    Inv { s with producer := producer, space := space } := by
  apply hs.producerMoves hbefore
  apply Signal.alert_of_not
  exact not_spaceWanted hproducer

theorem Inv.startRequest
    (hs : s.Inv) (hproducer : s.producer = .away) (request : SpaceRequest T) :
    (s.startRequest request).Inv := by
  have hchecking : Inv { s with producer := .checking request } := by
    apply hs.producerLeaves
    · simp [hproducer]
    · simp
  unfold SharedQueue.startRequest
  cases request with
  | waitForSpace len => exact hchecking
  | push item =>
      simp only
      split
      · exact hs
      · exact hchecking

theorem Inv.lockCheck
    (hs : s.Inv) {request : SpaceRequest T}
    (hproducer : s.producer = .checking request) :
    (s.lockCheck request).Inv := by
  unfold SharedQueue.lockCheck
  split
  · cases request with
    | waitForSpace len =>
        apply hs.producerLeaves
        · simp [hproducer]
        · simp
    | push item =>
        apply hs.producerLeaves
        · simp [hproducer]
        · simp
  · next hfits =>
      apply hs.producerMoves
      · simp [hproducer]
      · apply Signal.alert_of_not
        rintro ⟨other, hwaiting, hroom⟩
        cases hwaiting
        exact hfits hroom

theorem Inv.pollSpace
    (hs : s.Inv) {request : SpaceRequest T}
    (hproducer : s.producer = .waiting request) :
    (s.pollSpace request).Inv := by
  apply hs.producerMoves
  · simp [hproducer]
  · cases hraised : s.space.raised with
    | true =>
        apply Signal.alert_of_not
        apply not_spaceWanted
        simp
    | false =>
        apply (hs.space.poll hraised).mono
        · rintro ⟨other, hwaiting, hroom⟩
          cases hwaiting
          exact .inl ⟨request, hproducer, hroom⟩
        · exact id

theorem Inv.lockPush
    (hs : s.Inv) {item : T} (hproducer : s.producer = .inserting item) :
    (s.lockPush item).Inv := by
  cases haccepted : (s.state.tryPushRef item).2 with
  | true =>
      have hnext : s.lockPush item =
          { s with
            state := (s.state.tryPushRef item).1
            producer := .inserted } := by
        unfold SharedQueue.lockPush
        rw [← Prod.mk.eta (p := s.state.tryPushRef item), haccepted]
      rw [hnext]
      constructor
      · exact hs.stored.tryPushRef item
      · exact Signal.alert_of_pending (.inl rfl)
      · apply Signal.alert_of_not
        apply not_spaceWanted
        simp
  | false =>
      have hnext : s.lockPush item =
          { s with producer := .checking (.push item) } := by
        unfold SharedQueue.lockPush
        rw [← Prod.mk.eta (p := s.state.tryPushRef item), haccepted,
          QueueState.tryPushRef_refused haccepted]
      rw [hnext]
      apply hs.producerLeaves
      · simp [hproducer]
      · simp

theorem Inv.lockTryPush [DecidableEq ι]
    (hs : s.Inv) {i : ι} (item : T) (hidle : s.pushed i = false) :
    (s.lockTryPush i item).Inv := by
  cases haccepted : (s.state.tryPushRef item).2 with
  | true =>
      have hnext : s.lockTryPush i item =
          { s with
            state := (s.state.tryPushRef item).1
            pushed := Function.update s.pushed i true } := by
        unfold SharedQueue.lockTryPush
        rw [← Prod.mk.eta (p := s.state.tryPushRef item), haccepted]
      rw [hnext]
      constructor
      · exact hs.stored.tryPushRef item
      · exact Signal.alert_of_pending (.inr ⟨i, by simp⟩)
      · apply hs.space.mono
        · rintro ⟨request, hwaiting, hroom⟩
          exact .inl ⟨request, hwaiting, fits_of_tryPushRef hroom⟩
        · exact id
  | false =>
      have hpushed : Function.update s.pushed i false = s.pushed := by
        rw [← hidle, Function.update_eq_self]
      have hnext : s.lockTryPush i item = s := by
        unfold SharedQueue.lockTryPush
        rw [← Prod.mk.eta (p := s.state.tryPushRef item), haccepted,
          QueueState.tryPushRef_refused haccepted]
        simp only [hpushed]
      rw [hnext]
      exact hs

/-- A signal for the consumer settles its alert, whoever sent it. -/
theorem Inv.readySignalled
    (hs : s.Inv) {producer : ProducerPhase T} {pushed : ι → Bool}
    (hspace : SpaceWanted { s with producer := producer } → s.SpaceWanted) :
    Inv
      { s with
        producer := producer
        pushed := pushed
        ready := s.ready.signal } := by
  constructor
  · exact hs.stored
  · exact Signal.signal_alert
  · apply hs.space.mono
    · intro hwanted
      exact .inl (hspace hwanted)
    · exact id

theorem step_inv [DecidableEq ι]
    (s : SharedQueue T ι N B) (e : QueueEvent T ι) (t : SharedQueue T ι N B)
    (hs : s.Inv) (hstep : s.step e = some t) : t.Inv := by
  cases e with
  | startPop =>
      obtain ⟨hconsumer, ht⟩ := Option.ite_none_right_eq_some.mp hstep
      cases ht
      apply hs.consumerLeaves
      · simp
      · apply hs.space_of_not_taken
        simp [hconsumer]
  | lockPop =>
      obtain ⟨hconsumer, ht⟩ := Option.ite_none_right_eq_some.mp hstep
      cases ht
      exact hs.lockPop hconsumer
  | signalSpace =>
      obtain ⟨hconsumer, ht⟩ := Option.ite_none_right_eq_some.mp hstep
      cases ht
      apply hs.consumerLeaves
      · simp
      · exact Signal.signal_alert
  | pollReady =>
      obtain ⟨hconsumer, ht⟩ := Option.ite_none_right_eq_some.mp hstep
      cases ht
      exact hs.pollReady hconsumer
  | cancelPop =>
      obtain ⟨hconsumer, ht⟩ := Option.ite_none_right_eq_some.mp hstep
      cases ht
      apply hs.consumerLeaves
      · simp
      · apply hs.space_of_not_taken
        simp [hconsumer]
  | startRequest request =>
      cases hproducer : s.producer <;> simp only [step, hproducer] at hstep <;>
        cases hstep
      exact hs.startRequest hproducer request
  | lockCheck =>
      cases hproducer : s.producer <;> simp only [step, hproducer] at hstep <;>
        cases hstep
      exact hs.lockCheck hproducer
  | pollSpace =>
      cases hproducer : s.producer <;> simp only [step, hproducer] at hstep <;>
        cases hstep
      exact hs.pollSpace hproducer
  | cancelRequest =>
      cases hproducer : s.producer <;> simp only [step, hproducer] at hstep <;>
        cases hstep
      apply hs.producerLeaves
      · simp [hproducer]
      · simp
  | lockPush =>
      cases hproducer : s.producer <;> simp only [step, hproducer] at hstep <;>
        cases hstep
      exact hs.lockPush hproducer
  | signalReady =>
      cases hproducer : s.producer <;> simp only [step, hproducer] at hstep <;>
        cases hstep
      apply hs.readySignalled
      rintro ⟨request, hwaiting, -⟩
      cases hwaiting
  | lockTryPush i item =>
      obtain ⟨hidle, ht⟩ := Option.ite_none_right_eq_some.mp hstep
      cases ht
      exact hs.lockTryPush item hidle
  | signalTryPush i =>
      obtain ⟨-, ht⟩ := Option.ite_none_right_eq_some.mp hstep
      cases ht
      apply hs.readySignalled
      exact id

end Invariant

def ConsumerParked (s : SharedQueue T ι N B) : Prop :=
  s.consumer = .waiting ∧ s.ready.waiter = .parked

def ProducerParked [QueueItem T] (s : SharedQueue T ι N B) (len : ℕ) : Prop :=
  ∃ request, s.producer = .waiting request ∧ request.len = len ∧
    s.space.waiter = .parked

/-- However the operations interleave, no task sleeps over what it waits
for once every signal was sent. -/
theorem no_lost_wakeup [QueueCodec T] [DecidableEq ι]
    {s : SharedQueue T ι N B} {events : List (QueueEvent T ι)}
    (hreach : Runs.Reaches step (start T ι N B) events s) (hquiet : s.Quiet) :
    ¬(s.ConsumerParked ∧ s.state.lengths ≠ []) ∧
      ∀ len, ¬(s.ProducerParked len ∧ s.state.Fits len) := by
  have hinv : s.Inv := hreach.invariant step_inv start_inv
  constructor
  · rintro ⟨⟨hwaiting, hparked⟩, hnonempty⟩
    apply hinv.ready.not_of_parked hparked hquiet.1
    exact ⟨hwaiting, hnonempty⟩
  · rintro len ⟨⟨request, hwaiting, rfl, hparked⟩, hfits⟩
    apply hinv.space.not_of_parked hparked hquiet.2
    exact ⟨request, hwaiting, hfits⟩

/-- The consumer was cancelled and came back, another producer took the room
the first one had seen, and both ends are parked afterwards. -/
theorem no_lost_wakeup_stolen_space :
    ∃ s : SharedQueue I2cPacket Bool 2 4,
      s.ConsumerParked ∧ s.ProducerParked 5 ∧
        ¬(s.ConsumerParked ∧ s.state.lengths ≠ []) ∧
        ∀ len, ¬(s.ProducerParked len ∧ s.state.Fits len) := by
  let item : I2cPacket := ⟨1, ⟨[7, 8], by decide⟩⟩
  let events : List (QueueEvent I2cPacket Bool) :=
    [.startPop, .lockPop, .pollReady, .startRequest (.push item), .lockCheck,
      .cancelPop, .lockTryPush true item, .lockPush, .lockCheck, .pollSpace,
      .signalTryPush true, .startPop, .lockPop, .signalSpace, .pollSpace,
      .lockCheck, .lockPush, .signalReady, .startPop, .lockPop, .signalSpace,
      .startPop, .lockPop, .pollReady, .lockPop, .pollReady,
      .startRequest (.waitForSpace 5), .lockCheck, .pollSpace, .lockCheck,
      .pollSpace]
  let settled : SharedQueue I2cPacket Bool 2 4 → Bool := fun s =>
    s.consumer == .waiting && s.ready.waiter == .parked &&
      s.space.waiter == .parked && !s.pushed true && !s.pushed false &&
      match s.producer with
      | .waiting (.waitForSpace len) => len == 5
      | _ => false
  have hrun : (events.foldlM step (start I2cPacket Bool 2 4)).any settled := by
    decide +kernel
  obtain ⟨s, hreach, hsettled⟩ := (Option.any_eq_true _ _).mp hrun
  obtain ⟨⟨⟨⟨⟨hwaiting, hready⟩, hspace⟩, htrue⟩, hfalse⟩, hlen⟩ :
      ((((s.consumer = .waiting ∧ s.ready.waiter = .parked) ∧
        s.space.waiter = .parked) ∧ s.pushed true = false) ∧
          s.pushed false = false) ∧
        (match s.producer with
          | .waiting (.waitForSpace len) => len == 5
          | _ => false) = true := by
    simpa [settled] using hsettled
  have hquiet : s.Quiet := by
    constructor
    · rintro (hinserted | ⟨i, hpushed⟩)
      · simp [hinserted] at hlen
      · cases i
        · simp [hfalse] at hpushed
        · simp [htrue] at hpushed
    · simp [hwaiting]
  have hparked : s.ProducerParked 5 := by
    split at hlen
    next len hproducer =>
      have hfive : len = 5 := by simpa using hlen
      exact ⟨_, hproducer, hfive, hspace⟩
    next => cases hlen
  exact ⟨s, ⟨hwaiting, hready⟩, hparked, no_lost_wakeup hreach hquiet⟩

end SharedQueue
end Mailbox
end PicoFi
