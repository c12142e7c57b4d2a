import PicoFi.BridgeReading
import PicoFi.LocalCommands
import PicoFi.OverwriteQueue

/-!
# The network session of a bridge

The sessions of the I2C and the SPI bridge are one loop over different items.
It checks that the response queue has room for the largest frame, waits for
a request of the bus or a frame of the network, whichever comes first, and
carries that out.  A step is what the session does between two awaits, or
what the bus task does to a queue, so a run is any interleaving of the two
with any partial reads and writes.
-/

namespace PicoFi
namespace Bridge

open Buffer Mailbox BridgeFrame PicoFi.Stream

/-- The one thing a handled request does. -/
inductive RequestEffect (T : Type)
  | none
  /-- A payload for `write_bridge_frame`. -/
  | writeBridgeFrame (payload : List UInt8)
  /-- A response for the response queue. -/
  | respond (item : T)
  deriving DecidableEq

inductive EndReason
  | read
  | write
  /-- An item could not be made. -/
  | packet
  /-- The response queue refused an item. -/
  | queue
  /-- An index out of range. -/
  | panicked
  deriving DecidableEq

inductive SessionState (T : Type)
  | head
  /-- Waiting for a request or for space. -/
  | waitForSpace
  /-- Waiting for a request or for a frame; the read is not polled yet, or is
  suspended. -/
  | select (read : Option ReadRequest)
  /-- A frame of this length was read. -/
  | deliver (len : ℕ)
  /-- Inside `write_bridge_frame`, with the buffers not written yet. -/
  | write (buffers : List (List UInt8))
  /-- Inside `push`, waiting for space. -/
  | waitPush (item : T)
  /-- Inside `push`, after there was space. -/
  | push (item : T)
  | ended (reason : EndReason)

inductive SessionEvent (T : Type)
  /-- `has_space_for` at the head of the loop. -/
  | checkSpace
  | space
  /-- A request is popped; a suspended read is dropped. -/
  | request (runtime : CommandRuntime)
  | call
  /-- The socket delivers these bytes. -/
  | read (bytes : List UInt8)
  | readFault
  /-- The frame that was read is pushed. -/
  | deliver
  /-- The socket accepts the next `n` bytes. -/
  | write (n : ℕ)
  | writeFault
  | pushSpace
  | tryPush
  /-- The bus task queues a request. -/
  | busRequest (item : T)
  /-- The bus task takes a response. -/
  | busPop

/-- `write_bridge_frame` goes on with the next nonempty buffer, and the loop
from its head. -/
def afterWrite {T : Type} (buffers : List (List UInt8)) : SessionState T :=
  match buffers.dropWhile List.isEmpty with
  | [] => .head
  | rest => .write rest

section Sessions

variable {T : Type}

/-- The payload that was read and is not pushed yet. -/
def SessionState.waiting (bufs : ReadBuffers) :
    SessionState T → List (List UInt8)
  | .deliver len => [bufs.payload.take len]
  | _ => []

/-- The session is not at the network. -/
def SessionState.Between : SessionState T → Prop
  | .select _ => False
  | .deliver _ => False
  | .ended _ => False
  | _ => True

theorem SessionState.Between.waiting_eq
    {state : SessionState T} (hstate : state.Between) (bufs : ReadBuffers) :
    state.waiting bufs = [] := by
  cases state <;> first | rfl | cases hstate

theorem between_afterWrite (buffers : List (List UInt8)) :
    (afterWrite buffers : SessionState T).Between := by
  unfold afterWrite
  split <;> trivial

variable [QueueCodec T] {N B : ℕ}

/-- `push` does not refuse the item at once. -/
def Pushable (T : Type) [QueueCodec T] (N B : ℕ) (item : T) : Prop :=
  ¬(QueueItem.queuedLen item = 0 ∨ B < QueueItem.queuedLen item ∨ N = 0)

instance (item : T) : Decidable (Pushable T N B item) :=
  inferInstanceAs (Decidable (¬(_ ∨ _ ∨ _)))

/-- The effect fails for no reason but the socket. -/
def RequestEffect.Fits (N B : ℕ) : RequestEffect T → Prop
  | .none => True
  | .writeBridgeFrame payload => payload.length ≤ 65535
  | .respond item => Pushable T N B item

/-- What the two sessions differ in, with the sizes that belong together. -/
structure SessionKind (T : Type) [QueueCodec T] (N B : ℕ) where
  netBuf : ℕ
  /-- The space checked before the network is read. -/
  reserve : ℕ
  /-- The item made of a frame, if that succeeds. -/
  networkItem : List UInt8 → Option T
  /-- The bytes of that item in the queue. -/
  networkWire : List UInt8 → List UInt8
  /-- What a request asks for; `none` is a failure of its handler. -/
  handleRequest : CommandRuntime → T → Option (RequestEffect T)
  networkItem_fits : ∀ payload, payload.length ≤ netBuf →
    ∃ item, networkItem payload = some item ∧
      QueueCodec.wire item = networkWire payload ∧
      0 < (networkWire payload).length ∧
      (networkWire payload).length ≤ reserve
  handleRequest_fits : ∀ runtime request,
    ∃ effect, handleRequest runtime request = some effect ∧ effect.Fits N B

structure BridgeSession (T : Type) [QueueCodec T] (N B : ℕ) where
  requests : OverwriteQueue T N B
  responses : OverwriteQueue T N B
  state : SessionState T
  bufs : ReadBuffers

namespace SessionKind

variable (kind : SessionKind T N B)

def start (requests responses : OverwriteQueue T N B) : BridgeSession T N B where
  requests := requests
  responses := responses
  state := .head
  bufs := ⟨bridgeFrameReader, List.replicate kind.netBuf 0⟩

def afterRequest (N B : ℕ) : Option (RequestEffect T) → SessionState T
  | none => .ended .packet
  | some .none => .head
  | some (.writeBridgeFrame payload) =>
      match writeBridgeFrame payload with
      | none => .ended .write
      | some buffers => afterWrite buffers
  | some (.respond item) =>
      if Pushable T N B item then .waitPush item else .ended .queue

def afterPoll : CallStatus → SessionState T
  | .awaiting request => .select (some request)
  | .returned (.ok _ len) => .deliver len
  | .returned .err => .ended .read
  | .panicked => .ended .panicked

def takeRequest (s : BridgeSession T N B) (runtime : CommandRuntime) :
    Option (BridgeSession T N B) :=
  match s.requests.tryPop with
  | (requests, some request) =>
      some { s with
        requests := requests
        state := afterRequest N B (kind.handleRequest runtime request) }
  | (_, none) => none

/-- The item for the frame in `net_buf`, or why there is none. -/
def deliverItem (s : BridgeSession T N B) (len : ℕ) : Except EndReason T :=
  match slice? s.bufs.payload 0 len with
  | none => .error .panicked
  | some payload =>
      match kind.networkItem payload with
      | none => .error .packet
      | some item => .ok item

def deliver (s : BridgeSession T N B) (len : ℕ) : BridgeSession T N B :=
  match kind.deliverItem s len with
  | .error reason => { s with state := .ended reason }
  | .ok item =>
      match s.responses.tryPushRef item with
      | (responses, true) => { s with responses := responses, state := .head }
      | (responses, false) =>
          { s with responses := responses, state := .ended .queue }

def step (s : BridgeSession T N B) : SessionEvent T → Option (BridgeSession T N B)
  | .checkSpace =>
      match s.state with
      | .head =>
          if s.responses.HasSpaceFor kind.reserve then
            some { s with state := .select none }
          else some { s with state := .waitForSpace }
      | _ => none
  | .space =>
      match s.state with
      | .waitForSpace =>
          if s.responses.HasSpaceFor kind.reserve then
            some { s with state := .head }
          else none
      | _ => none
  | .request runtime =>
      match s.state with
      | .waitForSpace => kind.takeRequest s runtime
      | .select _ => kind.takeRequest s runtime
      | _ => none
  | .call =>
      match s.state with
      | .select none =>
          some { s with
            bufs := s.bufs.enter.1
            state := afterPoll s.bufs.enter.2 }
      | _ => none
  | .read bytes =>
      match s.state with
      | .select (some request) =>
          if bytes ≠ [] ∧ bytes.length ≤ s.bufs.requestSize request then
            some { s with
              bufs := (s.bufs.resume request (some bytes)).1
              state := afterPoll (s.bufs.resume request (some bytes)).2 }
          else none
      | _ => none
  | .readFault =>
      match s.state with
      | .select (some request) =>
          some { s with
            bufs := (s.bufs.resume request none).1
            state := afterPoll (s.bufs.resume request none).2 }
      | _ => none
  | .deliver =>
      match s.state with
      | .deliver len => some (kind.deliver s len)
      | _ => none
  | .write n =>
      match s.state with
      | .write (buffer :: rest) =>
          if 0 < n ∧ n ≤ buffer.length then
            some { s with state := afterWrite (buffer.drop n :: rest) }
          else none
      | _ => none
  | .writeFault =>
      match s.state with
      | .write _ => some { s with state := .ended .write }
      | _ => none
  | .pushSpace =>
      match s.state with
      | .waitPush item =>
          if s.responses.HasSpaceFor (QueueItem.queuedLen item) then
            some { s with state := .push item }
          else none
      | _ => none
  | .tryPush =>
      match s.state with
      | .push item =>
          match s.responses.tryPushRef item with
          | (responses, true) =>
              some { s with responses := responses, state := .head }
          | (responses, false) =>
              some { s with responses := responses, state := .waitPush item }
      | _ => none
  | .busRequest item =>
      some { s with requests := (s.requests.pushOverwrite item).1 }
  | .busPop => some { s with responses := s.responses.tryPop.1 }

end SessionKind

/-! ## Runs with a record of bytes and items -/

structure SessionRun (T : Type) [QueueCodec T] (N B : ℕ) where
  session : BridgeSession T N B
  /-- Bytes the socket delivered. -/
  consumed : List UInt8
  /-- Items accepted by the response queue, and those popped from it. -/
  queued : List (Producer × T)
  fetched : List T

namespace SessionRun

variable (kind : SessionKind T N B)

def start (requests responses : OverwriteQueue T N B) : SessionRun T N B :=
  ⟨kind.start requests responses, [], [], []⟩

def consumedBy : SessionEvent T → List UInt8
  | .read bytes => bytes
  | _ => []

def queuedBy (s : BridgeSession T N B) : SessionEvent T → List (Producer × T)
  | .deliver =>
      match s.state with
      | .deliver len =>
          match kind.deliverItem s len with
          | .ok item =>
              if (s.responses.tryPushRef item).2 then [(.stream, item)] else []
          | .error _ => []
      | _ => []
  | .tryPush =>
      match s.state with
      | .push item =>
          if (s.responses.tryPushRef item).2 then [(.other, item)] else []
      | _ => []
  | _ => []

def fetchedBy (s : BridgeSession T N B) : SessionEvent T → List T
  | .busPop => s.responses.tryPop.2.toList
  | _ => []

def step (r : SessionRun T N B) (event : SessionEvent T) :
    Option (SessionRun T N B) :=
  (kind.step r.session event).map fun session =>
    { session := session
      consumed := r.consumed ++ consumedBy event
      queued := r.queued ++ queuedBy kind r.session event
      fetched := r.fetched ++ fetchedBy r.session event }

def pushed (r : SessionRun T N B) : List T :=
  (r.queued.filter fun entry => entry.1 == .stream).map Prod.snd

end SessionRun

/-! ## What the session relies on -/

/-- From the check of the space to the push of a frame the space stays. -/
inductive Situated (kind : SessionKind T N B) (responses : OverwriteQueue T N B)
    (bufs : ReadBuffers) (consumed : List UInt8) : SessionState T → Prop
  | between {state : SessionState T} {p : Partial} (hstate : state.Between)
      (hread : HasRead kind.netBuf consumed bufs p) :
      Situated kind responses bufs consumed state
  | select {p : Partial} {read : Option ReadRequest}
      (hspace : responses.HasSpaceFor kind.reserve)
      (hread : HasRead kind.netBuf consumed bufs p)
      (hcall : ∀ request, read = some request → request = p.request) :
      Situated kind responses bufs consumed (.select read)
  | deliver {len : ℕ} (hspace : responses.HasSpaceFor kind.reserve)
      (hlen : len ≤ kind.netBuf)
      (hread : HasRead kind.netBuf consumed bufs Partial.empty) :
      Situated kind responses bufs consumed (.deliver len)
  | ended {reason : EndReason} (hreason : reason = .read ∨ reason = .write) :
      Situated kind responses bufs consumed (.ended reason)

section Situations

variable {kind : SessionKind T N B} {responses : OverwriteQueue T N B}
variable {bufs : ReadBuffers} {consumed : List UInt8} {state : SessionState T}

theorem between_afterRequest (kind : SessionKind T N B)
    (runtime : CommandRuntime) (request : T) :
    (SessionKind.afterRequest N B (kind.handleRequest runtime request)).Between := by
  obtain ⟨effect, heffect, hfits⟩ := kind.handleRequest_fits runtime request
  rw [heffect]
  cases effect with
  | none => trivial
  | writeBridgeFrame payload =>
      have hlen : ¬65535 < payload.length := Nat.not_lt_of_le hfits
      simp only [SessionKind.afterRequest, writeBridgeFrame, if_neg hlen]
      split
      · next hnone => split at hnone <;> cases hnone
      · exact between_afterWrite _
  | respond item =>
      simp only [SessionKind.afterRequest, if_pos (show Pushable T N B item from hfits)]
      trivial

theorem Situated.hasRead_between (hsituated : Situated kind responses bufs consumed state)
    (hstate : state.Between) : ∃ p, HasRead kind.netBuf consumed bufs p := by
  cases hsituated with
  | between hbetween hread => exact ⟨_, hread⟩
  | select => cases hstate
  | deliver => cases hstate
  | ended => cases hstate

theorem Situated.afterPop (hsituated : Situated kind responses bufs consumed state) :
    Situated kind responses.tryPop.1 bufs consumed state := by
  cases hsituated with
  | between hbetween hread => exact .between hbetween hread
  | select hspace hread hcall => exact .select hspace.afterPop hread hcall
  | deliver hspace hlen hread => exact .deliver hspace.afterPop hlen hread
  | ended hreason => exact .ended hreason

/-- Wherever a poll of the reader takes the session, the frame it completed
is what waits there. -/
theorem situated_afterPoll {before : List (List UInt8)}
    {next : ReadBuffers × CallStatus} (hspace : responses.HasSpaceFor kind.reserve)
    (hpolled : Polled kind.netBuf consumed before next) :
    Situated kind responses next.1 consumed (SessionKind.afterPoll next.2) ∧
      completeFrames kind.netBuf consumed = before ++
        (SessionKind.afterPoll next.2 : SessionState T).waiting next.1 := by
  cases hpolled with
  | parked hread hframes =>
      refine ⟨.select hspace hread fun request h => ?_, ?_⟩
      · cases h
        rfl
      · simpa [SessionKind.afterPoll, SessionState.waiting] using hframes
  | frame kind hlen hread hframes =>
      exact ⟨.deliver hspace hlen hread, hframes⟩
  | failed hframes =>
      refine ⟨.ended (.inl rfl), ?_⟩
      simpa [SessionKind.afterPoll, SessionState.waiting] using hframes

/-- The frame that was read becomes an item, and the queue takes it. -/
theorem Situated.deliver_eq {s : BridgeSession T N B} {len : ℕ}
    (hsituated : Situated kind s.responses s.bufs consumed (.deliver len)) :
    ∃ item, kind.deliverItem s len = .ok item ∧
      QueueCodec.wire item = kind.networkWire (s.bufs.payload.take len) ∧
      (s.responses.tryPushRef item).2 = true ∧
      ∃ p, HasRead kind.netBuf consumed s.bufs p := by
  cases hsituated with
  | between hbetween => cases hbetween
  | deliver hspace hlen hread =>
      have hbuffer : len ≤ s.bufs.payload.length := by
        rw [hread.tracks.payload_length]
        exact hlen
      have hslice : slice? s.bufs.payload 0 len =
          some (s.bufs.payload.take len) := by
        rw [slice?_eq_some (Nat.zero_le len) hbuffer]
        rfl
      have hshort : (s.bufs.payload.take len).length ≤ kind.netBuf := by
        rw [List.length_take]
        exact (Nat.min_le_left _ _).trans hlen
      obtain ⟨item, hitem, hwire, hpos, hle⟩ := kind.networkItem_fits _ hshort
      refine ⟨item, ?_, hwire, ?_, _, hread⟩
      · simp only [SessionKind.deliverItem, hslice, hitem]
      · rw [OverwriteQueue.tryPushRef_accepted, hwire]
        exact hspace.of_le hpos hle

end Situations

/-! ## What a step does -/

def streamBy (kind : SessionKind T N B) (s : BridgeSession T N B)
    (event : SessionEvent T) : List T :=
  ((SessionRun.queuedBy kind s event).filter fun entry =>
    entry.1 == .stream).map Prod.snd

/-- The items pushed for the network are those of the complete frames read,
but for one that waits to be pushed. -/
structure Delivering (kind : SessionKind T N B) (s : BridgeSession T N B)
    (consumed : List UInt8) (pushed : List T) : Prop where
  situated : Situated kind s.responses s.bufs consumed s.state
  frames_eq : ∃ done, pushed.map QueueCodec.wire = done.map kind.networkWire ∧
    completeFrames kind.netBuf consumed = done ++ s.state.waiting s.bufs

def QueueStep (kind : SessionKind T N B) (s : BridgeSession T N B)
    (event : SessionEvent T) (t : BridgeSession T N B) : Prop :=
  (SessionRun.fetchedBy s event).map QueueCodec.wire ++ t.responses.contents =
    s.responses.contents ++ (SessionRun.queuedBy kind s event).map
      fun entry => QueueCodec.wire entry.2

section Steps

variable {kind : SessionKind T N B} {s t : BridgeSession T N B}
variable {consumed : List UInt8} {pushed : List T}

theorem Delivering.toBetween
    (hs : Delivering kind s consumed pushed)
    (hwaiting : s.state.waiting s.bufs = [])
    (hread : ∃ p, HasRead kind.netBuf consumed s.bufs p)
    (requests responses : OverwriteQueue T N B)
    (state : SessionState T) (hstate : state.Between) :
    Delivering kind ⟨requests, responses, state, s.bufs⟩ consumed pushed := by
  obtain ⟨p, hread⟩ := hread
  obtain ⟨done, hpushed, hframes⟩ := hs.frames_eq
  refine ⟨.between hstate hread, done, hpushed, ?_⟩
  rw [hframes, hwaiting, hstate.waiting_eq]

theorem Situated.hasRead_select
    {responses : OverwriteQueue T N B} {bufs : ReadBuffers}
    {read : Option ReadRequest}
    (hsituated : Situated kind responses bufs consumed (.select read)) :
    responses.HasSpaceFor kind.reserve ∧
      ∃ p, HasRead kind.netBuf consumed bufs p ∧
        ∀ request, read = some request → request = p.request := by
  cases hsituated with
  | between hbetween => cases hbetween
  | select hspace hread hcall => exact ⟨hspace, _, hread, hcall⟩

theorem Delivering.afterRequest
    (hs : Delivering kind s consumed pushed)
    (hwaiting : s.state.waiting s.bufs = [])
    (hread : ∃ p, HasRead kind.netBuf consumed s.bufs p)
    {runtime : CommandRuntime} (hstep : kind.takeRequest s runtime = some t) :
    Delivering kind t consumed pushed ∧ t.responses = s.responses := by
  unfold SessionKind.takeRequest at hstep
  split at hstep
  · cases hstep
    exact ⟨hs.toBetween hwaiting hread _ _ _ (between_afterRequest kind runtime _),
      rfl⟩
  · cases hstep

theorem Delivering.afterPoll
    (hs : Delivering kind s consumed pushed)
    (hspace : s.responses.HasSpaceFor kind.reserve)
    (hwaiting : s.state.waiting s.bufs = []) {bytes : List UInt8}
    {next : ReadBuffers × CallStatus}
    (hpolled : Polled kind.netBuf bytes (completeFrames kind.netBuf consumed)
      next) :
    Delivering kind
      { s with bufs := next.1, state := SessionKind.afterPoll next.2 }
      bytes pushed := by
  obtain ⟨done, hpushed, hframes⟩ := hs.frames_eq
  obtain ⟨hsituated, hnext⟩ := situated_afterPoll hspace hpolled
  refine ⟨hsituated, done, hpushed, ?_⟩
  rw [hnext, hframes, hwaiting, List.append_nil]

/-- The push after the check never fails, so the frame is in the queue and
the session goes on. -/
theorem Delivering.afterDeliver {len : ℕ}
    (hs : Delivering kind s consumed pushed) (hstate : s.state = .deliver len) :
    ∃ item, QueueCodec.wire item = kind.networkWire (s.bufs.payload.take len) ∧
      kind.deliver s len =
        { s with
          responses := (s.responses.tryPushRef item).1
          state := .head } ∧
      SessionRun.queuedBy kind s .deliver = [(.stream, item)] ∧
      (s.responses.tryPushRef item).1.contents =
        s.responses.contents ++ [QueueCodec.wire item] ∧
      Delivering kind (kind.deliver s len) consumed (pushed ++ [item]) := by
  obtain ⟨done, hpushed, hframes⟩ := hs.frames_eq
  have hsituated := hs.situated
  rw [hstate] at hsituated hframes
  obtain ⟨item, hmade, hwire, haccepted, p, hread⟩ := hsituated.deliver_eq
  have hcontents := OverwriteQueue.contents_of_accepted haccepted
  have hdeliver : kind.deliver s len =
      { s with
        responses := (s.responses.tryPushRef item).1
        state := .head } := by
    simp only [SessionKind.deliver, hmade]
    split
    · next responses hpush => rw [hpush]
    · next responses hpush =>
      rw [hpush] at haccepted
      cases haccepted
  refine ⟨item, hwire, hdeliver, ?_, hcontents, ?_⟩
  · simp only [SessionRun.queuedBy, hstate, hmade, if_pos haccepted]
  · rw [hdeliver]
    refine ⟨.between trivial hread, done ++ [s.bufs.payload.take len], ?_, ?_⟩
    · rw [List.map_append, List.map_append, hpushed, List.map_singleton,
        List.map_singleton, hwire]
    · rw [hframes]
      simp [SessionState.waiting]

theorem Delivering.afterCall
    (hs : Delivering kind s consumed pushed) (hstate : s.state = .select none) :
    Delivering kind
      { s with
        bufs := s.bufs.enter.1
        state := SessionKind.afterPoll s.bufs.enter.2 }
      consumed pushed := by
  have hsituated := hs.situated
  rw [hstate] at hsituated
  obtain ⟨hspace, p, hread, -⟩ := hsituated.hasRead_select
  apply hs.afterPoll hspace (by rw [hstate]; rfl)
  rw [hread.enter]
  exact .parked hread rfl

theorem Delivering.afterRead {request : ReadRequest} {bytes : List UInt8}
    (hs : Delivering kind s consumed pushed)
    (hstate : s.state = .select (some request)) (hbytes : bytes ≠ [])
    (hsize : bytes.length ≤ s.bufs.requestSize request) :
    Delivering kind
      { s with
        bufs := (s.bufs.resume request (some bytes)).1
        state := SessionKind.afterPoll (s.bufs.resume request (some bytes)).2 }
      (consumed ++ bytes) pushed := by
  have hsituated := hs.situated
  rw [hstate] at hsituated
  obtain ⟨hspace, p, hread, hcall⟩ := hsituated.hasRead_select
  have hrequest : request = p.request := hcall request rfl
  subst hrequest
  apply hs.afterPoll hspace (by rw [hstate]; rfl)
  exact hread.resume hbytes hsize

theorem Delivering.afterFault {request : ReadRequest}
    (hs : Delivering kind s consumed pushed)
    (hstate : s.state = .select (some request)) :
    Delivering kind
      { s with
        bufs := (s.bufs.resume request none).1
        state := SessionKind.afterPoll (s.bufs.resume request none).2 }
      consumed pushed := by
  have hsituated := hs.situated
  rw [hstate] at hsituated
  obtain ⟨hspace, -⟩ := hsituated.hasRead_select
  apply hs.afterPoll hspace (by rw [hstate]; rfl)
  rw [resume_fault]
  exact .failed rfl

theorem Delivering.afterCheck
    (hs : Delivering kind s consumed pushed) (hstate : s.state = .head)
    (hspace : s.responses.HasSpaceFor kind.reserve) :
    Delivering kind { s with state := .select none } consumed pushed := by
  have hsituated := hs.situated
  obtain ⟨done, hpushed, hframes⟩ := hs.frames_eq
  rw [hstate] at hsituated hframes
  obtain ⟨p, hread⟩ := hsituated.hasRead_between trivial
  refine ⟨.select hspace hread fun request h => ?_, done, hpushed, hframes⟩
  cases h

theorem Delivering.afterTryPush {item : T}
    (hs : Delivering kind s consumed pushed) (hstate : s.state = .push item)
    (hstep : kind.step s .tryPush = some t) :
    Delivering kind t consumed pushed ∧ streamBy kind s .tryPush = [] ∧
      QueueStep kind s .tryPush t := by
  obtain ⟨requests, responses, state, bufs⟩ := s
  subst hstate
  have hread := hs.situated.hasRead_between trivial
  have hcontents := responses.contents_push item
  rcases hpush : responses.tryPushRef item with ⟨after, accepted⟩
  rw [hpush] at hcontents
  have hnext := hs.toBetween rfl hread requests after
  cases accepted with
  | true =>
      simp only [SessionKind.step, hpush, Option.some.injEq] at hstep
      subst hstep
      refine ⟨hnext .head trivial, ?_, ?_⟩
      · simp [streamBy, SessionRun.queuedBy, hpush]
      · simpa [QueueStep, SessionRun.fetchedBy, SessionRun.queuedBy,
          hpush] using hcontents
  | false =>
      simp only [SessionKind.step, hpush, Option.some.injEq] at hstep
      subst hstep
      refine ⟨hnext (.waitPush item) trivial, ?_, ?_⟩
      · simp [streamBy, SessionRun.queuedBy, hpush]
      · simpa [QueueStep, SessionRun.fetchedBy, SessionRun.queuedBy,
          hpush] using hcontents

theorem Delivering.quietly {event : SessionEvent T}
    (ht : Delivering kind t consumed pushed) (hresponses : t.responses = s.responses)
    (hconsumed : SessionRun.consumedBy event = [])
    (hqueued : SessionRun.queuedBy kind s event = [])
    (hfetched : SessionRun.fetchedBy s event = []) :
    Delivering kind t (consumed ++ SessionRun.consumedBy event)
        (pushed ++ streamBy kind s event) ∧
      QueueStep kind s event t := by
  constructor
  · simpa [streamBy, hconsumed, hqueued] using ht
  · simp [QueueStep, hqueued, hfetched, hresponses]

theorem Delivering.afterStep {event : SessionEvent T}
    (hs : Delivering kind s consumed pushed)
    (hstep : kind.step s event = some t) :
    Delivering kind t (consumed ++ SessionRun.consumedBy event)
        (pushed ++ streamBy kind s event) ∧
      QueueStep kind s event t := by
  obtain ⟨requests, responses, state, bufs⟩ := s
  have hsituated := hs.situated
  cases event with
  | checkSpace =>
      cases state with
      | head =>
          simp only [SessionKind.step] at hstep
          split at hstep
          · next hspace =>
            cases hstep
            exact (hs.afterCheck rfl hspace).quietly rfl rfl rfl rfl
          · cases hstep
            have hread := hsituated.hasRead_between trivial
            exact (hs.toBetween rfl hread _ _ .waitForSpace trivial).quietly
              rfl rfl rfl rfl
      | _ => cases hstep
  | space =>
      cases state with
      | waitForSpace =>
          simp only [SessionKind.step] at hstep
          split at hstep
          · cases hstep
            have hread := hsituated.hasRead_between trivial
            exact (hs.toBetween rfl hread _ _ .head trivial).quietly rfl rfl rfl rfl
          · cases hstep
      | _ => cases hstep
  | request runtime =>
      cases state with
      | waitForSpace =>
          obtain ⟨hnext, hresponses⟩ := hs.afterRequest rfl
            (hsituated.hasRead_between trivial) hstep
          exact hnext.quietly hresponses rfl rfl rfl
      | select read =>
          obtain ⟨-, p, hread, -⟩ := hsituated.hasRead_select
          obtain ⟨hnext, hresponses⟩ := hs.afterRequest rfl ⟨p, hread⟩ hstep
          exact hnext.quietly hresponses rfl rfl rfl
      | _ => cases hstep
  | call =>
      cases state with
      | select read =>
          cases read with
          | none =>
              cases hstep
              exact (hs.afterCall rfl).quietly rfl rfl rfl rfl
          | some request => cases hstep
      | _ => cases hstep
  | read bytes =>
      cases state with
      | select read =>
          cases read with
          | none => cases hstep
          | some request =>
              simp only [SessionKind.step] at hstep
              split at hstep
              · next hbytes =>
                cases hstep
                have hnext := hs.afterRead rfl hbytes.1 hbytes.2
                constructor
                · simpa [SessionRun.consumedBy, streamBy, SessionRun.queuedBy]
                    using hnext
                · simp [QueueStep, SessionRun.queuedBy, SessionRun.fetchedBy]
              · cases hstep
      | _ => cases hstep
  | readFault =>
      cases state with
      | select read =>
          cases read with
          | none => cases hstep
          | some request =>
              cases hstep
              exact (hs.afterFault rfl).quietly rfl rfl rfl rfl
      | _ => cases hstep
  | deliver =>
      cases state with
      | deliver len =>
          cases hstep
          obtain ⟨item, -, hdeliver, hqueued, hcontents, hnext⟩ :=
            hs.afterDeliver rfl
          constructor
          · simpa [SessionRun.consumedBy, streamBy, hqueued] using hnext
          · simp only [QueueStep, SessionRun.fetchedBy, hqueued, hdeliver]
            simpa using hcontents
      | _ => cases hstep
  | write n =>
      cases state with
      | write buffers =>
          cases buffers with
          | nil => cases hstep
          | cons buffer rest =>
              simp only [SessionKind.step] at hstep
              split at hstep
              · cases hstep
                have hread := hsituated.hasRead_between trivial
                have hnext := hs.toBetween rfl hread requests responses _
                  (between_afterWrite (buffer.drop n :: rest))
                exact hnext.quietly rfl rfl rfl rfl
              · cases hstep
      | _ => cases hstep
  | writeFault =>
      cases state with
      | write buffers =>
          cases hstep
          have hnext : Delivering kind
              ⟨requests, responses, .ended .write, bufs⟩ consumed pushed :=
            ⟨.ended (.inr rfl), hs.frames_eq⟩
          exact hnext.quietly rfl rfl rfl rfl
      | _ => cases hstep
  | pushSpace =>
      cases state with
      | waitPush item =>
          simp only [SessionKind.step] at hstep
          split at hstep
          · cases hstep
            have hread := hsituated.hasRead_between trivial
            exact (hs.toBetween rfl hread _ _ (.push item) trivial).quietly
              rfl rfl rfl rfl
          · cases hstep
      | _ => cases hstep
  | tryPush =>
      cases state with
      | push item =>
          obtain ⟨hnext, hstream, hqueue⟩ := hs.afterTryPush rfl hstep
          refine ⟨?_, hqueue⟩
          simpa [SessionRun.consumedBy, hstream] using hnext
      | _ => cases hstep
  | busRequest item =>
      cases hstep
      have hnext : Delivering kind
          ⟨(requests.pushOverwrite item).1, responses, state, bufs⟩
          consumed pushed := ⟨hsituated, hs.frames_eq⟩
      exact hnext.quietly rfl rfl rfl rfl
  | busPop =>
      cases hstep
      have hnext : Delivering kind
          ⟨requests, responses.tryPop.1, state, bufs⟩ consumed pushed :=
        ⟨hsituated.afterPop, hs.frames_eq⟩
      constructor
      · simpa [SessionRun.consumedBy, streamBy, SessionRun.queuedBy] using hnext
      · simp [QueueStep, SessionRun.fetchedBy, SessionRun.queuedBy,
          responses.contents_pop]

end Steps

/-! ## Runs -/

def QueueHistory (responses : OverwriteQueue T N B) (r : SessionRun T N B) :
    Prop :=
  r.fetched.map QueueCodec.wire ++ r.session.responses.contents =
    responses.contents ++ r.queued.map fun entry => QueueCodec.wire entry.2

structure InOrder (kind : SessionKind T N B) (responses : OverwriteQueue T N B)
    (r : SessionRun T N B) : Prop where
  history : QueueHistory responses r
  delivering : Delivering kind r.session r.consumed r.pushed

theorem inOrder_start (kind : SessionKind T N B)
    (requests responses : OverwriteQueue T N B) :
    InOrder kind responses (SessionRun.start kind requests responses) where
  history := by simp [QueueHistory, SessionRun.start, SessionKind.start]
  delivering :=
    ⟨.between trivial (HasRead.ofStart List.length_replicate), [], rfl, rfl⟩

theorem InOrder.afterStep
    {kind : SessionKind T N B} {responses : OverwriteQueue T N B}
    {r t : SessionRun T N B} {event : SessionEvent T}
    (hr : InOrder kind responses r) (hstep : r.step kind event = some t) :
    InOrder kind responses t := by
  obtain ⟨session, hsession, rfl⟩ := Option.map_eq_some_iff.mp hstep
  obtain ⟨hdelivering, hqueue⟩ := hr.delivering.afterStep hsession
  refine ⟨?_, ?_⟩
  · have hbefore := hr.history
    unfold QueueHistory QueueStep at *
    simp only [List.map_append, List.append_assoc, hqueue]
    rw [← List.append_assoc, hbefore, List.append_assoc]
  · simpa [SessionRun.pushed, streamBy] using hdelivering

theorem inOrder_of_reaches
    {kind : SessionKind T N B} {requests responses : OverwriteQueue T N B}
    {events : List (SessionEvent T)} {r : SessionRun T N B}
    (hreach : Runs.Reaches (SessionRun.step kind)
      (SessionRun.start kind requests responses) events r) :
    InOrder kind responses r :=
  hreach.invariant (fun _ _ _ h hstep => h.afterStep hstep)
    (inOrder_start kind requests responses)

/-- Every complete frame is in the queue once and in order, the last of them
perhaps not until the next step of the session, which takes it there. -/
def FramesQueued (kind : SessionKind T N B) (r : SessionRun T N B) : Prop :=
  ∃ done waiting : List (List UInt8),
    completeFrames kind.netBuf r.consumed = done ++ waiting ∧
      r.pushed.map QueueCodec.wire = done.map kind.networkWire ∧
      (waiting = [] ∨ ∃ payload item t, waiting = [payload] ∧
        QueueCodec.wire item = kind.networkWire payload ∧
        r.step kind .deliver = some t ∧ t.session.state = .head ∧
        t.queued = r.queued ++ [(.stream, item)])

/-- While the session runs, the bytes of the socket are the complete frames
and the one in progress. -/
def AllConsumed (kind : SessionKind T N B) (r : SessionRun T N B) : Prop :=
  (∃ reason, r.session.state = .ended reason) ∨
    ∃ p : Partial, p.Incomplete kind.netBuf ∧
      r.consumed = (completeFrames kind.netBuf r.consumed).flatMap bridgeFramed ++
        partialBytes p

def EndsByNetwork (r : SessionRun T N B) : Prop :=
  ∀ reason, r.session.state = .ended reason → reason = .read ∨ reason = .write

/-- Every run of the session, from any queues. -/
def DeliversFrames (kind : SessionKind T N B) : Prop :=
  ∀ (requests responses : OverwriteQueue T N B) (events : List (SessionEvent T))
    (r : SessionRun T N B),
    Runs.Reaches (SessionRun.step kind)
        (SessionRun.start kind requests responses) events r →
      QueueHistory responses r ∧ FramesQueued kind r ∧ AllConsumed kind r ∧
        EndsByNetwork r

theorem InOrder.framesQueued
    {kind : SessionKind T N B} {responses : OverwriteQueue T N B}
    {r : SessionRun T N B} (hr : InOrder kind responses r) :
    FramesQueued kind r := by
  obtain ⟨done, hpushed, hframes⟩ := hr.delivering.frames_eq
  refine ⟨done, r.session.state.waiting r.session.bufs, hframes, hpushed, ?_⟩
  cases hstate : r.session.state with
  | deliver len =>
      obtain ⟨item, hwire, hdeliver, hqueued, -⟩ :=
        hr.delivering.afterDeliver hstate
      have hstep : kind.step r.session .deliver =
          some (kind.deliver r.session len) := by
        simp only [SessionKind.step, hstate]
      have hrun : r.step kind .deliver = some
          ⟨kind.deliver r.session len, r.consumed ++ [],
            r.queued ++ SessionRun.queuedBy kind r.session .deliver,
            r.fetched ++ []⟩ := by
        rw [SessionRun.step, hstep]
        rfl
      refine .inr ⟨_, item, _, rfl, hwire, hrun, ?_, ?_⟩
      · rw [hdeliver]
      · rw [hqueued]
  | _ => exact .inl rfl

theorem InOrder.allConsumed
    {kind : SessionKind T N B} {responses : OverwriteQueue T N B}
    {r : SessionRun T N B} (hr : InOrder kind responses r) :
    AllConsumed kind r := by
  have hfinish : ∀ {p : Partial},
      HasRead kind.netBuf r.consumed r.session.bufs p → AllConsumed kind r :=
    fun hread => .inr ⟨_, hread.tracks.incomplete, hread.bytes_eq⟩
  have hsituated := hr.delivering.situated
  generalize hstate : r.session.state = state at hsituated
  cases hsituated with
  | between hbetween hread => exact hfinish hread
  | select hspace hread hcall => exact hfinish hread
  | deliver hspace hlen hread => exact hfinish hread
  | ended hreason => exact .inl ⟨_, hstate⟩

theorem InOrder.endsByNetwork
    {kind : SessionKind T N B} {responses : OverwriteQueue T N B}
    {r : SessionRun T N B} (hr : InOrder kind responses r) :
    EndsByNetwork r := by
  intro reason hended
  have hsituated := hr.delivering.situated
  rw [hended] at hsituated
  cases hsituated with
  | between hbetween => cases hbetween
  | ended hreason => exact hreason

theorem deliversFrames (kind : SessionKind T N B) : DeliversFrames kind := by
  intro requests responses events r hreach
  have hr := inOrder_of_reaches hreach
  exact ⟨hr.history, hr.framesQueued, hr.allConsumed, hr.endsByNetwork⟩

end Sessions

end Bridge
end PicoFi
