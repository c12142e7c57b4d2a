import PicoFi.I2cRetention

/-!
# Runs of the second I2C protocol

The mailbox is filled from the response queue and by local commands, and the
host decides how far each read of it gets.  Next to the task, a run keeps the
packets staged, what every read showed, and the reads whose body went through
to its end.  The packets read so are the packets staged, in order.
-/

namespace PicoFi
namespace PacketV2

open Buffer

theorem head_of_packet
    {raw payload : List UInt8} {kind : UInt8}
    (h : packet raw = .ok (kind, payload)) : raw.head? = some magic := by
  unfold packet decode at h
  match raw with
  | [] => simp at h
  | [_] => simp at h
  | [_, _] => simp at h
  | [_, _, _] => simp at h
  | b0 :: _ :: _ :: _ :: _ =>
      by_cases hmagic : b0 = magic
      · rw [hmagic, List.head?_cons]
      · simp only [if_pos hmagic] at h
        cases h

/-! ## What a mailbox holds -/

structure Response where
  kind : UInt8
  payload : List UInt8
  deriving DecidableEq

def Response.header (r : Response) : List UInt8 :=
  [magic, r.kind] ++ le16 r.payload.length

namespace Mailbox

def held (m : Mailbox) : List Response :=
  if m.pending then [⟨m.kind, m.payload⟩] else []

/-- The kind is one of the protocol, and only the idle one has no payload. -/
structure Sound (m : Mailbox) : Prop where
  isKind : IsKind m.kind
  idle_iff : m.kind = idle ↔ m.len = 0

theorem new_sound : new.Sound := by
  constructor
  · exact .inl rfl
  · exact iff_of_true rfl rfl

theorem held_of_pending {m : Mailbox} (hpending : m.pending = true) :
    m.held = [⟨m.kind, m.payload⟩] := if_pos hpending

theorem held_of_idle {m : Mailbox} (hpending : m.pending = false) :
    m.held = [] := by
  rw [held, hpending, if_neg Bool.false_ne_true]

/-- The `unwrap` of the header succeeds. -/
theorem Sound.header
    {m : Mailbox} (hm : m.Sound) :
    m.header = some ([magic, m.kind] ++ le16 m.len) := by
  have hok : PacketV2.header m.kind m.len = .ok ([magic, m.kind] ++ le16 m.len) :=
    header_eq_ok.mpr ⟨m.len_le, hm.isKind, hm.idle_iff.mp, rfl⟩
  rw [Mailbox.header, hok]
  rfl

theorem Sound.header_idle
    {m : Mailbox} (hm : m.Sound) (hpending : m.pending = false) :
    m.header = some select := by
  have hkind : m.kind = idle := by simpa [pending] using hpending
  rw [hm.header, hkind, hm.idle_iff.mp hkind]
  rfl

theorem Sound.header_pending
    {m : Mailbox} (hm : m.Sound) :
    m.header = some (Response.header ⟨m.kind, m.payload⟩) := by
  rw [hm.header, Response.header, m.length_payload]

theorem stage_ok
    {m n : Mailbox} {kind : UInt8} {payload : List UInt8} (hkind : kind ≠ idle)
    (hstage : m.stage kind payload = .ok n) :
    m.pending = false ∧ n.Sound ∧ n.held = [⟨kind, payload⟩] := by
  unfold stage at hstage
  split at hstage
  next => cases hstage
  next bytes hheader =>
    obtain ⟨-, hisKind, -, -⟩ := header_eq_ok.mp hheader
    split at hstage
    next => cases hstage
    next hempty =>
      split at hstage
      next => cases hstage
      next hfree =>
        cases hstage
        have hnonempty : payload ≠ [] := fun h => hempty ⟨hkind, h⟩
        have hpending : (kind != idle) = true := bne_iff_ne.mpr hkind
        refine ⟨by simpa using hfree, ⟨hisKind, ?_⟩, ?_⟩
        · apply iff_of_false hkind
          intro hzero
          exact hnonempty (List.eq_nil_of_length_eq_zero hzero)
        · rw [held, pending, if_pos hpending, Mailbox.payload]
          simp only [FixedBytes.write, splice_zero, List.take_left]

theorem completeBody_sound
    {m : Mailbox} (hm : m.Sound) (complete : Bool) :
    (m.completeBody complete).Sound := by
  cases complete with
  | true => exact ⟨.inl rfl, iff_of_true rfl rfl⟩
  | false => exact hm

theorem held_completeBody (m : Mailbox) (complete : Bool) :
    (m.completeBody complete).held = if complete then [] else m.held := by
  cases complete with
  | true => rfl
  | false => rfl

end Mailbox

end PacketV2

namespace I2c

open Buffer Mailbox
open PacketV2 (Response)

/-! ## Runs with their history -/

/-- What one read showed, with the numbers of packets consumed and staged up
to it. -/
structure Shown where
  consumed : ℕ
  staged : ℕ
  header : List UInt8
  body : Option (List UInt8)

/-- An idle header when no packet is left, else the bytes of the first packet
not consumed yet. -/
def Shown.Belongs (staged : List Response) (entry : Shown) : Prop :=
  (entry.staged = entry.consumed ∧ entry.header = PacketV2.select ∧
      entry.body = none) ∨
    (entry.staged = entry.consumed + 1 ∧
      ∃ r, staged[entry.consumed]? = some r ∧ entry.header = r.header ∧
        ∀ body ∈ entry.body, body = r.payload)

structure MailboxRun where
  task : I2cTask
  staged : List Response
  shown : List Shown
  consumed : List (List UInt8 × List UInt8)

def stagedFromQueue (s : I2cTask) : List Response :=
  if s.mailbox.pending then []
  else s.rxResp.tryPop.2.toList.map fun packet =>
    ⟨packet.kind, packet.payload.asSlice⟩

def stagedLocally (config : BridgeConfig) (s : I2cTask) (w : BusWrite) :
    List Response :=
  match PacketV2.packet w.raw with
  | .error _ => []
  | .ok (kind, payload) =>
      let response := localResponse config w.runtime payload
      if kind = PacketV2.command ∧ LooksLikeLocalCommand payload ∧
          ¬s.mailbox.pending then
        match s.mailbox.stage PacketV2.command response with
        | .ok _ => [⟨PacketV2.command, response⟩]
        | .error _ => []
      else []

namespace MailboxRun

def start : MailboxRun := ⟨I2cTask.start, [], [], []⟩

variable (config : BridgeConfig)

def recordWrite (s : MailboxRun) (w : BusWrite) : Option MailboxRun :=
  (s.task.written config w).map fun task =>
    { s with
      task := task
      staged := s.staged ++ stagedLocally config s.task w }

def recordRead (s : MailboxRun) (io : ReadIo) : Option MailboxRun :=
  (s.task.readReply io).map fun (task, reply) =>
    match reply with
    | .slot _ => { s with task := task }
    | .packet header body =>
        let staged := s.staged ++ stagedFromQueue s.task
        { task := task
          staged := staged
          shown := s.shown ++
            [⟨s.consumed.length, staged.length, header, body.map Prod.fst⟩]
          consumed := s.consumed ++
            match body with
            | some (bytes, true) => [(header, bytes)]
            | _ => [] }

def step (s : MailboxRun) : I2cEvent → Option MailboxRun
  | .write w => s.recordWrite config w
  | .read io => s.recordRead io
  | .writeRead w io => (s.recordWrite config w).bind fun s => s.recordRead io
  | event => (s.task.step config event).map fun (task, _) =>
      { s with task := task }

/-- A frame or a reply the session queues for the host. -/
def IsResponse (packet : I2cPacket) : Prop :=
  (packet.kind = PacketV2.data ∨ packet.kind = PacketV2.command ∨
      packet.kind = PacketV2.error) ∧
    packet.payload.asSlice ≠ [] ∧
    packet.payload.asSlice.length ≤ PacketV2.maxPayload

/-- The host keeps to the second version. -/
def Keeps (s : MailboxRun) : I2cEvent → Prop
  | .write w => ¬IsSlotWrite s.task w.raw
  | .read _ => s.task.v2 = true
  | .writeRead w _ => ¬IsSlotWrite s.task w.raw
  | .queueResponse packet => IsResponse packet
  | _ => True

end MailboxRun

/-! ## What the writes of a run do -/

namespace I2cTask

variable {config : BridgeConfig} {s t : I2cTask}

theorem mailbox_handleV2Write
    {w : BusWrite} (hsound : s.mailbox.Sound)
    (h : s.handleV2Write config w.runtime w.raw = some t) :
    t.v2 = s.v2 ∧ t.rxResp = s.rxResp ∧ t.mailbox.Sound ∧
      t.mailbox.held = s.mailbox.held ++ stagedLocally config s w := by
  have hsame : s.v2 = s.v2 ∧ s.rxResp = s.rxResp ∧ s.mailbox.Sound ∧
      s.mailbox.held = s.mailbox.held ++ [] :=
    ⟨rfl, rfl, hsound, (List.append_nil _).symm⟩
  unfold handleV2Write at h
  unfold stagedLocally
  cases hpacket : PacketV2.packet w.raw with
  | error msg =>
      simp only [hpacket] at h ⊢
      cases h
      exact hsame
  | ok request =>
      obtain ⟨kind, payload⟩ := request
      simp only [hpacket] at h ⊢
      by_cases hcommand : kind = PacketV2.command
      · have hdata : kind ≠ PacketV2.data := by
          rw [hcommand]
          decide
        rw [if_neg hdata, if_pos hcommand] at h
        by_cases hlocal : LooksLikeLocalCommand payload ∧ ¬s.mailbox.pending
        · rw [if_pos hlocal] at h
          rw [if_pos ⟨hcommand, hlocal⟩]
          cases hstage : s.mailbox.stage PacketV2.command
              (localResponse config w.runtime payload) with
          | error msg =>
              simp only [hstage] at h ⊢
              cases h
              exact hsame
          | ok mailbox =>
              simp only [hstage] at h ⊢
              cases h
              obtain ⟨hfree, hnext, hheld⟩ :=
                PacketV2.Mailbox.stage_ok (by decide) hstage
              refine ⟨rfl, rfl, hnext, ?_⟩
              rw [hheld, PacketV2.Mailbox.held_of_idle hfree]
              rfl
        · rw [if_neg hlocal] at h
          rw [if_neg (fun hall => hlocal hall.2)]
          cases h
          exact hsame
      · rw [if_neg (fun hall => hcommand hall.1)]
        have hmailbox : t.v2 = s.v2 ∧ t.rxResp = s.rxResp ∧
            t.mailbox = s.mailbox := by
          repeat' split at h
          all_goals first
            | exact absurd ‹kind = PacketV2.command› hcommand
            | cases h
              exact ⟨rfl, rfl, rfl⟩
            | cases h
        obtain ⟨hv2, hrxResp, hkept⟩ := hmailbox
        rw [hkept]
        exact ⟨hv2, hrxResp, hsound, (List.append_nil _).symm⟩

theorem stagedLocally_of_kind
    {w : BusWrite}
    (hraw : w.raw.head? ≠ some PacketV2.magic ∨ w.raw = PacketV2.select) :
    stagedLocally config s w = [] := by
  unfold stagedLocally
  cases hpacket : PacketV2.packet w.raw with
  | error msg => rfl
  | ok request =>
      obtain ⟨kind, payload⟩ := request
      have hkind : kind ≠ PacketV2.command := by
        rcases hraw with hhead | hselect
        · exact absurd (PacketV2.head_of_packet hpacket) hhead
        · rw [hselect] at hpacket
          cases hpacket
          decide
      exact if_neg (fun hall => hkind hall.1)

/-- A write that is no slot keeps the second version. -/
theorem written_v2
    {w : BusWrite} (hsound : s.mailbox.Sound) (hslot : ¬IsSlotWrite s w.raw)
    (h : s.written config w = some t) :
    t.v2 = true ∧ t.rxResp = s.rxResp ∧ t.mailbox.Sound ∧
      t.mailbox.held = s.mailbox.held ++ stagedLocally config s w := by
  obtain ⟨⟨u, action⟩, haction, hperform⟩ := Option.map_eq_some_iff.mp h
  obtain ⟨received, hreceive, hslotAction⟩ := Option.bind_eq_some_iff.mp haction
  have hv2 := receive_other hslot hreceive
  rw [if_pos hv2] at hslotAction
  cases hslotAction
  cases hperform
  show u.v2 = true ∧ u.rxResp = s.rxResp ∧ u.mailbox.Sound ∧ u.mailbox.held = _
  refine ⟨hv2, ?_⟩
  unfold receive at hreceive
  split at hreceive
  next hselect =>
    cases hreceive
    rw [stagedLocally_of_kind (.inr hselect), List.append_nil]
    exact ⟨rfl, hsound, rfl⟩
  next =>
    split at hreceive
    next hmagic =>
      exact (mailbox_handleV2Write (s := { s with v2 := true }) hsound hreceive).2
    next hmagic =>
      have hnone := @stagedLocally_of_kind config s w (.inl hmagic)
      rw [hnone, List.append_nil]
      split at hreceive
      · cases hreceive
        exact ⟨rfl, hsound, rfl⟩
      · cases hreceive
        exact ⟨rfl, hsound, rfl⟩

end I2cTask

/-! ## What the reads of a run do -/

def HoldsResponses (q : I2cQueue) : Prop :=
  ∀ encoding ∈ q.contents, ∃ packet : I2cPacket,
    MailboxRun.IsResponse packet ∧ QueueCodec.wire packet = encoding

theorem HoldsResponses.empty (hB : 0 < packetQueueBytes) :
    HoldsResponses (OverwriteQueue.empty hB) := by
  intro encoding hmem
  rw [OverwriteQueue.contents_empty] at hmem
  cases hmem

theorem HoldsResponses.push
    {q : I2cQueue} (hq : HoldsResponses q) {packet : I2cPacket}
    (hpacket : MailboxRun.IsResponse packet) :
    HoldsResponses (q.tryPushRef packet).1 := by
  intro encoding hmem
  rw [q.contents_push packet, List.mem_append] at hmem
  cases hmem with
  | inl hold => exact hq encoding hold
  | inr hnew =>
      split at hnew
      · rw [List.mem_singleton.mp hnew]
        exact ⟨packet, hpacket, rfl⟩
      · cases hnew

theorem HoldsResponses.pop
    {q : I2cQueue} (hq : HoldsResponses q) : HoldsResponses q.tryPop.1 := by
  intro encoding hmem
  rw [q.contents_tryPop.1] at hmem
  exact hq encoding (List.mem_of_mem_tail hmem)

theorem HoldsResponses.popped
    {q : I2cQueue} (hq : HoldsResponses q) {packet : I2cPacket}
    (hpop : q.tryPop.2 = some packet) : MailboxRun.IsResponse packet := by
  have hcontents := q.contents_of_tryPop hpop
  obtain ⟨stored, hstored, hwire⟩ := hq (QueueCodec.wire packet) (by
    rw [hcontents]
    exact List.mem_cons_self)
  rw [← I2cPacket.wire_injective hwire]
  exact hstored

namespace I2cTask

variable {s : I2cTask}

/-- Every response popped for a read gets into the mailbox. -/
theorem stageMailbox_held
    (hsound : s.mailbox.Sound) (hqueue : HoldsResponses s.rxResp) :
    s.stageMailbox.mailbox.Sound ∧ HoldsResponses s.stageMailbox.rxResp ∧
      s.stageMailbox.mailbox.held = s.mailbox.held ++ stagedFromQueue s := by
  cases hpending : s.mailbox.pending with
  | true =>
      unfold stageMailbox stagedFromQueue
      rw [if_pos hpending, if_pos hpending, List.append_nil]
      exact ⟨hsound, hqueue, rfl⟩
  | false =>
      have hheld := PacketV2.Mailbox.held_of_idle hpending
      have hstaged : stagedFromQueue s = s.rxResp.tryPop.2.toList.map
          fun packet => ⟨packet.kind, packet.payload.asSlice⟩ := by
        rw [stagedFromQueue, hpending, if_neg Bool.false_ne_true]
      cases hpop : s.rxResp.tryPop.2 with
      | none =>
          have hnext : s.stageMailbox = { s with rxResp := s.rxResp.tryPop.1 } := by
            unfold stageMailbox
            rw [hpending, if_neg Bool.false_ne_true,
              ← Prod.mk.eta (p := s.rxResp.tryPop), hpop]
          rw [hnext, hstaged, hpop]
          exact ⟨hsound, hqueue.pop, (List.append_nil _).symm⟩
      | some packet =>
          obtain ⟨hkind, hnonempty, hlen⟩ := hqueue.popped hpop
          have hkinds : PacketV2.IsKind packet.kind ∧
              packet.kind ≠ PacketV2.idle := by
            rcases hkind with h | h | h
            · rw [h]
              decide
            · rw [h]
              decide
            · rw [h]
              decide
          obtain ⟨mailbox, hstage, -, -⟩ := PacketV2.Mailbox.stage_fitting
            hpending hkinds.1 hkinds.2 hnonempty hlen
          obtain ⟨-, hnext, hfull⟩ :=
            PacketV2.Mailbox.stage_ok hkinds.2 hstage
          have hread : s.stageMailbox =
              { s with rxResp := s.rxResp.tryPop.1, mailbox := mailbox } := by
            unfold stageMailbox
            rw [hpending, if_neg Bool.false_ne_true,
              ← Prod.mk.eta (p := s.rxResp.tryPop), hpop]
            simp only [hstage]
          rw [hread, hstaged, hpop, hheld]
          exact ⟨hnext, hqueue.pop, hfull⟩

theorem respondV2_held
    (hsound : s.mailbox.Sound) (io : ReadIo) :
    (s.mailbox.held = [] ∧
        s.respondV2 io = some (s, .packet PacketV2.select none)) ∨
      ∃ r, s.mailbox.held = [r] ∧
        (s.respondV2 io = some (s, .packet r.header none) ∨
          io.header = some .needMoreBytes ∧
            s.respondV2 io =
              some ({ s with
                  mailbox := s.mailbox.completeBody
                    (decide (io.body = some .done)) },
                .packet r.header
                  (some (r.payload, decide (io.body = some .done))))) := by
  cases hpending : s.mailbox.pending with
  | false =>
      refine .inl ⟨PacketV2.Mailbox.held_of_idle hpending, ?_⟩
      unfold respondV2
      rw [hsound.header_idle hpending, Option.map_some,
        if_neg (fun h => by simp [hpending] at h)]
  | true =>
      refine .inr ⟨_, PacketV2.Mailbox.held_of_pending hpending, ?_⟩
      unfold respondV2
      rw [hsound.header_pending, Option.map_some]
      split
      next hbody => exact .inr ⟨hbody.1, rfl⟩
      next => exact .inl rfl

end I2cTask

/-! ## The packets consumed are the packets staged -/

def I2cEvent.CompletesBody : I2cEvent → Prop
  | .read io => io.header = some .needMoreBytes ∧ io.body = some .done
  | .writeRead _ io => io.header = some .needMoreBytes ∧ io.body = some .done
  | _ => False

theorem Shown.Belongs.append
    {staged : List Response} {entry : Shown} (hentry : entry.Belongs staged)
    (more : List Response) : entry.Belongs (staged ++ more) := by
  rcases hentry with hidle | ⟨hcount, r, hr, hshown⟩
  · exact .inl hidle
  · refine .inr ⟨hcount, r, ?_, hshown⟩
    obtain ⟨hlt, -⟩ := List.getElem?_eq_some_iff.mp hr
    rw [List.getElem?_append_left hlt]
    exact hr

namespace MailboxRun

variable {config : BridgeConfig} {s t : MailboxRun}

/-- What is not consumed yet of the packets staged is in the mailbox. -/
structure Delivers (s : MailboxRun) : Prop where
  sound : s.task.mailbox.Sound
  queue : HoldsResponses s.task.rxResp
  staged_eq : ∃ done : List Response,
    s.staged = done ++ s.task.mailbox.held ∧
      s.consumed = done.map fun r => (r.header, r.payload)
  shown_belongs : ∀ entry ∈ s.shown, entry.Belongs s.staged

theorem start_delivers : start.Delivers := by
  constructor
  · exact PacketV2.Mailbox.new_sound
  · exact HoldsResponses.empty (by decide)
  · exact ⟨[], rfl, rfl⟩
  · intro entry hentry
    cases hentry

theorem Delivers.recordWrite
    (hs : s.Delivers) {w : BusWrite} (hslot : ¬IsSlotWrite s.task w.raw)
    (h : s.recordWrite config w = some t) :
    t.Delivers ∧ t.task.v2 = true ∧
      t.task.mailbox.held = s.task.mailbox.held ++
        stagedLocally config s.task w := by
  obtain ⟨task, hwritten, rfl⟩ := Option.map_eq_some_iff.mp h
  obtain ⟨hv2, hrxResp, hsound, hheld⟩ :=
    I2cTask.written_v2 hs.sound hslot hwritten
  obtain ⟨done, hstaged, hconsumed⟩ := hs.staged_eq
  refine ⟨⟨hsound, ?_, ⟨done, ?_, hconsumed⟩, ?_⟩, hv2, hheld⟩
  · show HoldsResponses task.rxResp
    rw [hrxResp]
    exact hs.queue
  · show s.staged ++ stagedLocally config s.task w = done ++ task.mailbox.held
    rw [hheld, hstaged, List.append_assoc]
  · intro entry hentry
    exact (hs.shown_belongs entry hentry).append _

theorem Delivers.withRead
    (hs : s.Delivers) {task : I2cTask} {more : List Response} {entry : Shown}
    {read : List (List UInt8 × List UInt8)} (hsound : task.mailbox.Sound)
    (hqueue : HoldsResponses task.rxResp)
    (hentry : entry.Belongs (s.staged ++ more))
    (hstaged : ∃ done : List Response,
      s.staged ++ more = done ++ task.mailbox.held ∧
        s.consumed ++ read = done.map fun r => (r.header, r.payload)) :
    Delivers
      { task := task
        staged := s.staged ++ more
        shown := s.shown ++ [entry]
        consumed := s.consumed ++ read } := by
  refine ⟨hsound, hqueue, hstaged, ?_⟩
  intro old hold
  cases List.mem_append.mp hold with
  | inl hold => exact (hs.shown_belongs old hold).append _
  | inr hnew =>
      rw [List.mem_singleton.mp hnew]
      exact hentry

/-- A read shows the packet in front, and consumes it when its body went
through. -/
theorem Delivers.recordRead
    (hs : s.Delivers) (hv2 : s.task.v2 = true) (io : ReadIo) :
    ∃ t, s.recordRead io = some t ∧ t.Delivers ∧
      (t.task.mailbox.held = s.task.mailbox.held ++ stagedFromQueue s.task ∨
        (io.header = some .needMoreBytes ∧ io.body = some .done)) := by
  obtain ⟨hsound, hqueue, hheld⟩ := I2cTask.stageMailbox_held hs.sound hs.queue
  obtain ⟨done, hstaged, hconsumed⟩ := hs.staged_eq
  have hall : s.staged ++ stagedFromQueue s.task =
      done ++ s.task.stageMailbox.mailbox.held := by
    rw [hheld, hstaged, List.append_assoc]
  have hcount : s.consumed.length = done.length := by
    rw [hconsumed, List.length_map]
  have hreply : s.task.readReply io = s.task.stageMailbox.respondV2 io := by
    unfold I2cTask.readReply
    rw [if_pos hv2]
    rfl
  unfold MailboxRun.recordRead
  rw [hreply]
  rcases I2cTask.respondV2_held hsound io with ⟨hempty, hrespond⟩ |
    ⟨r, hfull, hrespond⟩
  · rw [hempty, List.append_nil] at hall
    rw [hrespond]
    refine ⟨_, rfl, hs.withRead hsound hqueue (.inl ⟨?_, rfl, rfl⟩)
      ⟨done, ?_, ?_⟩, .inl hheld⟩
    · simp only [hall, hcount]
    · rw [hall, hempty, List.append_nil]
    · rw [hconsumed, List.append_nil]
  · have hlength : (s.staged ++ stagedFromQueue s.task).length =
        s.consumed.length + 1 := by
      rw [hall, hfull, hcount, List.length_append]
      rfl
    have hfront : (s.staged ++ stagedFromQueue s.task)[s.consumed.length]? =
        some r := by
      rw [hall, hfull, hcount, List.getElem?_concat_length]
    rcases hrespond with hrespond | ⟨hheader, hrespond⟩
    · rw [hrespond]
      have hentry : Shown.Belongs (s.staged ++ stagedFromQueue s.task)
          ⟨s.consumed.length, (s.staged ++ stagedFromQueue s.task).length,
            r.header, none⟩ := by
        refine .inr ⟨hlength, r, hfront, rfl, ?_⟩
        intro body hbody
        cases hbody
      refine ⟨_, rfl, hs.withRead hsound hqueue hentry ⟨done, hall, ?_⟩,
        .inl hheld⟩
      rw [hconsumed, List.append_nil]
    · rw [hrespond]
      have hentry : Shown.Belongs (s.staged ++ stagedFromQueue s.task)
          ⟨s.consumed.length, (s.staged ++ stagedFromQueue s.task).length,
            r.header, some r.payload⟩ := by
        refine .inr ⟨hlength, r, hfront, rfl, ?_⟩
        intro body hbody
        cases hbody
        rfl
      cases hdone : decide (io.body = some .done) with
      | true =>
          have hbody : io.body = some .done := of_decide_eq_true hdone
          have hempty := PacketV2.Mailbox.completeBody_sound hsound true
          refine ⟨_, rfl, hs.withRead hempty hqueue hentry
            ⟨done ++ [r], ?_, ?_⟩, .inr ⟨hheader, hbody⟩⟩
          · simp only [hall, hfull, PacketV2.Mailbox.held_completeBody, if_true,
              List.append_nil]
          · rw [hconsumed, List.map_append]
            rfl
      | false =>
          refine ⟨_, rfl, hs.withRead hsound hqueue hentry ⟨done, hall, ?_⟩,
            .inl hheld⟩
          rw [hconsumed, List.append_nil]

theorem Delivers.step
    (hs : s.Delivers) {event : I2cEvent} (hkeeps : s.Keeps event)
    (h : s.step config event = some t) :
    t.Delivers ∧
      ((∃ more, t.task.mailbox.held = s.task.mailbox.held ++ more) ∨
        event.CompletesBody) := by
  cases event with
  | write w =>
      obtain ⟨hnext, -, hheld⟩ := hs.recordWrite hkeeps h
      exact ⟨hnext, .inl ⟨_, hheld⟩⟩
  | read io =>
      obtain ⟨next, hread, hnext, hheld⟩ := hs.recordRead hkeeps io
      have hsame : s.recordRead io = some t := h
      rw [hread] at hsame
      cases hsame
      exact ⟨hnext, hheld.imp_left fun hkept => ⟨_, hkept⟩⟩
  | writeRead w io =>
      obtain ⟨middle, hwrite, hread⟩ := Option.bind_eq_some_iff.mp h
      obtain ⟨hmiddle, hv2, hfirst⟩ := hs.recordWrite hkeeps hwrite
      obtain ⟨next, hread', hnext, hheld⟩ := hmiddle.recordRead hv2 io
      rw [hread'] at hread
      cases hread
      refine ⟨hnext, hheld.imp_left fun hkept => ?_⟩
      rw [hfirst, List.append_assoc] at hkept
      exact ⟨_, hkept⟩
  | generalCall =>
      cases h
      exact ⟨hs, .inl ⟨[], (List.append_nil _).symm⟩⟩
  | busError =>
      have hsame : t.Delivers ∧ t.task.mailbox = s.task.mailbox := by
        unfold MailboxRun.step I2cTask.step at h
        cases hv2 : s.task.v2 with
        | true =>
            simp only [hv2, if_true] at h
            cases h
            exact ⟨hs, rfl⟩
        | false =>
            simp only [hv2, Bool.false_eq_true, if_false] at h
            cases h
            exact ⟨⟨hs.sound, hs.queue, hs.staged_eq, hs.shown_belongs⟩, rfl⟩
      refine ⟨hsame.1, .inl ⟨[], ?_⟩⟩
      rw [hsame.2, List.append_nil]
  | queueResponse packet =>
      cases h
      refine ⟨⟨hs.sound, hs.queue.push hkeeps, hs.staged_eq, hs.shown_belongs⟩,
        .inl ⟨[], (List.append_nil _).symm⟩⟩
  | takeRequest =>
      cases h
      exact ⟨⟨hs.sound, hs.queue, hs.staged_eq, hs.shown_belongs⟩,
        .inl ⟨[], (List.append_nil _).symm⟩⟩

theorem Delivers.readReply_isSome
    (hs : s.Delivers) (hv2 : s.task.v2 = true) (io : ReadIo) :
    (s.task.readReply io).isSome := by
  obtain ⟨next, hread, -⟩ := hs.recordRead hv2 io
  obtain ⟨reply, hreply, -⟩ := Option.map_eq_some_iff.mp hread
  rw [hreply]
  rfl

/-- In every run of the second version the header of the mailbox is there to
be read, each read shows the first packet not consumed, a packet leaves the
mailbox only when its body was read to the end, and the packets read so are
the packets staged, in order. -/
theorem mailbox_consumes_staged
    {events : List I2cEvent}
    (hreach : Runs.ReachesWhile (step config) Keeps start events s) :
    (∀ io, s.task.v2 = true → (s.task.readReply io).isSome) ∧
      (∀ w io task, ¬IsSlotWrite s.task w.raw →
        s.task.written config w = some task → (task.readReply io).isSome) ∧
      (∀ entry ∈ s.shown, entry.Belongs s.staged) ∧
      (∀ event t r, s.Keeps event → s.step config event = some t →
        s.task.mailbox.held = [r] →
          t.task.mailbox.held = [r] ∨ event.CompletesBody) ∧
      ∃ done, s.staged = done ++ s.task.mailbox.held ∧
        s.consumed = done.map fun r => (r.header, r.payload) := by
  have hs : s.Delivers := hreach.invariant
    (fun _ _ _ hinv hkeeps hstep => (hinv.step hkeeps hstep).1) start_delivers
  refine ⟨fun io hv2 => hs.readReply_isSome hv2 io, ?_, hs.shown_belongs, ?_,
    hs.staged_eq⟩
  · intro w io task hslot hwritten
    have hwrite : s.recordWrite config w =
        some { s with
          task := task
          staged := s.staged ++ stagedLocally config s.task w } := by
      unfold MailboxRun.recordWrite
      rw [hwritten]
      rfl
    obtain ⟨hnext, hv2, -⟩ := hs.recordWrite hslot hwrite
    exact hnext.readReply_isSome hv2 io
  · intro event t r hkeeps hstep hheld
    rcases (hs.step hkeeps hstep).2 with ⟨more, hmore⟩ | hbody
    · left
      rw [hheld] at hmore
      have hlength : t.task.mailbox.held.length ≤ 1 := by
        unfold PacketV2.Mailbox.held
        split <;> simp
      have hnone : more = [] := by
        rw [hmore, List.length_append] at hlength
        apply List.eq_nil_of_length_eq_zero
        simp only [List.length_cons, List.length_nil] at hlength
        omega
      rw [hmore, hnone, List.append_nil]
    · exact .inr hbody

instance (s : I2cTask) (raw : List UInt8) : Decidable (IsSlotWrite s raw) :=
  inferInstanceAs (Decidable (_ ∧ _))

instance (packet : I2cPacket) : Decidable (IsResponse packet) :=
  inferInstanceAs (Decidable (_ ∧ _))

instance (s : MailboxRun) : (event : I2cEvent) → Decidable (s.Keeps event)
  | .write w => inferInstanceAs (Decidable (¬IsSlotWrite s.task w.raw))
  | .read _ => inferInstanceAs (Decidable (_ = _))
  | .writeRead w _ => inferInstanceAs (Decidable (¬IsSlotWrite s.task w.raw))
  | .generalCall => isTrue trivial
  | .busError => isTrue trivial
  | .queueResponse packet => inferInstanceAs (Decidable (IsResponse packet))
  | .takeRequest => isTrue trivial

/-- A response is peeked at and its body aborted before it is read. -/
theorem mailbox_consumes_staged_aborted :
    ∃ s : MailboxRun, s.consumed = [([0xD2, 1, 2, 0], [7, 8])] ∧ s.shown.length = 4 ∧
      (∀ entry ∈ s.shown, entry.Belongs s.staged) := by
  let select : BusWrite := ⟨0, CommandRuntime.idle, PacketV2.select⟩
  let events : List I2cEvent :=
    [.write select, .read ⟨some .done, none⟩,
      .queueResponse ⟨1, ⟨[7, 8], by decide⟩⟩, .read ⟨some .done, none⟩,
      .read ⟨some .needMoreBytes, some .leftoverBytes⟩, .write select,
      .read ⟨some .needMoreBytes, some .done⟩]
  have hrun : (events.foldlM (Runs.guarded (step BridgeConfig.i2cServer) Keeps)
      start).any fun s => decide (s.consumed = [([0xD2, 1, 2, 0], [7, 8])] ∧
        s.shown.length = 4) := by
    decide +kernel
  obtain ⟨s, hreach, hs⟩ := (Option.any_eq_true _ _).mp hrun
  obtain ⟨hconsumed, hshown⟩ := of_decide_eq_true hs
  exact ⟨s, hconsumed, hshown,
    (mailbox_consumes_staged (.of_guarded hreach)).2.2.1⟩

end MailboxRun

end I2c
end PicoFi
