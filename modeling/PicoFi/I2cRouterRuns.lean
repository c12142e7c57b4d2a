import PicoFi.I2cRouter

/-!
# Runs of the router on the I2C host

Where nothing is lost every response is returned and every payload forwarded,
and a call has the first response that waits after as many polls as its frame
has slots.  In every run the responses come back in order, but as link frames,
and a call that was cut off within a message makes the next one fail.
-/

namespace PicoFi
namespace I2c

open Buffer LinkFrame Mailbox
open I2cHost.Python (RxAssembly Fits turn)

/-! ## Runs -/

structure Routed (lossless : Prop) (config : BridgeConfig) (r : RouterRun) : Prop where
  downlink : ∃ current waiting, Downlink lossless r current waiting
  uplink : Uplink lossless config r

theorem routed_start (lossless : Prop) (config : BridgeConfig) :
    Routed lossless config RouterRun.start where
  downlink := ⟨none, [], ⟨rfl, rfl, rfl⟩, nofun, nofun, nofun, nofun,
    ⟨List.nil_sublist _, fun _ => rfl⟩, fun _ => trivial, fun _ _ => nofun, fun _ => nofun⟩
  uplink := ⟨List.nil_sublist _, ⟨List.nil_sublist _, fun _ => rfl⟩, nofun⟩

/-- The slave has the whole next slot, whether or not the host learns of it. -/
theorem Routed.afterSlot {lossless : Prop} {config : BridgeConfig} {r : RouterRun}
    (hr : Routed lossless config r) {now : ℕ} {runtime : CommandRuntime}
    (hkeeps : lossless → Keeps r (.writeSlot now runtime)) {slot : List UInt8}
    {slots : List (List UInt8)} (hphase : r.phase = .writing (slot :: slots))
    {phase : RouterPhase}
    (hafter : phase = .writing slots ∨ ¬lossless ∧ phase = .failed slots) :
    ∃ task action, r.task.writeAction config ⟨now, runtime, slot⟩ = some (task, action) ∧
      Routed lossless config
        { r with
          task := task.perform action
          phase := phase
          forwarded := r.forwarded ++ action.forwarded } := by
  obtain ⟨current, waiting, hdown⟩ := hr.downlink
  obtain ⟨payload, transferId, n, hw⟩ := hr.uplink.writing slot slots hphase
  obtain ⟨task, action, haction, hsame, hgoes⟩ := hw.write hkeeps
  have hclosed : r.phase.assembly = none := by rw [hphase]; rfl
  obtain ⟨next, hnext⟩ := hdown.afterWritten hclosed hsame action hafter _
  exact ⟨task, action, haction, ⟨next, waiting, hnext⟩,
    hr.uplink.afterWrite hphase (hafter.imp_right And.right) hw hsame hgoes⟩

/-- The slave takes a slot that it has whole and refuses a part of one. -/
theorem Routed.afterWriteError {lossless : Prop} {config : BridgeConfig} {r t : RouterRun}
    (hr : Routed lossless config r) (hlossy : ¬lossless) {count : Option ℕ} {now : ℕ}
    {runtime : CommandRuntime} (hstep : r.step config (.writeError count now runtime) = some t) :
    Routed lossless config t := by
  obtain ⟨current, waiting, hdown⟩ := hr.downlink
  simp only [RouterRun.step] at hstep
  split at hstep
  next slot slots count hphase =>
    have hclosed : r.phase.assembly = none := by rw [hphase]; rfl
    have hunwritten : r.phase.unwritten = slot :: slots := by rw [hphase]; rfl
    obtain ⟨payload, transferId, n, hw⟩ := hr.uplink.writing slot slots hphase
    have hlen : payload.length ≤ i2cPacketMax :=
      hw.length_le.trans (by simp only [payloadLimit, i2cPacketMax]; omega)
    have hsize : slot.length = slotSize := by
      rw [hw.slot_eq]
      exact (Message.slot_carries_packet hlen hw.index_lt).length_eq
    by_cases hpart : count < slotSize
    · obtain ⟨task, haction, hsame⟩ := @writeAction_part config (request transferId payload) n
        count r.task ⟨now, runtime, slot.take count⟩ hdown.holding.version hpart
        (by rw [hw.slot_eq])
      rw [haction, Option.map_some, Option.some.injEq, hsize, if_pos hpart] at hstep
      simp only [SlotAction.forwarded, List.append_nil] at hstep
      subst hstep
      obtain ⟨next, hnext⟩ := hdown.afterWritten hclosed hsame _ (.inr ⟨hlossy, rfl⟩) _
      exact ⟨⟨next, waiting, hnext⟩, hr.uplink.afterFailure hunwritten hsame.ingress_eq⟩
    · obtain ⟨task, action, haction, hnext⟩ := @Routed.afterSlot lossless config r hr now
        runtime (fun hp => absurd hp hlossy) slot slots hphase _ (.inr ⟨hlossy, rfl⟩)
      rw [List.take_of_length_le (by omega), haction, Option.map_some, Option.some.injEq,
        hsize, if_neg hpart] at hstep
      exact hstep ▸ hnext
  next slot slots hphase =>
    have hunwritten : r.phase.unwritten = slot :: slots := by rw [hphase]; rfl
    cases hstep
    exact ⟨⟨current, waiting, hdown.afterFailure hlossy _⟩,
      hr.uplink.afterFailure hunwritten rfl⟩
  next => cases hstep

theorem Routed.afterPollError {lossless : Prop} {config : BridgeConfig} {r t : RouterRun}
    (hr : Routed lossless config r) (hlossy : ¬lossless) {served : Bool} {now : ℕ}
    {io : ReadIo} (hstep : r.step config (.pollError served now io) = some t) :
    Routed lossless config t := by
  obtain ⟨current, waiting, hdown⟩ := hr.downlink
  simp only [RouterRun.step] at hstep
  split at hstep
  next sending deadline assembly hphase =>
    have hunwritten : r.phase.unwritten = [] := by rw [hphase]; rfl
    obtain ⟨-, hstep⟩ := Option.ite_none_right_eq_some.mp hstep
    cases served with
    | true =>
        obtain ⟨task, reply, current, waiting, hreply, hingress, hnext⟩ :=
          hdown.afterLostReply hlossy io
        rw [if_pos rfl, hreply, Option.map_some, Option.some.injEq] at hstep
        subst hstep
        exact ⟨⟨current, waiting, hnext⟩, hr.uplink.afterFailure hunwritten hingress⟩
    | false =>
        rw [if_neg Bool.false_ne_true, Option.some.injEq] at hstep
        subst hstep
        exact ⟨⟨current, waiting, hdown.afterFailure hlossy _⟩,
          hr.uplink.afterFailure hunwritten rfl⟩
  next => cases hstep

theorem Routed.afterStep {lossless : Prop} {config : BridgeConfig} {r t : RouterRun}
    (hr : Routed lossless config r) {e : RouterEvent} (hkeeps : lossless → Keeps r e)
    (hstep : r.step config e = some t) : Routed lossless config t := by
  obtain ⟨current, waiting, hdown⟩ := hr.downlink
  cases e with
  | sendPayload payload =>
      refine ⟨⟨current, waiting, ?_⟩, hr.uplink.afterSend hstep⟩
      simp only [RouterRun.step] at hstep
      split at hstep
      next hphase =>
        obtain ⟨-, hnext⟩ := Option.ite_none_right_eq_some.mp hstep
        cases hnext
        have hclosed : r.phase.assembly = none := by rw [hphase]; rfl
        exact hdown.rephase hclosed (.writing _) rfl trivial (by simp) _ _
      next => cases hstep
  | writeSlot now runtime =>
      simp only [RouterRun.step] at hstep
      split at hstep
      next slot slots hphase =>
        obtain ⟨task, action, haction, hnext⟩ := hr.afterSlot hkeeps hphase (.inl rfl)
        rw [haction, Option.map_some, Option.some.injEq] at hstep
        exact hstep ▸ hnext
      next => cases hstep
  | readBack now =>
      simp only [RouterRun.step] at hstep
      split at hstep
      next hphase =>
        cases hstep
        have hclosed : r.phase.assembly = none := by rw [hphase]; rfl
        have hapart : r.phase.Apart := by rw [hphase]; rfl
        exact ⟨⟨current, waiting, hdown.rephase hclosed (.reading true (now + sendTimeout) none)
          rfl trivial (by simp) r.transferId r.sent⟩,
          hr.uplink.elsewhere hapart rfl rfl rfl rfl rfl⟩
      next => cases hstep
  | recvPayload now timeout =>
      refine ⟨⟨current, waiting, hdown.afterRecv hstep⟩, ?_⟩
      simp only [RouterRun.step] at hstep
      split at hstep
      next payload rest hphase hpending =>
        have hapart : r.phase.Apart := by rw [hphase]; rfl
        cases hstep
        exact hr.uplink.elsewhere hapart hapart rfl rfl rfl rfl
      next hphase hpending =>
        have hapart : r.phase.Apart := by rw [hphase]; rfl
        cases hstep
        exact hr.uplink.elsewhere hapart rfl rfl rfl rfl rfl
      next => cases hstep
  | poll now io => exact ⟨hdown.afterPoll hkeeps hstep, hr.uplink.afterPoll hdown hstep⟩
  | writeError count now runtime =>
      exact hr.afterWriteError (fun hp => (hkeeps hp).elim) hstep
  | pollError served now io => exact hr.afterPollError (fun hp => (hkeeps hp).elim) hstep
  | session act =>
      cases hstep
      obtain ⟨more, hmore⟩ := hdown.afterAct act
      exact ⟨⟨current, more, hmore⟩, uplink_act hr.uplink act⟩
  | busError =>
      obtain ⟨rfl, next, hnext⟩ := hdown.afterBusError hkeeps hstep
      exact ⟨⟨next, waiting, hnext⟩, hr.uplink.afterBusError hkeeps⟩

theorem routed_of_reaches {config : BridgeConfig} {events : List RouterEvent} {r : RouterRun}
    (hreach : Runs.Reaches (RouterRun.step config) RouterRun.start events r) :
    Routed False config r :=
  hreach.invariant (fun _ _ _ hs hstep => hs.afterStep (fun h => h.elim) hstep)
    (routed_start False config)

theorem routed_of_reachesWhile {config : BridgeConfig} {events : List RouterEvent}
    {r : RouterRun}
    (hreach : Runs.ReachesWhile (RouterRun.step config) Keeps RouterRun.start events r) :
    Routed True config r :=
  hreach.invariant (fun _ _ _ hs hkeeps hstep => hs.afterStep (fun _ => hkeeps) hstep)
    (routed_start True config)

/-! ## Armored packets -/

section Armor

variable {P : Type} {serialize : P → List UInt8} {deserialize : List UInt8 → Option P}

theorem decodeArmoredPacket_framed (payload : List UInt8) :
    PacketArmor.decodeArmoredPacket deserialize
      (framed (reqDataMagic, respDataMagic) payload) = none := by
  rw [PacketArmor.decodeArmoredPacket, if_neg]
  rintro ⟨rest, hrest⟩
  have hhead := congrArg List.head? hrest
  exact absurd hhead (show some (83 : UInt8) ≠ some reqDataMagic by decide)

theorem decodeArmoredPacket_deliverable {payloads : List (List UInt8)} {packets : List I2cPacket}
    (hsub : List.Sublist payloads (packets.filterMap deliverable)) :
    payloads.filterMap (PacketArmor.decodeArmoredPacket deserialize) = [] := by
  rw [List.filterMap_eq_nil_iff]
  intro payload hmem
  obtain ⟨packet, -, hpacket⟩ := List.mem_filterMap.mp (hsub.subset hmem)
  rw [deliverable] at hpacket
  split at hpacket
  · cases hpacket
    exact decodeArmoredPacket_framed _
  · cases hpacket

/-- The slave takes an armored packet for plain data. -/
theorem bridged_armorPacket (config : BridgeConfig) {packet : P}
    (hlen : (PacketArmor.armorPacket serialize packet).length ≤ payloadLimit) :
    ∃ item, bridged config (PacketArmor.armorPacket serialize packet) = some item ∧
      item.kind = kindData ∧
      item.payload.asSlice = PacketArmor.armorPacket serialize packet := by
  set armored := PacketArmor.armorPacket serialize packet with harmored
  have hmax : armored.length ≤ i2cPacketMax :=
    hlen.trans (by simp only [payloadLimit, i2cPacketMax]; omega)
  let bounded : BoundedVec UInt8 i2cPacketMax := ⟨armored, hmax⟩
  have hvec : BoundedVec.new.extendFromSlice armored = some bounded :=
    BoundedVec.extendFromSlice_eq_some _ _ _ rfl
  have hparse : parseRequestBytes armored = none := rfl
  have hnot : ¬kindData = kindCommand := by decide
  have hsome : ¬armored = [] := List.cons_ne_nil _ _
  refine ⟨⟨kindData, bounded⟩, ?_, rfl, rfl⟩
  rw [bridged, processCompletePacket, hparse]
  simp only [if_neg hnot, if_true, if_neg hsome, forwardData, makePacket, hvec, Option.map_some]
  rfl

end Armor

/-! ## Calls of `recv_payload` -/

/-- What the session does before a poll, and the poll. -/
structure PollTurn where
  acts : List SessionAct
  now : ℕ
  io : ReadIo

def PollTurn.events (turn : PollTurn) : List RouterEvent :=
  turn.acts.map .session ++ [.poll turn.now turn.io]

section Calls

variable {config : BridgeConfig} {r : RouterRun} {current : Current} {waiting : List I2cPacket}

theorem reaches_acts (hold : Holding r.task current waiting) (acts : List SessionAct) :
    ∃ u more, Runs.ReachesWhile (RouterRun.step config) Keeps r (acts.map .session) u ∧
      Holding u.task current (waiting ++ more) ∧ u.phase = r.phase ∧ u.pending = r.pending ∧
      u.returned = r.returned ∧ u.task.lastTransferId = r.task.lastTransferId := by
  induction acts generalizing r waiting with
  | nil => exact ⟨r, [], rfl, by simpa using hold, rfl, rfl, rfl, rfl⟩
  | cons act acts ih =>
      obtain ⟨more, hnext⟩ : ∃ more, Holding (r.act act).task current (waiting ++ more) := by
        cases act with
        | takeRequest =>
            refine ⟨[], hold.version, hold.shows, ?_⟩
            rw [List.append_nil]
            exact hold.contents
        | queueResponse packet =>
            refine ⟨if (r.task.rxResp.tryPushRef packet).2 then [packet] else [], hold.version,
              hold.shows, ?_⟩
            show (r.task.rxResp.tryPushRef packet).1.contents = _
            rw [r.task.rxResp.contents_push packet, hold.contents, List.map_append]
            split <;> rfl
      have hsame : (r.act act).phase = r.phase ∧ (r.act act).pending = r.pending ∧
          (r.act act).returned = r.returned ∧
          (r.act act).task.lastTransferId = r.task.lastTransferId := by
        cases act <;> exact ⟨rfl, rfl, rfl, rfl⟩
      obtain ⟨u, later, hreach, hold, hphase, hpending, hreturned, hid⟩ := ih hnext
      refine ⟨u, more ++ later, ⟨trivial, _, rfl, hreach⟩, ?_,
        hphase.trans hsame.1, hpending.trans hsame.2.1, hreturned.trans hsame.2.2.1,
        hid.trans hsame.2.2.2⟩
      rwa [← List.append_assoc]

theorem found_append {transferId : UInt16} {entry : Message × ℕ}
    (hfound : (found transferId current waiting).1 = some entry) (more : List I2cPacket) :
    (found transferId current (waiting ++ more)).1 = some entry := by
  rcases current with _ | other
  · rcases waiting with _ | ⟨packet, waiting⟩
    · cases hfound
    · exact hfound
  · exact hfound

/-- Polls in time for the rest of a data message return it. -/
theorem reaches_message {m : Message} {i deadline : ℕ} {assembly : Option RxAssembly}
    {turns : List PollTurn} (hold : Holding r.task current waiting)
    (hphase : r.phase = .reading false deadline assembly)
    (hfound : (found r.task.lastTransferId current waiting).1 = some (m, i))
    (hfits : Fits m i assembly) (hdata : m.kind = kindData) (hpayload : m.payload ≠ [])
    (hturns : turns.length + i = m.slotCount) (hmore : turns ≠ [])
    (htime : ∀ turn ∈ turns, turn.now < deadline) :
    ∃ t, Runs.ReachesWhile (RouterRun.step config) Keeps r
        (turns.flatMap PollTurn.events) t ∧
      t.phase = .idle ∧ t.returned = r.returned ++ [m.payload] := by
  induction turns generalizing r current waiting i assembly with
  | nil => exact absurd rfl hmore
  | cons turn turns ih =>
      obtain ⟨u, more, hacts, hold, hsame, -, hreturned, hid⟩ :=
        @reaches_acts config r current waiting hold turn.acts
      have hfound := found_append hfound more
      rw [← hid] at hfound
      rw [← hsame] at hphase
      have hnow := htime turn (by simp)
      obtain ⟨task, hpoll, hnext, -, hslots⟩ :=
        @step_poll config u current _ false deadline turn.now assembly hold hphase hnow turn.io
      obtain ⟨hi, hsize⟩ := hslots m i hfound
      have hkind : m.kind ≠ kindIdle := by rw [hdata]; decide
      rw [hfound] at hpoll hnext
      simp only [handedOut] at hpoll hnext
      have hintime : Keeps u (.poll turn.now turn.io) := by
        intro _ _ _ hreading
        rw [hphase] at hreading
        cases hreading
        exact hnow
      have hreach : ∀ t, u.step config (.poll turn.now turn.io) = some t →
          ∀ es v, Runs.ReachesWhile (RouterRun.step config) Keeps t es v →
          Runs.ReachesWhile (RouterRun.step config) Keeps r (turn.events ++ es) v := by
        intro t hstep es v hrest
        have hpolled : Runs.ReachesWhile (RouterRun.step config) Keeps u
            [.poll turn.now turn.io] t := ⟨hintime, t, hstep, rfl⟩
        exact (hacts.append hpolled).append hrest
      rw [List.flatMap_cons]
      rcases I2cHost.Python.turn_slot hnow hkind hsize hi hfits with
        ⟨hlast, hturn⟩ | ⟨hopen, a, hholds, hturn⟩
      · have hdone : turns = [] := List.eq_nil_of_length_eq_zero (by
          rw [List.length_cons] at hturns
          omega)
        have hkeep : m.kind = kindData ∧ m.payload ≠ [] := ⟨hdata, hpayload⟩
        rw [hturn] at hpoll
        simp only [RouterRun.afterTurn, RouterRun.afterRead, if_pos hkeep, Bool.false_eq_true,
          if_false] at hpoll
        rw [hdone]
        exact ⟨_, hreach _ hpoll [] _ rfl, rfl, by rw [← hreturned]⟩
      · rw [hturn] at hpoll
        rw [advance_of_lt hopen] at hnext
        have hleft : turns.length + (i + 1) = m.slotCount := by
          rw [List.length_cons] at hturns
          omega
        have hrest : turns ≠ [] := by
          rintro rfl
          rw [List.length_nil] at hleft
          omega
        obtain ⟨t, hlater, hidle, hreturn⟩ :=
          @ih { u with task := task, phase := .reading false deadline (some a) }
            (some (m, i + 1)) _ (i + 1) (some a) hnext rfl rfl (.inr ⟨a, rfl, hholds⟩) hleft hrest
            fun other h => htime other (by simp [h])
        exact ⟨t, hreach _ hpoll _ _ hlater, hidle, by rw [hreturn, ← hreturned]⟩

theorem slotCount_bridgeMessage (transferId : UInt16) {packet : I2cPacket}
    (hdata : packet.kind = kindData) :
    (bridgeMessage transferId packet).slotCount =
      (frameHeaderSize + min packet.payload.asSlice.length framedMax + 13) / 14 := by
  rw [bridgeMessage_data transferId hdata, Message.slotCount, length_framed, List.length_take]
  simp only [frameHeaderSize, framedMax, i2cPacketMax, slotPayloadSize, slotSize, slotHeaderSize]
  omega

/-- A call with a poll in time for each slot of the response that waits first. -/
theorem reaches_response {packet : I2cPacket} (hold : Holding r.task none (packet :: waiting))
    (hidle : r.phase = .idle) (hpending : r.pending = []) (hdata : packet.kind = kindData)
    (now timeout : ℕ) {turns : List PollTurn}
    (hturns : turns.length =
      (frameHeaderSize + min packet.payload.asSlice.length framedMax + 13) / 14)
    (htime : ∀ turn ∈ turns, turn.now < now + timeout) :
    ∃ t, Runs.ReachesWhile (RouterRun.step config) Keeps r
        (.recvPayload now timeout :: turns.flatMap PollTurn.events) t ∧
      t.phase = .idle ∧ t.returned = r.returned ++
        [framed (reqDataMagic, respDataMagic) (packet.payload.asSlice.take framedMax)] := by
  have hbegun : r.step config (.recvPayload now timeout) =
      some { r with phase := .reading false (now + timeout) none } := by
    simp only [RouterRun.step, hidle, hpending]
  have hmessage := bridgeMessage_data r.task.lastTransferId hdata
  have hcount := slotCount_bridgeMessage r.task.lastTransferId hdata
  have hsome : turns ≠ [] := by
    rintro rfl
    rw [List.length_nil] at hturns
    simp only [frameHeaderSize] at hturns
    omega
  obtain ⟨t, hlater, hdone, hreturned⟩ :=
    @reaches_message config { r with phase := .reading false (now + timeout) none } none
      (packet :: waiting) (bridgeMessage r.task.lastTransferId packet) 0 (now + timeout) none
      turns hold rfl rfl (.inl rfl) (by rw [hmessage])
      (by rw [hmessage]; exact List.cons_ne_nil _ _) (by rw [hcount, ← hturns]; rfl) hsome
      htime
  rw [hmessage] at hreturned
  exact ⟨t, ⟨trivial, _, hbegun, hlater⟩, hdone, hreturned⟩

end Calls

/-! ## A response of two slots -/

theorem accepted_first (packet : I2cPacket) :
    (I2cTask.start.rxResp.tryPushRef packet).2 = true := by
  have hlen : (QueueCodec.wire packet).length = packet.payload.asSlice.length + 1 := rfl
  have hbound := packet.payload.length_le
  rw [OverwriteQueue.tryPushRef_accepted, hlen]
  refine ⟨Nat.succ_pos _, by decide, ?_⟩
  show packet.payload.asSlice.length + 1 ≤ 8192 - 0
  simp only [i2cPacketMax] at hbound
  omega

def queuedRun (packet : I2cPacket) : RouterRun :=
  { RouterRun.start with task := queuedTask packet, accepted := [packet] }

theorem step_queuedRun (config : BridgeConfig) (packet : I2cPacket) :
    RouterRun.start.step config (.session (.queueResponse packet)) = some (queuedRun packet) := by
  have hstep : RouterRun.start.step config (.session (.queueResponse packet)) =
      some { RouterRun.start with
        task := queuedTask packet
        accepted := [] ++ if (I2cTask.start.rxResp.tryPushRef packet).2 then [packet] else [] } :=
    rfl
  rw [hstep, accepted_first packet]
  rfl

theorem contents_queuedTask (packet : I2cPacket) :
    (queuedTask packet).rxResp.contents = [QueueCodec.wire packet] := by
  have hempty : I2cTask.start.rxResp.contents = [] :=
    OverwriteQueue.contents_empty (by decide)
  have hcontents := OverwriteQueue.contents_of_accepted (accepted_first packet)
  rw [hempty] at hcontents
  exact hcontents

theorem holding_queuedTask (packet : I2cPacket) : Holding (queuedTask packet) none [packet] :=
  ⟨rfl, rfl, contents_queuedTask packet⟩

/-- One poll a slot, before the second of which the session looks for a request. -/
def twoPolls : List PollTurn := [⟨[], 10, plainRead⟩, ⟨[.takeRequest], 20, plainRead⟩]

def longRead : List RouterEvent :=
  .session (.queueResponse longResponse) ::
    .recvPayload 0 5000 :: twoPolls.flatMap PollTurn.events

theorem reaches_longRead (config : BridgeConfig) :
    ∃ r, Runs.ReachesWhile (RouterRun.step config) Keeps RouterRun.start longRead r ∧
      r.returned = [longMessage.payload] := by
  obtain ⟨r, hreach, -, hreturned⟩ :=
    @reaches_response config (queuedRun longResponse) [] longResponse
      (holding_queuedTask longResponse) rfl rfl rfl 0 5000 twoPolls (by decide) (by decide)
  exact ⟨r, ⟨trivial, _, step_queuedRun config longResponse, hreach⟩, hreturned⟩

/-- Where nothing is lost a reader that has part of a message finds the slave amid it. -/
theorem router_amid_message {config : BridgeConfig} {events : List RouterEvent} {r : RouterRun}
    (hreach : Runs.ReachesWhile (RouterRun.step config) Keeps RouterRun.start events r)
    {a : RxAssembly} (hassembly : r.phase.assembly = some a) :
    r.task.txPacket.nextOffset ≠ 0 := by
  obtain ⟨⟨current, waiting, hdown⟩, -⟩ := routed_of_reachesWhile hreach
  obtain ⟨m, i, rfl, -⟩ := hdown.follows a hassembly
  have hpos := hdown.begun trivial a hassembly m i rfl
  have hat : r.task.txPacket.At m i := hdown.holding.shows
  rw [hat.nextOffset_eq]
  exact Nat.mul_ne_zero (by decide) hpos

/-- The first poll of a call reads the first slot. -/
theorem reaches_firstSlot (config : BridgeConfig) :
    ∃ r a, Runs.ReachesWhile (RouterRun.step config) Keeps RouterRun.start
        [.session (.queueResponse longResponse), .recvPayload 0 5000, .poll 10 plainRead] r ∧
      r.phase = .reading false 5000 (some a) ∧ r.pending = [] := by
  set begun : RouterRun := { queuedRun longResponse with phase := .reading false 5000 none }
  have hqueued := step_queuedRun config longResponse
  have hbegun : (queuedRun longResponse).step config (.recvPayload 0 5000) = some begun := rfl
  obtain ⟨task, hpoll, -, -, hslots⟩ :=
    @step_poll config begun none [longResponse] false 5000 10 none
      (holding_queuedTask longResponse) rfl (by decide) plainRead
  have hid : begun.task.lastTransferId = 1 := rfl
  have hmessage : bridgeMessage 1 longResponse = longMessage := bridgeMessage_data 1 rfl
  simp only [found, handedOut, hid, hmessage] at hpoll hslots
  obtain ⟨hi, hsize⟩ := hslots longMessage 0 rfl
  have hkind : longMessage.kind ≠ kindIdle := show kindData ≠ kindIdle by decide
  have hcount : longMessage.slotCount = 2 := rfl
  rcases I2cHost.Python.turn_slot (by decide : 10 < 5000) hkind hsize hi (.inl rfl) with
    ⟨hlast, -⟩ | ⟨-, a, -, hturn⟩
  · rw [hcount] at hlast
    cases hlast
  · rw [hturn] at hpoll
    exact ⟨_, a, ⟨trivial, _, hqueued, trivial, _, hbegun, by simp [Keeps, begun], _, hpoll,
      rfl⟩, rfl, rfl⟩

/-! ## Whole runs -/

/-- The adapter returns each response at most once and in order, but still in
its link frame, so that a router decodes none of them.  In the other direction
the session takes payloads that were written whole, in order, and an armored
packet goes out as it is.  But for a transfer that fails, the one error that
stops the adapter is a slot without an active transfer. -/
theorem router_forwards_nothing {P : Type} (serialize : P → List UInt8)
    (deserialize : List UInt8 → Option P) (config : BridgeConfig) (events : List RouterEvent)
    (r : RouterRun)
    (hreach : Runs.Reaches (RouterRun.step config) RouterRun.start events r) :
    r.returned.filterMap (PacketArmor.decodeArmoredPacket deserialize) = [] ∧
      List.Sublist (r.returned ++ r.pending) (r.accepted.filterMap deliverable) ∧
      List.Sublist (r.taken.map QueueCodec.wire)
        ((r.written.filterMap (bridged config)).map QueueCodec.wire) ∧
      (∀ packet, (PacketArmor.armorPacket serialize packet).length ≤ payloadLimit →
        ∃ item, bridged config (PacketArmor.armorPacket serialize packet) = some item ∧
          item.kind = kindData ∧
          item.payload.asSlice = PacketArmor.armorPacket serialize packet) ∧
      ∀ e, r.phase = .raised e → e = .noActiveTransfer := by
  obtain ⟨⟨current, waiting, hdown⟩, hup⟩ := routed_of_reaches hreach
  have hsub := (List.sublist_append_left _ _).trans hdown.in_order.1
  refine ⟨decodeArmoredPacket_deliverable ((List.sublist_append_left _ _).trans hsub), hsub, ?_,
    fun packet => bridged_armorPacket config, hdown.raised⟩
  exact (List.sublist_append_left _ _).trans (hup.queue.trans (hup.forwarded.1.map _))

theorem router_forwards_nothing_long :
    ∃ r, Runs.Reaches (RouterRun.step BridgeConfig.i2cServer) RouterRun.start longRead r ∧
      r.returned = [longMessage.payload] ∧
      r.returned.filterMap (PacketArmor.decodeArmoredPacket some) = [] ∧
      ∀ e, r.phase = .raised e → e = .noActiveTransfer := by
  obtain ⟨r, hreach, hreturned⟩ := reaches_longRead BridgeConfig.i2cServer
  obtain ⟨hnothing, -, -, -, hraised⟩ :=
    router_forwards_nothing id some BridgeConfig.i2cServer _ r hreach.reaches
  exact ⟨r, hreach.reaches, hreturned, hnothing, hraised⟩

/-- While no call is cut off within a message, each slot is written in time, no
transfer fails and the bus fails only while nothing is in hand, the adapter runs
on, every payload is forwarded, which the session takes in order but for those
that newer ones have overwritten, and every data response is returned once and in
order, apart from those that the adapter keeps, the one it is reading and those
that still wait. -/
theorem router_loses_nothing (config : BridgeConfig) (events : List RouterEvent) (r : RouterRun)
    (hreach : Runs.ReachesWhile (RouterRun.step config) Keeps RouterRun.start events r) :
    r.phase.Running ∧ r.forwarded = r.written.filterMap (bridged config) ∧
      List.Sublist (r.taken.map QueueCodec.wire ++ r.task.ingress.contents)
        (r.forwarded.map QueueCodec.wire) ∧
      ∃ (reading : List (List UInt8)) (waiting : List I2cPacket),
        r.accepted.filterMap deliverable =
          r.returned ++ r.pending ++ reading ++ waiting.filterMap deliverable ∧
        r.task.rxResp.contents = waiting.map QueueCodec.wire ∧
        reading.length ≤ 1 ∧ (r.phase.assembly = none → reading = []) := by
  obtain ⟨⟨current, waiting, hdown⟩, hup⟩ := routed_of_reachesWhile hreach
  refine ⟨hdown.running trivial, hup.forwarded.2 trivial, hup.queue, underway current, waiting,
    ?_, hdown.holding.contents, ?_, fun hclosed => ?_⟩
  · rw [← hdown.in_order.2 trivial, due, List.append_assoc _ (underway current)]
  · rcases current with _ | ⟨m, i⟩
    · exact Nat.zero_le 1
    · rw [underway]
      split <;> simp
  · rcases current with _ | ⟨m, i⟩
    · rfl
    · exact underway_own (hdown.unbegun trivial hclosed m i rfl).2 i

theorem router_loses_nothing_long :
    ∃ r, Runs.ReachesWhile (RouterRun.step BridgeConfig.i2cServer) Keeps RouterRun.start
        longRead r ∧
      r.returned = [longMessage.payload] ∧ r.phase.Running ∧
      r.forwarded = r.written.filterMap (bridged BridgeConfig.i2cServer) := by
  obtain ⟨r, hreach, hreturned⟩ := reaches_longRead BridgeConfig.i2cServer
  obtain ⟨hrunning, hforwarded, -⟩ := router_loses_nothing _ _ r hreach
  exact ⟨r, hreach, hreturned, hrunning, hforwarded⟩

/-- Where nothing is in hand and a data response is the first to wait,
`recv_payload` returns it with as many polls in time as its frame has slots,
whatever the session does before each of them. -/
theorem recv_payload_returns_first (config : BridgeConfig) (events : List RouterEvent)
    (r : RouterRun) (hreach : Runs.Reaches (RouterRun.step config) RouterRun.start events r)
    (hidle : r.phase = .idle) (hpending : r.pending = [])
    (hfree : r.task.txPacket.active = false) (packet : I2cPacket)
    (hdata : packet.kind = kindData) (rest : List (List UInt8))
    (hfirst : r.task.rxResp.contents = QueueCodec.wire packet :: rest) (now timeout : ℕ)
    (turns : List PollTurn)
    (hturns : turns.length =
      (frameHeaderSize + min packet.payload.asSlice.length framedMax + 13) / 14)
    (htime : ∀ turn ∈ turns, turn.now < now + timeout) :
    ∃ t, Runs.Reaches (RouterRun.step config) r
        (.recvPayload now timeout :: turns.flatMap PollTurn.events) t ∧
      t.phase = .idle ∧ t.returned = r.returned ++
        [framed (reqDataMagic, respDataMagic) (packet.payload.asSlice.take framedMax)] := by
  obtain ⟨⟨current, waiting, hdown⟩, -⟩ := routed_of_reaches hreach
  have hold := hdown.holding
  have hnone : current = none := by
    rcases current with _ | ⟨m, i⟩
    · rfl
    · have hat : r.task.txPacket.At m i := hold.shows
      rw [hat.active_eq] at hfree
      cases hfree
  have hcontents := hold.contents
  rw [hfirst] at hcontents
  cases waiting with
  | nil => cases hcontents
  | cons first waiting =>
      have hsame : packet = first := I2cPacket.wire_injective (List.cons.inj hcontents).1
      subst hnone hsame
      obtain ⟨t, hlater, hdone, hreturned⟩ :=
        @reaches_response config r waiting packet hold hidle hpending hdata now timeout turns
          hturns htime
      exact ⟨t, hlater.reaches, hdone, hreturned⟩

theorem recv_payload_returns_first_long :
    ∃ t, Runs.Reaches (RouterRun.step BridgeConfig.i2cServer) (queuedRun longResponse)
        (.recvPayload 0 5000 :: twoPolls.flatMap PollTurn.events) t ∧
      t.phase = .idle ∧ t.returned = [longMessage.payload] :=
  recv_payload_returns_first BridgeConfig.i2cServer [.session (.queueResponse longResponse)]
    (queuedRun longResponse)
    (Runs.reaches_cons.mpr ⟨_, step_queuedRun _ _, Runs.reaches_nil.mpr rfl⟩) rfl rfl rfl
    longResponse rfl [] (contents_queuedTask longResponse) 0 5000 twoPolls (by decide)
    (by decide)

/-- A call that runs out of time while the slave is amid a message makes the next
one fail at its first poll, whatever the session does in between. -/
theorem cut_call_fails_next (config : BridgeConfig) (events : List RouterEvent) (r : RouterRun)
    (hreach : Runs.Reaches (RouterRun.step config) RouterRun.start events r)
    (sending : Bool) (deadline : ℕ) (a : RxAssembly)
    (hphase : r.phase = .reading sending deadline (some a))
    (hamid : r.task.txPacket.nextOffset ≠ 0) (hpending : r.pending = [])
    (late : ℕ) (hlate : deadline ≤ late) (acts : List SessionAct) (now timeout first : ℕ)
    (hfirst : first < now + timeout) (io io' : ReadIo) :
    ∃ t, Runs.Reaches (RouterRun.step config) r (.poll late io :: (acts.map .session ++
        [.recvPayload now timeout, .poll first io'])) t ∧
      t.phase = .raised .noActiveTransfer := by
  obtain ⟨⟨current, waiting, hdown⟩, -⟩ := routed_of_reaches hreach
  have hassembly : r.phase.assembly = some a := by rw [hphase]; rfl
  obtain ⟨m, i, rfl, -⟩ := hdown.follows a hassembly
  have hat : r.task.txPacket.At m i := hdown.holding.shows
  have hpos : i ≠ 0 := by
    rintro rfl
    exact hamid hat.nextOffset_eq
  have hcut : r.step config (.poll late io) = some { r with phase := .idle } := by
    simp only [RouterRun.step, hphase, if_neg (Nat.not_lt.mpr hlate),
      I2cHost.Python.turn_late (Nat.not_lt.mpr hlate)]
    rfl
  obtain ⟨u, more, hacts, hold, hidle, hnothing, -, -⟩ :=
    @reaches_acts config { r with phase := .idle } _ _ hdown.holding acts
  have hbegun : u.step config (.recvPayload now timeout) =
      some { u with phase := .reading false (now + timeout) none } := by
    simp only [RouterRun.step, hidle, hnothing, hpending]
  obtain ⟨task, hpoll, -, -, hslots⟩ :=
    @step_poll config { u with phase := .reading false (now + timeout) none } _ _ false
      (now + timeout) first none hold rfl hfirst io'
  obtain ⟨hi, hsize⟩ := hslots m i rfl
  have hturn := I2cHost.Python.turn_torn hfirst (hdown.known m i rfl).1 hsize hi hpos
  simp only [found, handedOut, hturn] at hpoll
  refine ⟨{ u with task := task, phase := .raised .noActiveTransfer },
    Runs.reaches_cons.mpr ⟨_, hcut, Runs.reaches_append.mpr ⟨u, hacts.reaches, ?_⟩⟩, rfl⟩
  exact Runs.reaches_cons.mpr ⟨_, hbegun, Runs.reaches_cons.mpr ⟨_, hpoll,
    Runs.reaches_nil.mpr rfl⟩⟩

theorem cut_call_fails_next_long :
    ∃ r t, Runs.Reaches (RouterRun.step BridgeConfig.i2cServer) r
        (.poll 5000 plainRead :: ([].map .session ++
          [.recvPayload 6000 5000, .poll 6010 plainRead])) t ∧
      t.phase = .raised .noActiveTransfer := by
  obtain ⟨r, a, hreach, hphase, hpending⟩ := reaches_firstSlot BridgeConfig.i2cServer
  have hamid := router_amid_message hreach (a := a) (by rw [hphase]; rfl)
  exact ⟨r, cut_call_fails_next _ _ r hreach.reaches false 5000 a hphase hamid hpending 5000
    le_rfl [] 6000 5000 6010 (by decide) plainRead plainRead⟩

end I2c
end PicoFi
