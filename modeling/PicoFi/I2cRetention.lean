import PicoFi.I2cTask

/-!
# Staged messages are read slot by slot

The run records which messages were staged for slot reads and which slots
the reads handed out.  As long as no write is answered while a staged message
is unread, the slots handed out are those of the staged messages in order,
each from its first offset to its end.  A write that is answered in between
replaces the rest of the message.
-/

namespace PicoFi
namespace I2c

open Buffer LinkFrame Mailbox

/-! ## Runs with a record of slots -/

def SlotAction.Stages : SlotAction → Bool
  | .answer _ _ _ => true
  | .refuse _ _ => true
  | _ => false

/-- The task, the messages staged for slot reads and the slots handed out,
both in order.  The zeros of an idle read are no slot. -/
structure SlotRun where
  task : I2cTask
  staged : List Message
  emitted : List (List UInt8)

section Record

variable (config : BridgeConfig)

def stagedByWrite (s : I2cTask) (w : BusWrite) : List Message :=
  match s.writeAction config w with
  | some (s, action) =>
      if action.Stages then [(s.perform action).txPacket.message] else []
  | none => []

def stagedByRead (s : I2cTask) : List Message :=
  if s.v2 ∨ s.txPacket.hasPending then []
  else
    match s.rxResp.tryPop.2 with
    | some resp => [(s.txPacket.stageBridgePacket s.lastTransferId resp).message]
    | none => []

def stagedBy (s : I2cTask) : I2cEvent → List Message
  | .write w => stagedByWrite config s w
  | .read _ => stagedByRead s
  | .writeRead w _ =>
      stagedByWrite config s w ++ ((s.written config w).map stagedByRead).getD []
  | .busError =>
      if s.v2 then [] else [s.recoverI2cState.txPacket.message]
  | _ => []

def emittedSlots : Option BusReply → List (List UInt8)
  | some (.slot bytes) =>
      if bytes = List.replicate slotSize 0 then [] else [bytes]
  | _ => []

def SlotRun.start : SlotRun := ⟨I2cTask.start, [], []⟩

def SlotRun.step (s : SlotRun) (event : I2cEvent) : Option SlotRun :=
  (s.task.step config event).map fun (task, reply) =>
    { task := task
      staged := s.staged ++ stagedBy config s.task event
      emitted := s.emitted ++ emittedSlots reply }

end Record

/-! ## Writes that ask for no reply -/

/-- A complete packet that is answered: a local command, or an unframed
packet of an unknown kind. -/
def AsksReply (kind : UInt8) (payload : List UInt8) : Prop :=
  match parseRequestBytes payload with
  | some (.command commandPayload) => LooksLikeLocalCommand commandPayload
  | some (.data _) => False
  | none =>
      (kind = kindCommand ∧ LooksLikeLocalCommand payload) ∨
        (kind ≠ kindCommand ∧ kind ≠ kindData)

/-- The slot is well formed, continues the reassembly, and completes no packet
that is answered. -/
def QuietSlot (rxPacket : RxPacketState) (now : ℕ) (raw : List UInt8) : Prop :=
  match decodeSlot raw with
  | .error _ => False
  | .ok none => True
  | .ok (some slot) =>
      match rxPacket.pushSlot now slot with
      | some (_, .error _) => False
      | some (rxPacket, .ok (some (kind, _, totalLen))) =>
          ¬AsksReply kind (rxPacket.payload.toList.take totalLen)
      | _ => True

/-- The write is taken for a slot of the first version. -/
def IsSlotWrite (s : I2cTask) (raw : List UInt8) : Prop :=
  raw ≠ PacketV2.select ∧ raw.head? ≠ some PacketV2.magic ∧
    (s.v2 = true →
      raw.length = slotSize ∧ raw.take 3 = [slotMagic0, slotMagic1, slotVersion])

def QuietWrite (s : I2cTask) (w : BusWrite) : Prop :=
  IsSlotWrite s w.raw → QuietSlot s.rxPacket w.now (w.raw.take slotSize)

/-- While a staged message is unread, writes ask for no reply and the bus
reports no error. -/
def KeepsStaged (s : SlotRun) : I2cEvent → Prop
  | .write w => s.task.txPacket.hasPending = true → QuietWrite s.task w
  | .writeRead w _ => s.task.txPacket.hasPending = true → QuietWrite s.task w
  | .busError => s.task.txPacket.hasPending = true → s.task.v2 = true
  | _ => True

theorem stages_forwardData
    (transferId : UInt16) {payload : List UInt8}
    (hlen : payload.length ≤ i2cPacketMax) :
    (forwardData transferId payload).Stages = false := by
  have hdata : (BoundedVec.new : BoundedVec UInt8 i2cPacketMax).extendFromSlice
      payload = some ⟨payload, hlen⟩ :=
    BoundedVec.extendFromSlice_eq_some _ _ _ rfl
  rw [forwardData, makePacket, hdata]
  rfl

theorem stages_processCompletePacket
    (config : BridgeConfig) (runtime : CommandRuntime) {kind : UInt8}
    (transferId : UInt16) {payload : List UInt8}
    (hlen : payload.length ≤ i2cPacketMax) (hquiet : ¬AsksReply kind payload) :
    (processCompletePacket config runtime kind transferId payload).Stages =
      false := by
  unfold AsksReply at hquiet
  unfold processCompletePacket
  cases hparse : parseRequestBytes payload with
  | none =>
      simp only [hparse, not_or, not_and, not_not] at hquiet
      by_cases hcommand : kind = kindCommand
      · simp only [hcommand, if_true, if_neg (hquiet.1 hcommand)]
        exact stages_forwardData transferId hlen
      · have hkind := hquiet.2 hcommand
        simp only [if_neg hcommand, if_pos hkind]
        split
        · rfl
        · exact stages_forwardData transferId hlen
  | some frame =>
      cases frame with
      | command commandPayload =>
          simp only [hparse] at hquiet
          have hinner := length_of_parseRequestBytes (.inr hparse)
          simp only [if_neg hquiet]
          exact stages_forwardData transferId (by omega)
      | data dataPayload =>
          have hinner := length_of_parseRequestBytes (.inl hparse)
          simp only
          split
          · rfl
          · exact stages_forwardData transferId (by omega)

theorem stages_handleWriteSlot
    {config : BridgeConfig} {runtime : CommandRuntime} {s t : I2cTask}
    {now : ℕ} {raw : List UInt8} {action : SlotAction}
    (hquiet : QuietSlot s.rxPacket now raw)
    (hwrite : s.handleWriteSlot config runtime now raw = some (t, action)) :
    action.Stages = false := by
  unfold QuietSlot at hquiet
  unfold I2cTask.handleWriteSlot at hwrite
  cases hdecode : decodeSlot raw with
  | error msg => simp [hdecode] at hquiet
  | ok decoded =>
      cases decoded with
      | none =>
          simp only [hdecode, Option.some.injEq, Prod.mk.injEq] at hwrite
          rw [← hwrite.2]
          rfl
      | some slot =>
          simp only [hdecode] at hwrite hquiet
          cases hpush : s.rxPacket.pushSlot now slot with
          | none => simp [hpush] at hwrite
          | some pushed =>
              obtain ⟨rxPacket, reply⟩ := pushed
              cases reply with
              | error msg => simp [hpush] at hquiet
              | ok complete =>
                  cases complete with
                  | none =>
                      simp only [hpush, Option.some.injEq, Prod.mk.injEq]
                        at hwrite
                      rw [← hwrite.2]
                      rfl
                  | some complete =>
                      obtain ⟨kind, transferId, totalLen⟩ := complete
                      simp only [hpush] at hwrite hquiet
                      obtain ⟨payload, hpayload, hpair⟩ :=
                        Option.map_eq_some_iff.mp hwrite
                      unfold slice? at hpayload
                      split at hpayload
                      next hbounds =>
                        have hslice : payload =
                            rxPacket.payload.toList.take totalLen := by
                          rw [← Option.some.inj hpayload, slice_zero]
                        have hlen : payload.length ≤ i2cPacketMax := by
                          rw [hslice, List.length_take,
                            rxPacket.payload.length_toList]
                          exact Nat.min_le_right _ _
                        rw [← hslice] at hquiet
                        rw [← (Prod.mk.inj hpair).2]
                        exact stages_processCompletePacket config runtime
                          transferId hlen hquiet
                      next => cases hpayload

/-! ## What a write does to the transmit state -/

theorem txPacket_handleV2Write
    {config : BridgeConfig} {runtime : CommandRuntime} {s t : I2cTask}
    {raw : List UInt8} (h : s.handleV2Write config runtime raw = some t) :
    t.txPacket = s.txPacket := by
  unfold I2cTask.handleV2Write at h
  repeat' split at h
  all_goals first
    | cases h
      rfl
    | cases h

theorem txPacket_receive
    {config : BridgeConfig} {runtime : CommandRuntime} {s t : I2cTask}
    {raw : List UInt8} (h : s.receive config runtime raw = some t) :
    t.txPacket = s.txPacket := by
  unfold I2cTask.receive at h
  split at h
  · cases h
    rfl
  · split at h
    · have htx := txPacket_handleV2Write h
      exact htx
    · split at h
      · cases h
        rfl
      · cases h
        rfl

theorem txPacket_handleWriteSlot
    {config : BridgeConfig} {runtime : CommandRuntime} {s t : I2cTask}
    {now : ℕ} {raw : List UInt8} {action : SlotAction}
    (h : s.handleWriteSlot config runtime now raw = some (t, action)) :
    t.txPacket = s.txPacket := by
  unfold I2cTask.handleWriteSlot at h
  split at h
  · cases h
    rfl
  · split at h
    · cases h
    · obtain ⟨payload, -, hpair⟩ := Option.map_eq_some_iff.mp h
      rw [← (Prod.mk.inj hpair).1]
    · cases h
      rfl
    · cases h
      rfl
  · cases h
    rfl

theorem txPacket_writeAction
    {config : BridgeConfig} {s t : I2cTask} {w : BusWrite} {action : SlotAction}
    (h : s.writeAction config w = some (t, action)) :
    t.txPacket = s.txPacket := by
  obtain ⟨received, hreceive, haction⟩ := Option.bind_eq_some_iff.mp h
  have htx := txPacket_receive hreceive
  split at haction
  · cases haction
    exact htx
  · exact (txPacket_handleWriteSlot haction).trans htx

theorem receive_slotWrite
    (config : BridgeConfig) (runtime : CommandRuntime) {s : I2cTask}
    {raw : List UInt8} (hslot : IsSlotWrite s raw) :
    s.receive config runtime raw = some { s with v2 := false } := by
  obtain ⟨hselect, hmagic, hheader⟩ := hslot
  unfold I2cTask.receive
  rw [if_neg hselect, if_neg hmagic]
  split
  · rfl
  · next hother =>
    cases hv2 : s.v2 with
    | true => exact absurd (hheader hv2) hother
    | false =>
        rw [← hv2]

theorem receive_other
    {config : BridgeConfig} {runtime : CommandRuntime} {s t : I2cTask}
    {raw : List UInt8} (hslot : ¬IsSlotWrite s raw)
    (h : s.receive config runtime raw = some t) : t.v2 = true := by
  have hv2Write : ∀ u : I2cTask, u.v2 = true →
      u.handleV2Write config runtime raw = some t → t.v2 = true := by
    intro u hu hwrite
    unfold I2cTask.handleV2Write at hwrite
    repeat' split at hwrite
    all_goals first
      | cases hwrite
        exact hu
      | cases hwrite
  unfold I2cTask.receive at h
  split at h
  · cases h
    rfl
  · next hselect =>
    split at h
    · exact hv2Write _ rfl h
    · next hmagic =>
      have hv2 : s.v2 = true ∧ ¬(raw.length = slotSize ∧
          raw.take 3 = [slotMagic0, slotMagic1, slotVersion]) := by
        by_contra hnot
        refine hslot ⟨hselect, hmagic, fun hv2 => ?_⟩
        by_contra hheader
        exact hnot ⟨hv2, hheader⟩
      rw [if_neg hv2.2] at h
      cases h
      exact hv2.1

theorem stages_writeAction
    {config : BridgeConfig} {s t : I2cTask} {w : BusWrite} {action : SlotAction}
    (hquiet : QuietWrite s w) (h : s.writeAction config w = some (t, action)) :
    action.Stages = false := by
  obtain ⟨received, hreceive, haction⟩ := Option.bind_eq_some_iff.mp h
  by_cases hslot : IsSlotWrite s w.raw
  · rw [receive_slotWrite config w.runtime hslot] at hreceive
    cases hreceive
    simp only [Bool.false_eq_true, if_false] at haction
    exact stages_handleWriteSlot (s := { s with v2 := false }) (hquiet hslot)
      haction
  · rw [if_pos (receive_other hslot hreceive)] at haction
    cases haction
    rfl

theorem exists_stage_stageFramed
    (tx : TxPacketState) (magic kind : UInt8) (transferId : UInt16)
    (payload : List UInt8) :
    ∃ kind' bytes, tx.stageFramed magic kind transferId payload =
      tx.stage kind' transferId bytes := by
  unfold TxPacketState.stageFramed
  split
  · exact ⟨_, _, rfl⟩
  · exact ⟨_, _, rfl⟩

theorem exists_stage_stageBridgePacket
    (tx : TxPacketState) (transferId : UInt16) (packet : I2cPacket) :
    ∃ kind bytes, tx.stageBridgePacket transferId packet =
      tx.stage kind transferId bytes := by
  unfold TxPacketState.stageBridgePacket
  split
  · exact exists_stage_stageFramed _ _ _ _ _
  · split
    · exact exists_stage_stageFramed _ _ _ _ _
    · split
      · exact exists_stage_stageFramed _ _ _ _ _
      · exact ⟨_, _, rfl⟩

theorem txPacket_perform
    (s : I2cTask) (action : SlotAction) :
    (action.Stages = false ∧ (s.perform action).txPacket = s.txPacket) ∨
      (action.Stages = true ∧ ∃ kind transferId bytes,
        (s.perform action).txPacket = s.txPacket.stage kind transferId bytes) := by
  cases action with
  | ignore => exact .inl ⟨rfl, rfl⟩
  | forward packet => exact .inl ⟨rfl, rfl⟩
  | answer transferId magic text =>
      obtain ⟨kind, bytes, hstage⟩ := exists_stage_stageFramed s.txPacket magic
        kindCommand transferId text
      exact .inr ⟨rfl, kind, transferId, bytes, hstage⟩
  | refuse transferId msg => exact .inr ⟨rfl, kindError, transferId, msg, rfl⟩

theorem txPacket_readV2
    {s t : I2cTask} {io : ReadIo} {reply : BusReply}
    (h : s.readV2 io = some (t, reply)) :
    t.txPacket = s.txPacket ∧ emittedSlots (some reply) = [] := by
  have hstage : s.stageMailbox.txPacket = s.txPacket := by
    unfold I2cTask.stageMailbox
    split
    · rfl
    · split
      · split
        · rfl
        · rfl
      · rfl
  obtain ⟨header, -, hpair⟩ := Option.map_eq_some_iff.mp h
  rw [← hstage]
  split at hpair
  · cases hpair
    exact ⟨rfl, rfl⟩
  · cases hpair
    exact ⟨rfl, rfl⟩

/-! ## The order of the slots -/

/-- The slots handed out and those still to come are the slots of the staged
messages, in order. -/
structure InOrder (s : SlotRun) : Prop where
  aligned : s.task.txPacket.Aligned
  slots_eq : s.emitted ++ s.task.txPacket.remaining =
    s.staged.flatMap Message.slots

namespace InOrder

theorem ofStart : InOrder SlotRun.start := ⟨TxPacketState.new_aligned, rfl⟩

theorem ofUnchanged
    {s t : SlotRun} (hs : InOrder s) (htx : t.task.txPacket = s.task.txPacket)
    (hstaged : t.staged = s.staged) (hemitted : t.emitted = s.emitted) :
    InOrder t := by
  constructor
  · rw [htx]
    exact hs.aligned
  · rw [hemitted, htx, hstaged]
    exact hs.slots_eq

theorem ofStage
    {s t : SlotRun} (hs : InOrder s) (hread : s.task.txPacket.hasPending = false)
    {kind : UInt8} {transferId : UInt16} {bytes : List UInt8}
    (htx : t.task.txPacket = s.task.txPacket.stage kind transferId bytes)
    (hstaged : t.staged = s.staged ++ [t.task.txPacket.message])
    (hemitted : t.emitted = s.emitted) : InOrder t := by
  have hnothing := TxPacketState.remaining_of_inactive hread
  have hslots := hs.slots_eq
  rw [hnothing, List.append_nil] at hslots
  constructor
  · rw [htx]
    exact TxPacketState.stage_aligned _ _ _ _
  · rw [hemitted, hstaged, List.flatMap_append, List.flatMap_singleton, htx,
      TxPacketState.remaining_stage, hslots]

theorem afterWrite
    {config : BridgeConfig} {s : SlotRun} (hs : InOrder s) {w : BusWrite}
    (hkeeps : s.task.txPacket.hasPending = true → QuietWrite s.task w)
    {t : I2cTask} (hwritten : s.task.written config w = some t) :
    InOrder ⟨t, s.staged ++ stagedByWrite config s.task w, s.emitted⟩ := by
  obtain ⟨⟨mid, action⟩, haction, ht⟩ := Option.map_eq_some_iff.mp hwritten
  have hmid := txPacket_writeAction haction
  have hrecord : stagedByWrite config s.task w =
      if action.Stages then [t.txPacket.message] else [] := by
    rw [stagedByWrite, haction, ← ht]
  rcases txPacket_perform mid action with
    ⟨hstages, htx⟩ | ⟨hstages, kind, transferId, bytes, htx⟩
  · refine hs.ofUnchanged ?_ ?_ rfl
    · rw [← hmid, ← htx, ← ht]
    · simp only [hrecord, hstages, Bool.false_eq_true, if_false, List.append_nil]
  · have hread : s.task.txPacket.hasPending = false := by
      by_contra hpending
      have hquiet := stages_writeAction
        (hkeeps (Bool.eq_true_of_not_eq_false hpending)) haction
      rw [hquiet] at hstages
      cases hstages
    have hstage : t.txPacket = s.task.txPacket.stage kind transferId bytes := by
      rw [← hmid, ← htx, ← ht]
    refine hs.ofStage hread hstage ?_ rfl
    simp only [hrecord, hstages, if_true]

theorem afterReadSlot
    {s : SlotRun} (hs : InOrder s) (hv2 : s.task.v2 = false) :
    InOrder ⟨s.task.readSlot.1, s.staged ++ stagedByRead s.task,
      s.emitted ++ emittedSlots (some s.task.readSlot.2)⟩ := by
  have hstaged : InOrder ⟨s.task.stageResponsePacket,
      s.staged ++ stagedByRead s.task, s.emitted⟩ := by
    unfold stagedByRead I2cTask.stageResponsePacket
    cases hpending : s.task.txPacket.hasPending with
    | true =>
        exact hs.ofUnchanged rfl (by simp) rfl
    | false =>
        simp only [hv2, Bool.false_eq_true, or_self, if_false]
        rcases hpop : s.task.rxResp.tryPop with ⟨rxResp, _ | resp⟩
        · have hnothing := TxPacketState.remaining_of_inactive hpending
          have hslots := hs.slots_eq
          rw [hnothing] at hslots
          constructor
          · intro hactive
            cases hactive
          · simp only [List.append_nil]
            exact hslots
        · obtain ⟨kind, bytes, hstage⟩ := exists_stage_stageBridgePacket
            s.task.txPacket s.task.lastTransferId resp
          exact hs.ofStage hpending hstage rfl rfl
  set mid := s.task.stageResponsePacket with hmid
  have hread : s.task.readSlot =
      ({ mid with txPacket := mid.txPacket.nextSlotBytes.1 },
        .slot mid.txPacket.nextSlotBytes.2) := rfl
  rw [hread]
  cases hactive : mid.txPacket.active with
  | false =>
      rw [TxPacketState.nextSlotBytes_inactive hactive]
      refine hstaged.ofUnchanged rfl rfl ?_
      simp [emittedSlots]
  | true =>
      obtain ⟨hnext, haligned⟩ := hstaged.aligned.nextSlotBytes hactive
      have hslot := TxPacketState.nextSlotBytes_ne_idle hactive
      have hslots := hstaged.slots_eq
      simp only [hnext] at hslots
      constructor
      · exact haligned
      · simp only [emittedSlots, if_neg hslot, List.append_assoc,
          List.singleton_append]
        exact hslots

theorem afterReply
    {s : SlotRun} (hs : InOrder s) {io : ReadIo} {t : I2cTask} {reply : BusReply}
    (hreply : s.task.readReply io = some (t, reply)) :
    InOrder ⟨t, s.staged ++ stagedByRead s.task,
      s.emitted ++ emittedSlots (some reply)⟩ := by
  unfold I2cTask.readReply at hreply
  cases hv2 : s.task.v2 with
  | false =>
      rw [hv2, if_neg Bool.false_ne_true, Option.some.injEq] at hreply
      have hslot := hs.afterReadSlot hv2
      rw [hreply] at hslot
      exact hslot
  | true =>
      rw [hv2, if_pos rfl] at hreply
      obtain ⟨htx, hheader⟩ := txPacket_readV2 hreply
      refine hs.ofUnchanged htx ?_ ?_
      · simp [stagedByRead, hv2]
      · rw [hheader, List.append_nil]

theorem afterStep
    {config : BridgeConfig} {s t : SlotRun} {event : I2cEvent} (hs : InOrder s)
    (hkeeps : KeepsStaged s event) (hstep : s.step config event = some t) :
    InOrder t := by
  obtain ⟨⟨task, reply⟩, htask, ht⟩ := Option.map_eq_some_iff.mp hstep
  rw [← ht]
  cases event with
  | write w =>
      obtain ⟨next, hwritten, hnext⟩ := Option.map_eq_some_iff.mp htask
      cases hnext
      exact (hs.afterWrite hkeeps hwritten).ofUnchanged rfl rfl (by
        simp [emittedSlots])
  | read io =>
      obtain ⟨⟨next, shown⟩, hreply, hnext⟩ := Option.map_eq_some_iff.mp htask
      cases hnext
      exact hs.afterReply hreply
  | writeRead w io =>
      obtain ⟨mid, hwritten, hrest⟩ := Option.bind_eq_some_iff.mp htask
      obtain ⟨⟨next, shown⟩, hreply, hnext⟩ := Option.map_eq_some_iff.mp hrest
      cases hnext
      have hboth := (hs.afterWrite hkeeps hwritten).afterReply hreply
      refine hboth.ofUnchanged rfl ?_ rfl
      simp only [stagedBy, hwritten, Option.map_some, Option.getD_some,
        List.append_assoc]
  | generalCall =>
      cases htask
      exact hs.ofUnchanged rfl (by simp [stagedBy]) (by simp [emittedSlots])
  | busError =>
      simp only [I2cTask.step] at htask
      cases hv2 : s.task.v2 with
      | true =>
          rw [hv2, if_pos rfl] at htask
          cases htask
          exact hs.ofUnchanged rfl (by simp [stagedBy, hv2])
            (by simp [emittedSlots])
      | false =>
          rw [hv2, if_neg Bool.false_ne_true] at htask
          cases htask
          have hread : s.task.txPacket.hasPending = false := by
            by_contra hpending
            have hkept := hkeeps (Bool.eq_true_of_not_eq_false hpending)
            rw [hv2] at hkept
            cases hkept
          exact hs.ofStage hread rfl (by simp [stagedBy, hv2])
            (by simp [emittedSlots])
  | queueResponse packet =>
      cases htask
      exact hs.ofUnchanged rfl (by simp [stagedBy]) (by simp [emittedSlots])
  | takeRequest =>
      cases htask
      exact hs.ofUnchanged rfl (by simp [stagedBy]) (by simp [emittedSlots])

end InOrder

/-! ## Runs -/

theorem readSlot_pending
    {s : I2cTask} {slot : List UInt8} {rest : List (List UInt8)}
    (haligned : s.txPacket.Aligned)
    (hremaining : s.txPacket.remaining = slot :: rest) :
    s.readSlot.2 = .slot slot ∧ s.readSlot.1.txPacket.remaining = rest ∧
      stagedByRead s = [] ∧ emittedSlots (some s.readSlot.2) = [slot] ∧
      s.readSlot.1.txPacket.Aligned := by
  have hactive : s.txPacket.active = true := by
    by_contra hinactive
    rw [TxPacketState.remaining_of_inactive
      (Bool.eq_false_of_not_eq_true hinactive)] at hremaining
    cases hremaining
  have hpending : s.txPacket.hasPending = true := hactive
  have hstaged : s.stageResponsePacket = s := by
    rw [I2cTask.stageResponsePacket, if_pos hpending]
  obtain ⟨hnext, hnextAligned⟩ := haligned.nextSlotBytes hactive
  have hidle := TxPacketState.nextSlotBytes_ne_idle hactive
  rw [hremaining] at hnext
  injection hnext with hslot hrest
  rw [← hslot] at hidle
  rw [I2cTask.readSlot, hstaged, hrest, I2cTask.respondSlot, hslot]
  refine ⟨rfl, rfl, ?_, ?_, hnextAligned⟩
  · rw [stagedByRead, if_pos (.inr hpending)]
  · simp only [emittedSlots, ← hslot, if_neg hidle]

/-- In every run that keeps staged messages, the slots handed out so far,
followed by those of the current message still to come, are the slots of the
staged messages in order.  The next slot read hands out the first slot to
come. -/
theorem staged_messages_read_in_order
    (config : BridgeConfig) (events : List I2cEvent) (s : SlotRun)
    (hreach : Runs.ReachesWhile (SlotRun.step config) KeepsStaged SlotRun.start
      events s) :
    s.emitted ++ s.task.txPacket.remaining = s.staged.flatMap Message.slots ∧
      ∀ slot rest, s.task.txPacket.remaining = slot :: rest →
        s.task.readSlot.2 = .slot slot ∧
          s.task.readSlot.1.txPacket.remaining = rest := by
  have hs : InOrder s :=
    hreach.invariant (fun _ _ _ h hk hstep => h.afterStep hk hstep)
      InOrder.ofStart
  refine ⟨hs.slots_eq, ?_⟩
  intro slot rest hremaining
  obtain ⟨hslot, hrest, -⟩ := readSlot_pending hs.aligned hremaining
  exact ⟨hslot, hrest⟩

/-! ## Single steps -/

theorem stageResponsePacket_fresh
    {s : I2cTask} {packet : I2cPacket} {m : Message}
    (hread : s.txPacket.hasPending = false)
    (hpop : s.rxResp.tryPop.2 = some packet)
    (hmessage : (s.txPacket.stageBridgePacket s.lastTransferId packet).message =
      m) :
    s.stageResponsePacket.txPacket.Aligned ∧
      s.stageResponsePacket.txPacket.remaining = m.slots ∧
      s.stageResponsePacket.readSlot = s.readSlot := by
  have hstaged : s.stageResponsePacket =
      { s with
        rxResp := s.rxResp.tryPop.1
        txPacket := s.txPacket.stageBridgePacket s.lastTransferId packet } := by
    obtain ⟨rxResp, hboth⟩ : ∃ rxResp, s.rxResp.tryPop = (rxResp, some packet) :=
      ⟨_, Prod.ext rfl hpop⟩
    simp only [I2cTask.stageResponsePacket, hread, Bool.false_eq_true, if_false,
      hboth]
  obtain ⟨kind, bytes, hstage⟩ := exists_stage_stageBridgePacket
    s.txPacket s.lastTransferId packet
  have hpending : s.stageResponsePacket.txPacket.hasPending = true := by
    rw [hstaged, hstage]
    rfl
  refine ⟨?_, ?_, ?_⟩
  · rw [hstaged, hstage]
    exact s.txPacket.stage_aligned kind s.lastTransferId bytes
  · rw [hstaged, ← hmessage, hstage]
    exact s.txPacket.remaining_stage kind s.lastTransferId bytes
  · have hagain : s.stageResponsePacket.stageResponsePacket =
        s.stageResponsePacket := by
      rw [I2cTask.stageResponsePacket, if_pos hpending]
    rw [I2cTask.readSlot, hagain, I2cTask.readSlot]

theorem readSlot_fresh
    {s : I2cTask} {packet : I2cPacket} {m : Message} (hv2 : s.v2 = false)
    (hread : s.txPacket.hasPending = false)
    (hpop : s.rxResp.tryPop.2 = some packet)
    (hmessage : (s.txPacket.stageBridgePacket s.lastTransferId packet).message =
      m) :
    stagedByRead s = [m] ∧ emittedSlots (some s.readSlot.2) = [m.slot 0] ∧
      s.readSlot.1.txPacket.remaining = m.slots.drop 1 := by
  obtain ⟨haligned, hremaining, hsame⟩ :=
    stageResponsePacket_fresh hread hpop hmessage
  rw [m.slots_eq_cons] at hremaining
  obtain ⟨-, hrest, -, hemitted, -⟩ := readSlot_pending haligned hremaining
  rw [hsame] at hrest hemitted
  refine ⟨?_, hemitted, hrest⟩
  simp only [stagedByRead, hv2, hread, Bool.false_eq_true, or_self, if_false,
    hpop, hmessage]

theorem readSlot_mode (s : I2cTask) : s.readSlot.1.v2 = s.v2 := by
  unfold I2cTask.readSlot I2cTask.stageResponsePacket
  split
  · rfl
  · split
    · rfl
    · rfl

theorem readSlot_lastTransferId (s : I2cTask) :
    s.readSlot.1.lastTransferId = s.lastTransferId := by
  unfold I2cTask.readSlot I2cTask.stageResponsePacket
  split
  · rfl
  · split
    · rfl
    · rfl

theorem step_read
    (config : BridgeConfig) {s : SlotRun} (hv2 : s.task.v2 = false)
    (io : ReadIo) :
    s.step config (.read io) =
      some ⟨s.task.readSlot.1, s.staged ++ stagedByRead s.task,
        s.emitted ++ emittedSlots (some s.task.readSlot.2)⟩ := by
  simp [SlotRun.step, I2cTask.step, I2cTask.readReply, hv2, stagedBy]

theorem step_refused
    (config : BridgeConfig) {s : SlotRun} {w : BusWrite} {msg : List UInt8}
    (hslot : IsSlotWrite s.task w.raw)
    (hdecode : decodeSlot (w.raw.take slotSize) = .error msg) :
    s.step config (.write w) =
      some ⟨{ s.task with
          v2 := false
          txPacket := s.task.txPacket.stageError s.task.lastTransferId msg },
        s.staged ++ [⟨kindError, s.task.lastTransferId, msg.take i2cPacketMax⟩],
        s.emitted⟩ := by
  have haction : s.task.writeAction config w =
      some ({ s.task with v2 := false }, .refuse s.task.lastTransferId msg) := by
    simp [I2cTask.writeAction, receive_slotWrite config w.runtime hslot,
      I2cTask.handleWriteSlot, hdecode]
  have hmessage := TxPacketState.message_stage s.task.txPacket kindError
    s.task.lastTransferId msg
  simp [SlotRun.step, I2cTask.step, I2cTask.written, stagedBy, stagedByWrite,
    haction, SlotAction.Stages, I2cTask.perform, TxPacketState.stageError,
    hmessage, emittedSlots]

theorem step_idleWrite
    (config : BridgeConfig) {s : SlotRun} {w : BusWrite}
    (hslot : IsSlotWrite s.task w.raw)
    (hdecode : decodeSlot (w.raw.take slotSize) = .ok none) :
    s.step config (.write w) =
      some ⟨{ s.task with v2 := false }, s.staged, s.emitted⟩ := by
  have haction : s.task.writeAction config w =
      some ({ s.task with v2 := false }, .ignore) := by
    simp [I2cTask.writeAction, receive_slotWrite config w.runtime hslot,
      I2cTask.handleWriteSlot, hdecode]
  simp [SlotRun.step, I2cTask.step, I2cTask.written, stagedBy, stagedByWrite,
    haction, SlotAction.Stages, I2cTask.perform, emittedSlots]

/-! ## A response of two slots -/

/-- Its link frame has 24 bytes. -/
def longResponse : I2cPacket :=
  ⟨kindData, ⟨List.replicate 20 65, by decide⟩⟩

def longMessage : Message :=
  ⟨kindData, 1, framed (reqDataMagic, respDataMagic) (List.replicate 20 65)⟩

def refusal : Message := ⟨kindError, 1, invalidSlotMsg⟩

theorem slots_longMessage :
    longMessage.slots = [longMessage.slot 0, longMessage.slot 1] := rfl

theorem slots_refusal : refusal.slots = [refusal.slot 0, refusal.slot 1] := rfl

def plainRead : ReadIo := ⟨some .done, none⟩

theorem message_longResponse (tx : TxPacketState) :
    (tx.stageBridgePacket 1 longResponse).message = longMessage := by
  have hkind : longResponse.kind = kindData := rfl
  have hfit : longResponse.payload.asSlice.length ≤ framedMax := by decide
  rw [TxPacketState.stageBridgePacket, if_pos hkind,
    TxPacketState.message_stageFramed _ rfl, List.take_of_length_le hfit]
  rfl

def queuedTask (packet : I2cPacket) : I2cTask :=
  { I2cTask.start with rxResp := (I2cTask.start.rxResp.tryPushRef packet).1 }

theorem tryPop_queuedTask (packet : I2cPacket) :
    (queuedTask packet).rxResp.tryPop.2 = some packet := by
  have hlen : (QueueCodec.wire packet).length =
      packet.payload.asSlice.length + 1 := rfl
  have hbound := packet.payload.length_le
  have haccepted : (I2cTask.start.rxResp.tryPushRef packet).2 = true := by
    rw [OverwriteQueue.tryPushRef_accepted, hlen]
    refine ⟨Nat.succ_pos _, by decide, ?_⟩
    show packet.payload.asSlice.length + 1 ≤ 8192 - 0
    simp only [i2cPacketMax] at hbound
    omega
  have hempty : I2cTask.start.rxResp.contents = [] :=
    OverwriteQueue.contents_empty (by decide)
  have hcontents := OverwriteQueue.contents_of_accepted haccepted
  rw [hempty] at hcontents
  exact OverwriteQueue.tryPop_eq_some I2cPacket.wire_injective hcontents

theorem halfRead :
    ∃ s, Runs.ReachesWhile (SlotRun.step BridgeConfig.i2cServer) KeepsStaged
        SlotRun.start [.queueResponse longResponse, .read plainRead] s ∧
      s.staged = [longMessage] ∧ s.emitted = [longMessage.slot 0] ∧
      s.task.txPacket.remaining = [longMessage.slot 1] ∧
      s.task.v2 = false ∧ s.task.lastTransferId = 1 := by
  set queued : SlotRun := ⟨queuedTask longResponse, [], []⟩ with hqueued
  have hqueue : SlotRun.start.step BridgeConfig.i2cServer
      (.queueResponse longResponse) = some queued := rfl
  have hpop : queued.task.rxResp.tryPop.2 = some longResponse :=
    tryPop_queuedTask longResponse
  have hv2 : queued.task.v2 = false := rfl
  obtain ⟨hstaged, hemitted, hremaining⟩ :=
    readSlot_fresh hv2 rfl hpop (message_longResponse _)
  have hreadStep := step_read BridgeConfig.i2cServer hv2 plainRead
  refine ⟨⟨queued.task.readSlot.1, queued.staged ++ stagedByRead queued.task,
    queued.emitted ++ emittedSlots (some queued.task.readSlot.2)⟩,
    ⟨trivial, queued, hqueue, trivial, _, hreadStep, Eq.refl _⟩, ?_, ?_, ?_, ?_,
    ?_⟩
  · rw [hstaged]
    rfl
  · rw [hemitted]
    rfl
  · rw [hremaining]
    rfl
  · rw [readSlot_mode]
    rfl
  · rw [readSlot_lastTransferId]
    rfl

/-- A slot of zeros, which the host writes while it has nothing to send. -/
def idleWrite : BusWrite := ⟨0, CommandRuntime.idle, List.replicate slotSize 0⟩

def shortWrite : BusWrite := ⟨0, CommandRuntime.idle, [0]⟩

theorem isSlotWrite_of_zero
    {s : I2cTask} {raw : List UInt8} (hv2 : s.v2 = false)
    (hzero : raw.head? = some 0) : IsSlotWrite s raw := by
  refine ⟨?_, ?_, ?_⟩
  · rintro rfl
    cases hzero
  · rw [hzero]
    decide
  · intro hmode
    rw [hv2] at hmode
    cases hmode

/-- An idle write between the two slot reads leaves the response staged. -/
theorem staged_messages_read_in_order_idleWrite :
    ∃ s, Runs.Reaches (SlotRun.step BridgeConfig.i2cServer) SlotRun.start
        [.queueResponse longResponse, .read plainRead, .write idleWrite] s ∧
      (s.emitted ++ s.task.txPacket.remaining =
          s.staged.flatMap Message.slots ∧
        ∀ slot rest, s.task.txPacket.remaining = slot :: rest →
          s.task.readSlot.2 = .slot slot ∧
            s.task.readSlot.1.txPacket.remaining = rest) := by
  obtain ⟨half, hreach, -, -, -, hv2, -⟩ := halfRead
  obtain ⟨hqueueKeeps, queued, hqueue, hreadKeeps, read, hread, hhalf⟩ := hreach
  have hslot : IsSlotWrite half.task idleWrite.raw := isSlotWrite_of_zero hv2 rfl
  have hdecode : decodeSlot (idleWrite.raw.take slotSize) = .ok none := by
    decide
  have hquiet : QuietWrite half.task idleWrite := by
    intro _
    rw [QuietSlot, hdecode]
    trivial
  have hwhole : Runs.ReachesWhile (SlotRun.step BridgeConfig.i2cServer)
      KeepsStaged SlotRun.start
      [.queueResponse longResponse, .read plainRead, .write idleWrite]
      ⟨{ half.task with v2 := false }, half.staged, half.emitted⟩ := by
    subst hhalf
    exact ⟨hqueueKeeps, queued, hqueue, hreadKeeps, read, hread,
      fun _ => hquiet, _, step_idleWrite _ hslot hdecode, rfl⟩
  exact ⟨_, hwhole.reaches,
    staged_messages_read_in_order BridgeConfig.i2cServer _ _ hwhole⟩

/-- A write that is no slot replaces the response after its first slot: the
next read starts the refusal, and the second slot of the response is gone. -/
theorem staged_message_replaced :
    ∃ s, Runs.Reaches (SlotRun.step BridgeConfig.i2cServer) SlotRun.start
        [.queueResponse longResponse, .read plainRead, .write shortWrite,
          .read plainRead] s ∧
      s.staged = [longMessage, refusal] ∧
      longMessage.slots = [longMessage.slot 0, longMessage.slot 1] ∧
      s.emitted = [longMessage.slot 0, refusal.slot 0] ∧
      s.emitted ++ s.task.txPacket.remaining ≠
        s.staged.flatMap Message.slots := by
  obtain ⟨half, hreach, hstaged, hemitted, -, hv2, hid⟩ := halfRead
  have hslot : IsSlotWrite half.task shortWrite.raw := isSlotWrite_of_zero hv2 rfl
  have hdecode : decodeSlot (shortWrite.raw.take slotSize) =
      .error invalidSlotMsg := by
    decide
  have hwrite := step_refused BridgeConfig.i2cServer hslot hdecode
  set refused : SlotRun := ⟨{ half.task with
      v2 := false
      txPacket := half.task.txPacket.stageError half.task.lastTransferId
        invalidSlotMsg },
    half.staged ++ [⟨kindError, half.task.lastTransferId,
      invalidSlotMsg.take i2cPacketMax⟩], half.emitted⟩ with hrefused
  have hremaining : refused.task.txPacket.remaining =
      [refusal.slot 0, refusal.slot 1] := by
    have hstage : (half.task.txPacket.stage kindError half.task.lastTransferId
        invalidSlotMsg).remaining = [refusal.slot 0, refusal.slot 1] := by
      rw [TxPacketState.remaining_stage, TxPacketState.message_stage, hid]
      rfl
    exact hstage
  have haligned : refused.task.txPacket.Aligned :=
    TxPacketState.stage_aligned half.task.txPacket kindError
      half.task.lastTransferId invalidSlotMsg
  obtain ⟨-, hrest, hnothing, hslotZero, -⟩ :=
    readSlot_pending haligned hremaining
  have hstagedTwo : refused.staged = [longMessage, refusal] := by
    rw [hrefused, hstaged, hid]
    rfl
  have hemittedOne : refused.emitted = [longMessage.slot 0] := hemitted
  have hread := step_read BridgeConfig.i2cServer (s := refused) rfl plainRead
  rw [hnothing, hslotZero, hstagedTwo, hemittedOne, List.append_nil] at hread
  have hwhole := Runs.reaches_append.mpr ⟨half, hreach.reaches,
    Runs.reaches_cons.mpr ⟨refused, hwrite,
      Runs.reaches_cons.mpr ⟨_, hread, Runs.reaches_nil.mpr rfl⟩⟩⟩
  refine ⟨_, hwhole, rfl, slots_longMessage, rfl, ?_⟩
  intro heq
  have hlength := congrArg List.length heq
  simp [hrest, slots_longMessage, slots_refusal] at hlength

end I2c
end PicoFi
