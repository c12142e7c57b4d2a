import PicoFi.I2cRetention

/-!
# What the host reads of a queued frame

The session queues every network frame of up to 4096 bytes.  A slot read
wraps it in a link frame inside a packet buffer of the same size, and the
mailbox of the second version has no header for more than 4092 bytes.  Both
reads give the host the whole payload exactly when it fits the smaller bound;
a longer one is cut by the first and dropped by the second.
-/

namespace PicoFi
namespace I2c

open Buffer LinkFrame Mailbox

/-! ## Reading a message slot by slot -/

def slotKind (raw : List UInt8) : UInt8 := raw.getD 3 0

def slotEnds (raw : List UInt8) : Bool := raw.getD 4 0 &&& flagEnd != 0

def slotData (raw : List UInt8) : List UInt8 :=
  slice raw slotHeaderSize
    (slotHeaderSize + u16le (raw.getD 14 0) (raw.getD 15 0))

/-- The host reads slots until one ends its message. -/
inductive MessageRead : I2cTask → List (List UInt8) → I2cTask → Prop
  | last {s t : I2cTask} {raw : List UInt8} (hread : s.readSlot = (t, .slot raw))
      (hend : slotEnds raw = true) : MessageRead s [raw] t
  | more {s t u : I2cTask} {raw : List UInt8} {rest : List (List UInt8)}
      (hread : s.readSlot = (t, .slot raw)) (hopen : slotEnds raw = false)
      (hrest : MessageRead t rest u) : MessageRead s (raw :: rest) u

theorem MessageRead.deterministic
    {s t t' : I2cTask} {slots slots' : List (List UInt8)}
    (hread : MessageRead s slots t) (hread' : MessageRead s slots' t') :
    slots = slots' ∧ t = t' := by
  induction hread generalizing slots' t' with
  | last hslot hend =>
      cases hread' with
      | last hslot' hend' =>
          rw [hslot] at hslot'
          cases hslot'
          exact ⟨rfl, rfl⟩
      | more hslot' hopen' hrest' =>
          rw [hslot] at hslot'
          cases hslot'
          rw [hend] at hopen'
          cases hopen'
  | more hslot hopen hrest ih =>
      cases hread' with
      | last hslot' hend' =>
          rw [hslot] at hslot'
          cases hslot'
          rw [hopen] at hend'
          cases hend'
      | more hslot' hopen' hrest' =>
          rw [hslot] at hslot'
          cases hslot'
          obtain ⟨rfl, rfl⟩ := ih hrest'
          exact ⟨rfl, rfl⟩

/-! ## The slots of a message on the wire -/

namespace Message

variable (m : Message)

theorem slotEnds_slot (i : ℕ) :
    slotEnds (m.slot i) = decide (i + 1 = m.slotCount) := by
  have hflags : (m.slot i).getD 4 0 = m.slotFlags i := rfl
  rw [slotEnds, hflags, slotFlags]
  by_cases hlast : i + 1 = m.slotCount
  · rw [if_pos hlast, decide_eq_true hlast]
    split <;> decide
  · rw [if_neg hlast, decide_eq_false hlast]
    split <;> decide

theorem slotData_slot (i : ℕ) :
    slotData (m.slot i) =
      slice m.payload (slotPayloadSize * i)
        (slotPayloadSize * i + slotPayloadSize) := by
  set offset := slotPayloadSize * i with hoffset
  set len := min (m.payload.length - offset) slotPayloadSize with hlen
  set chunk := slice m.payload offset (offset + slotPayloadSize) with hchunk
  have hle : len ≤ slotPayloadSize := Nat.min_le_right _ _
  have hchunkLen : chunk.length = len := by
    rw [hchunk, slice, List.length_drop, List.length_take]
    omega
  have hdata : (FixedBytes.padded chunk :
      FixedBytes slotPayloadSize).toList.take len = chunk := by
    rw [FixedBytes.toList_padded _ (by rw [hchunkLen]; exact hle),
      List.take_left' hchunkLen]
  have hagain : (FixedBytes.padded ((FixedBytes.padded chunk :
      FixedBytes slotPayloadSize).toList.take len) :
        FixedBytes slotPayloadSize).toList.take len = chunk := by
    rw [hdata, hdata]
  have hfield : u16le ((m.slot i).getD 14 0) ((m.slot i).getD 15 0) = len := by
    refine u16le_ofNat ?_
    simp only [slotPayloadSize, slotSize, slotHeaderSize] at hle
    omega
  obtain ⟨header, hheader, hslot⟩ : ∃ header : List UInt8,
      header.length = slotHeaderSize ∧
        m.slot i = header ++ (FixedBytes.padded
          ((FixedBytes.padded chunk : FixedBytes slotPayloadSize).toList.take len) :
            FixedBytes slotPayloadSize).toList := ⟨_, rfl, rfl⟩
  have hslice := @slice_append_right _ header (FixedBytes.padded
    ((FixedBytes.padded chunk : FixedBytes slotPayloadSize).toList.take len) :
      FixedBytes slotPayloadSize).toList slotHeaderSize (slotHeaderSize + len)
    (by rw [hheader])
  rw [slotData, hfield, hslot, hslice, hheader, Nat.sub_self,
    Nat.add_sub_cancel_left, slice_zero, hagain]

theorem flatMap_slotData : m.slots.flatMap slotData = m.payload := by
  have hparts : ∀ n, ((List.range n).map m.slot).flatMap slotData =
      m.payload.take (slotPayloadSize * n) := by
    intro n
    induction n with
    | zero => simp
    | succ n ih =>
        rw [List.range_succ, List.map_append, List.flatMap_append, ih]
        simp only [List.map_cons, List.map_nil, List.flatMap_singleton,
          slotData_slot, slice]
        rw [List.drop_take, Nat.add_sub_cancel_left, Nat.mul_succ, List.take_add]
  rw [slots, hparts, List.take_of_length_le]
  simp only [slotCount, slotPayloadSize, slotSize, slotHeaderSize]
  omega

theorem messageRead
    {s : I2cTask} {i : ℕ} (haligned : s.txPacket.Aligned)
    (hi : i < m.slotCount)
    (hremaining : s.txPacket.remaining = m.slots.drop i) :
    ∃ t, MessageRead s (m.slots.drop i) t := by
  induction hleft : m.slotCount - (i + 1) generalizing s i with
  | zero =>
      have hlast : i + 1 = m.slotCount := by omega
      have hdone : m.slots.drop i = [m.slot i] := by
        rw [m.drop_slots hi, m.drop_slots_last hlast]
      rw [hdone] at hremaining ⊢
      obtain ⟨hslot, -⟩ := readSlot_pending haligned hremaining
      refine ⟨_, .last (Prod.ext rfl hslot) ?_⟩
      rw [slotEnds_slot, decide_eq_true hlast]
  | succ left ih =>
      have hmore : i + 1 < m.slotCount := by omega
      rw [m.drop_slots hi] at hremaining ⊢
      obtain ⟨hslot, hrest, -, -, hnext⟩ := readSlot_pending haligned hremaining
      obtain ⟨t, hread⟩ := ih hnext hmore hrest (by omega)
      refine ⟨t, .more (Prod.ext rfl hslot) ?_ hread⟩
      rw [slotEnds_slot, decide_eq_false (by omega)]

end Message

theorem messageRead_fresh
    {s : I2cTask} {packet : I2cPacket} {m : Message}
    (hread : s.txPacket.hasPending = false)
    (hpop : s.rxResp.tryPop.2 = some packet)
    (hmessage : (s.txPacket.stageBridgePacket s.lastTransferId packet).message =
      m) :
    ∃ t, MessageRead s m.slots t := by
  obtain ⟨haligned, hremaining, hsame⟩ :=
    stageResponsePacket_fresh hread hpop hmessage
  have hwhole : s.stageResponsePacket.txPacket.remaining = m.slots.drop 0 :=
    hremaining
  obtain ⟨t, hstaged⟩ := m.messageRead haligned m.slotCount_pos hwhole
  rw [List.drop_zero] at hstaged
  refine ⟨t, ?_⟩
  generalize m.slots = slots at hstaged ⊢
  cases hstaged with
  | last hslot hend =>
      rw [hsame] at hslot
      exact .last hslot hend
  | more hslot hopen hrest =>
      rw [hsame] at hslot
      exact .more hslot hopen hrest

/-! ## The two ways to read -/

/-- The slots the host reads next carry the payload in its link frame, or say
that there was an error. -/
def SlotReadsDeliver (s : I2cTask) (payload : List UInt8) : Prop :=
  ∃ slots t, MessageRead s slots t ∧
    ((∀ raw ∈ slots, slotKind raw = kindError) ∨
      parseRequestBytes (slots.flatMap slotData) = some (.data payload))

def wholeRead : ReadIo := ⟨some .needMoreBytes, some .done⟩

/-- The mailbox read next shows the payload, or says that there was an
error. -/
def MailboxReadDelivers (s : I2cTask) (payload : List UInt8) : Prop :=
  ∃ t header body, s.readV2 wholeRead =
      some (t, .packet header (some (body, true))) ∧
    ((PacketV2.decode header = .ok (PacketV2.data, payload.length) ∧
        body = payload) ∨
      ∃ len, PacketV2.decode header = .ok (PacketV2.error, len))

section Reads

variable {s : I2cTask} {packet : I2cPacket}

theorem slotReadsDeliver_iff
    (hkind : packet.kind = kindData) (hread : s.txPacket.hasPending = false)
    (hpop : s.rxResp.tryPop.2 = some packet) :
    SlotReadsDeliver s packet.payload.asSlice ↔
      packet.payload.asSlice.length ≤ framedMax := by
  set payload := packet.payload.asSlice with hpayload
  set m : Message := ⟨kindData, s.lastTransferId,
    framed (reqDataMagic, respDataMagic) (payload.take framedMax)⟩ with hm
  have hmessage : (s.txPacket.stageBridgePacket s.lastTransferId packet).message =
      m := by
    rw [TxPacketState.stageBridgePacket, if_pos hkind,
      TxPacketState.message_stageFramed _ rfl, hkind]
  obtain ⟨t, hslots⟩ := messageRead_fresh hread hpop hmessage
  have hparse : parseRequestBytes (m.slots.flatMap slotData) =
      some (.data (payload.take framedMax)) := by
    have hshort : (payload.take framedMax).length < 65536 := by
      simp only [List.length_take, framedMax, i2cPacketMax, frameHeaderSize]
      omega
    have hframed := @parseRequestBytes_framed_data (payload.take framedMax) []
      hshort
    rw [List.append_nil] at hframed
    rw [m.flatMap_slotData]
    exact hframed
  have hfirst : m.slot 0 ∈ m.slots := by
    rw [m.slots_eq_cons]
    exact List.mem_cons_self
  constructor
  · rintro ⟨slots, t', hother, hcases⟩
    obtain ⟨rfl, -⟩ := hslots.deterministic hother
    rcases hcases with herror | hdata
    · have hequal : kindData = kindError := herror _ hfirst
      exact absurd hequal (by decide)
    · rw [hparse] at hdata
      injection hdata with hdata
      injection hdata with hdata
      exact List.take_eq_self_iff payload |>.mp hdata
  · intro hle
    refine ⟨_, t, hslots, .inr ?_⟩
    rw [hparse, List.take_of_length_le hle]

theorem mailboxReadDelivers_iff
    (hkind : packet.kind = kindData) (hnonempty : packet.payload.asSlice ≠ [])
    (hempty : s.mailbox.pending = false)
    (hpop : s.rxResp.tryPop.2 = some packet) :
    MailboxReadDelivers s packet.payload.asSlice ↔
      packet.payload.asSlice.length ≤ PacketV2.maxPayload := by
  obtain ⟨rxResp, hboth⟩ : ∃ rxResp, s.rxResp.tryPop = (rxResp, some packet) :=
    ⟨_, Prod.ext rfl hpop⟩
  constructor
  · rintro ⟨t, header, body, hreply, -⟩
    by_contra hlong
    have hrefused := s.mailbox.stage_oversize packet.kind
      (Nat.lt_of_not_le hlong)
    have hdropped : s.stageMailbox = { s with rxResp := rxResp } := by
      simp only [I2cTask.stageMailbox, hempty, Bool.false_eq_true, if_false,
        hboth, hrefused]
    obtain ⟨shown, -, hpair⟩ := Option.map_eq_some_iff.mp hreply
    rw [hdropped, if_neg (fun h => by simp [hempty] at h)] at hpair
    cases hpair
  · intro hle
    obtain ⟨mailbox, hstage, hmailboxKind, hmailboxPayload⟩ :=
      @PacketV2.Mailbox.stage_fitting s.mailbox kindData _ hempty
        (by decide) (by decide) hnonempty hle
    have hstaged : s.stageMailbox =
        { s with rxResp := rxResp, mailbox := mailbox } := by
      simp only [I2cTask.stageMailbox, hempty, Bool.false_eq_true, if_false,
        hboth, hkind, hstage]
    have hlen : mailbox.len = packet.payload.asSlice.length := by
      rw [← mailbox.length_payload, hmailboxPayload]
    have hheader : PacketV2.header mailbox.kind mailbox.len =
        .ok ([PacketV2.magic, kindData] ++
          le16 packet.payload.asSlice.length) := by
      rw [hmailboxKind, hlen]
      exact PacketV2.header_eq_ok.mpr ⟨hle, by decide,
        fun h => absurd h (by decide), rfl⟩
    have hdecode := PacketV2.decode_header hheader
    rw [hmailboxKind, hlen] at hdecode
    have hpending : mailbox.pending = true := by
      rw [PacketV2.Mailbox.pending, hmailboxKind]
      rfl
    refine ⟨{ s with rxResp := rxResp, mailbox := mailbox.completeBody true }, _,
      _, ?_, .inl ⟨hdecode, hmailboxPayload⟩⟩
    simp [I2cTask.readV2, hstaged, I2cTask.respondV2, PacketV2.Mailbox.header,
      hheader, Except.toOption, wholeRead, hpending, hmailboxPayload, hnonempty]

end Reads

/-! ## Every accepted length -/

/-- For a network frame of 1 to 4096 bytes at the front of the response queue,
both ways to read hand the host the whole payload or an error exactly when
the payload has at most 4092 bytes. -/
theorem both_reads_deliver_iff
    {s : I2cTask} {packet : I2cPacket} {payload : List UInt8}
    (hpayload : 1 ≤ payload.length ∧ payload.length ≤ i2cPacketMax)
    (hpacket : makePacket kindData payload = some packet)
    (hread : s.txPacket.hasPending = false) (hempty : s.mailbox.pending = false)
    (hpop : s.rxResp.tryPop.2 = some packet) :
    (SlotReadsDeliver s payload ∧ MailboxReadDelivers s payload) ↔
      payload.length ≤ 4092 := by
  obtain ⟨data, hdata, hnew⟩ := Option.map_eq_some_iff.mp hpacket
  have hslice : packet.payload.asSlice = payload := by
    have happend := BoundedVec.asSlice_of_extendFromSlice hdata
    rw [← hnew, happend]
    rfl
  have hkind : packet.kind = kindData := by rw [← hnew]
  have hnonempty : packet.payload.asSlice ≠ [] := by
    rw [hslice]
    intro hnil
    rw [hnil] at hpayload
    exact absurd hpayload.1 (by decide)
  have hslots := slotReadsDeliver_iff hkind hread hpop
  have hmailbox := mailboxReadDelivers_iff hkind hnonempty hempty hpop
  rw [hslice] at hslots hmailbox
  rw [hslots, hmailbox]
  exact and_self_iff

theorem both_reads_deliver_hello :
    SlotReadsDeliver (queuedTask ⟨kindData, ⟨ascii "hello", by decide⟩⟩)
        (ascii "hello") ∧
      MailboxReadDelivers (queuedTask ⟨kindData, ⟨ascii "hello", by decide⟩⟩)
        (ascii "hello") := by
  have hpacket : makePacket kindData (ascii "hello") =
      some ⟨kindData, ⟨ascii "hello", by decide⟩⟩ := rfl
  exact (both_reads_deliver_iff ⟨by decide, by decide⟩ hpacket rfl rfl
    (tryPop_queuedTask _)).mpr (by decide)

/-- One byte more than fits a link frame in a packet. -/
def longFrame : BoundedVec UInt8 i2cPacketMax :=
  ⟨List.replicate 4093 0, by
    rw [List.length_replicate]
    decide⟩

/-- The session queues the frame, the slots cut it and the mailbox drops it. -/
theorem long_frame_not_delivered :
    makePacket kindData longFrame.asSlice = some ⟨kindData, longFrame⟩ ∧
      (queuedTask ⟨kindData, longFrame⟩).rxResp.tryPop.2 =
        some ⟨kindData, longFrame⟩ ∧
      ¬SlotReadsDeliver (queuedTask ⟨kindData, longFrame⟩) longFrame.asSlice ∧
      ¬MailboxReadDelivers (queuedTask ⟨kindData, longFrame⟩)
        longFrame.asSlice := by
  have hlen : longFrame.asSlice.length = 4093 := List.length_replicate
  have hpop := tryPop_queuedTask ⟨kindData, longFrame⟩
  have hdata : (BoundedVec.new : BoundedVec UInt8 i2cPacketMax).extendFromSlice
      longFrame.asSlice = some longFrame :=
    BoundedVec.extendFromSlice_eq_some _ _ _ rfl
  refine ⟨?_, hpop, ?_, ?_⟩
  · rw [makePacket, hdata]
    rfl
  · intro hdelivered
    have hle := (slotReadsDeliver_iff rfl rfl hpop).mp hdelivered
    rw [hlen] at hle
    exact absurd hle (by decide)
  · intro hdelivered
    have hnonempty : longFrame.asSlice ≠ [] := by
      intro hnil
      rw [hnil] at hlen
      cases hlen
    have hle := (mailboxReadDelivers_iff rfl hnonempty rfl hpop).mp hdelivered
    rw [hlen] at hle
    exact absurd hle (by decide)

end I2c
end PicoFi
