import PicoFi.SlotTransfer
import PicoFi.I2cRetention

/-!
# Responses over slots

A staged packet is handed out slot by slot until the transmit state is
inactive again.  Both host readers make the packet of these slots, whatever
idle slots they read before the first one.
-/

namespace PicoFi
namespace I2c

open Buffer LinkFrame Mailbox

/-! ## Handing out a whole message -/

namespace TxPacketState

def takeSlots (s : TxPacketState) : ℕ → TxPacketState × List (List UInt8)
  | 0 => (s, [])
  | n + 1 =>
      let rest := s.nextSlotBytes.1.takeSlots n
      (rest.1, s.nextSlotBytes.2 :: rest.2)

theorem active_of_remaining
    {s : TxPacketState} {raw : List UInt8} {slots : List (List UInt8)}
    (hremaining : s.remaining = raw :: slots) : s.active = true := by
  cases hactive : s.active with
  | true => rfl
  | false =>
      rw [remaining_of_inactive hactive] at hremaining
      cases hremaining

theorem Aligned.inactive_of_remaining
    {s : TxPacketState} (haligned : s.Aligned) (hremaining : s.remaining = []) :
    s.active = false := by
  cases hactive : s.active with
  | false => rfl
  | true =>
      rw [(haligned.nextSlotBytes hactive).1] at hremaining
      cases hremaining

/-- The state stays active until its last slot was handed out. -/
theorem Aligned.takeSlots
    {s : TxPacketState} (haligned : s.Aligned) :
    (s.takeSlots s.remaining.length).2 = s.remaining ∧
      (s.takeSlots s.remaining.length).1.active = false ∧
      ∀ n < s.remaining.length, (s.takeSlots n).1.active = true := by
  induction hslots : s.remaining generalizing s with
  | nil =>
      refine ⟨rfl, haligned.inactive_of_remaining hslots, ?_⟩
      intro n hn
      cases hn
  | cons raw slots ih =>
      have hactive := active_of_remaining hslots
      obtain ⟨hnext, hafter⟩ := haligned.nextSlotBytes hactive
      rw [hnext, List.cons.injEq] at hslots
      obtain ⟨hslot, hrest⟩ := hslots
      obtain ⟨hall, hdone, hopen⟩ := ih hafter hrest
      refine ⟨?_, hdone, ?_⟩
      · simp only [List.length_cons, TxPacketState.takeSlots]
        rw [hall, hslot]
      · intro n hn
        cases n with
        | zero => exact hactive
        | succ n => exact hopen n (by simpa using hn)

end TxPacketState

/-- The sync pair of the link frame a response of this kind travels in. -/
def responsePair (kind : UInt8) : UInt8 × UInt8 :=
  if kind = kindData then (reqDataMagic, respDataMagic)
  else (reqCommandMagic, respCommandMagic)

def responseMessage (id : UInt16) (packet : I2cPacket) : Message :=
  ⟨packet.kind, id, framed (responsePair packet.kind) packet.payload.asSlice⟩

theorem message_stageBridgePacket
    (s : TxPacketState) (id : UInt16) {packet : I2cPacket}
    (hkind : packet.kind = kindData ∨ packet.kind = kindCommand ∨
      packet.kind = kindError)
    (hlen : packet.payload.asSlice.length ≤ framedMax) :
    (s.stageBridgePacket id packet).message = responseMessage id packet := by
  have hdata : headerForMagic respDataMagic =
      some (reqDataMagic, respDataMagic) := by decide
  have hcommand : headerForMagic respCommandMagic =
      some (reqCommandMagic, respCommandMagic) := by decide
  have hwhole := List.take_of_length_le hlen
  unfold TxPacketState.stageBridgePacket responseMessage responsePair
  split
  · rw [TxPacketState.message_stageFramed _ hdata, hwhole]
  · next hother =>
    split
    · rw [TxPacketState.message_stageFramed _ hcommand, hwhole]
    · next hlast =>
      have herror : packet.kind = kindError := by
        rcases hkind with h | h | h
        · exact absurd h hother
        · exact absurd h hlast
        · exact h
      rw [if_pos herror, TxPacketState.message_stageFramed _ hcommand, hwhole]

theorem remaining_stageBridgePacket
    (s : TxPacketState) (id : UInt16) (packet : I2cPacket) :
    (s.stageBridgePacket id packet).Aligned ∧
      (s.stageBridgePacket id packet).remaining =
        (s.stageBridgePacket id packet).message.slots := by
  obtain ⟨kind, bytes, hstage⟩ := exists_stage_stageBridgePacket s id packet
  rw [hstage]
  exact ⟨TxPacketState.stage_aligned s kind id bytes,
    TxPacketState.remaining_stage s kind id bytes⟩

end I2c

/-! ## The host library reads the slots -/

namespace I2cHost

open Buffer I2c

theorem decodeSlot_idle {raw : List UInt8} (hidle : IsIdleSlot raw) :
    decodeSlot raw = .ok none := by
  have hskip : raw.all (· == 0x00) ∨ raw.all (· == 0xFF) ∨
      raw.getD 3 0 = I2cHost.kindIdle := by
    rcases hidle.2 with hzero | hones | ⟨-, hkind⟩
    · exact .inl (by simpa using hzero)
    · exact .inr (.inl (by simpa using hones))
    · exact .inr (.inr hkind)
  unfold decodeSlot
  simp only
  rw [if_pos hskip]

theorem readFrom_idle
    {idles : List (List UInt8)} (hidle : ∀ raw ∈ idles, IsIdleSlot raw)
    (s : ReadState) (reads : List (List UInt8)) :
    readFrom s (idles ++ reads) = readFrom s reads := by
  induction idles with
  | nil => rfl
  | cons raw idles ih =>
      rw [List.cons_append, readFrom, decodeSlot_idle (hidle raw (by simp))]
      apply ih
      intro other hother
      exact hidle other (by simp [hother])

section Read

variable {m : Message} {n : ℕ} {s : ReadState}

def decoded (m : Message) (n : ℕ) : DecodedSlot :=
  ⟨m.kind, m.slotFlags n, m.transferId, I2c.slotPayloadSize * n,
    m.payload.length, m.chunk n⟩

theorem decodeSlot_slot
    (hkind : m.kind ≠ I2c.kindIdle) (hlen : m.payload.length < 4294967296)
    (hn : n < m.slotCount) : decodeSlot (m.slot n) = .ok (some (decoded m n)) :=
  (Message.slot_carries hlen hn).decodeSlot_host Message.length_chunk_le hkind

/-- The variables between the first `n` slots of a message and the next. -/
structure ReadState.Holds (m : Message) (n : ℕ) (s : ReadState) : Prop where
  active_eq : s.active = true
  kind_eq : s.kind = m.kind
  transferId_eq : s.transferId = m.transferId
  totalLen_eq : s.totalLen = m.payload.length
  nextOffset_eq : s.nextOffset = s.raw.length
  raw_eq : s.raw = m.payload.take (I2c.slotPayloadSize * n)

theorem ReadState.accept_first (s : ReadState) :
    ∃ t, s.accept (decoded m 0) = .ok t ∧ t.Holds m 1 := by
  have hstart : (decoded m 0).flags &&& flagStart ≠ 0 :=
    Message.slotFlags_start.mpr rfl
  unfold ReadState.accept
  rw [if_pos hstart]
  exact ⟨_, rfl, rfl, rfl, rfl, rfl, rfl, Message.chunk_zero⟩

theorem ReadState.Holds.accept
    (hs : s.Holds m n) (hpos : n ≠ 0) (hn : n < m.slotCount) :
    ∃ t, s.accept (decoded m n) = .ok t ∧ t.Holds m (n + 1) := by
  have hmiddle : ¬(decoded m n).flags &&& flagStart ≠ 0 :=
    mt Message.slotFlags_start.mp hpos
  have hoffset : (decoded m n).offset = s.nextOffset := by
    rw [hs.nextOffset_eq, hs.raw_eq, Message.length_take hn]
    rfl
  unfold ReadState.accept
  rw [if_neg hmiddle, if_pos ⟨hs.active_eq, hs.kind_eq.symm,
    hs.transferId_eq.symm, hoffset⟩]
  refine ⟨_, rfl, hs.active_eq, hs.kind_eq, hs.transferId_eq, hs.totalLen_eq,
    ?_, ?_⟩
  · simp only [List.length_append, hs.nextOffset_eq]
  · simp only [hs.raw_eq]
    exact Message.take_append_chunk

theorem readFrom_slot
    (hkind : m.kind ≠ I2c.kindIdle) (hlen : m.payload.length < 4294967296)
    (hn : n < m.slotCount) {t : ReadState} {reads : List (List UInt8)}
    (haccept : s.accept (decoded m n) = .ok t) (ht : t.Holds m (n + 1)) :
    readFrom s (m.slot n :: reads) =
      if n + 1 = m.slotCount then some (parseResponse m.kind m.payload, reads)
      else readFrom t reads := by
  rw [readFrom, decodeSlot_slot hkind hlen hn]
  simp only [haccept]
  by_cases hlast : n + 1 = m.slotCount
  · have hend : (decoded m n).flags &&& flagEnd ≠ 0 :=
      Message.slotFlags_end.mpr hlast
    have hraw : t.raw = m.payload :=
      ht.raw_eq.trans (Message.take_of_last hlast)
    have hwhole : ¬t.nextOffset ≠ t.totalLen := by
      rw [ht.nextOffset_eq, hraw, ht.totalLen_eq]
      exact not_not.mpr rfl
    rw [if_pos hend, if_neg hwhole, if_pos hlast, ht.kind_eq, hraw]
  · have hmore : ¬(decoded m n).flags &&& flagEnd ≠ 0 :=
      mt Message.slotFlags_end.mp hlast
    rw [if_neg hmore, if_neg hlast]

theorem ReadState.Holds.readFrom
    (hkind : m.kind ≠ I2c.kindIdle) (hlen : m.payload.length < 4294967296)
    (hs : s.Holds m n) (hpos : n ≠ 0) (hn : n < m.slotCount)
    (rest : List (List UInt8)) :
    readFrom s (m.slots.drop n ++ rest) =
      some (parseResponse m.kind m.payload, rest) := by
  induction hleft : m.slotCount - n generalizing s n with
  | zero => omega
  | succ left ih =>
      obtain ⟨t, haccept, ht⟩ := hs.accept hpos hn
      rw [m.drop_slots hn, List.cons_append,
        readFrom_slot hkind hlen hn haccept ht]
      split
      next hlast =>
        rw [m.drop_slots_last hlast, List.nil_append]
      next hopen =>
        exact ih ht (Nat.succ_ne_zero n) (by omega) (by omega)

theorem readFrame_slots
    (hkind : m.kind ≠ I2c.kindIdle) (hlen : m.payload.length < 4294967296)
    {idles : List (List UInt8)} (hidle : ∀ raw ∈ idles, IsIdleSlot raw)
    (rest : List (List UInt8)) :
    readFrame (idles ++ m.slots ++ rest) =
      some (parseResponse m.kind m.payload, rest) := by
  obtain ⟨t, haccept, ht⟩ := @ReadState.accept_first m ReadState.new
  rw [readFrame, List.append_assoc, readFrom_idle hidle, m.slots_eq_cons,
    List.cons_append, readFrom_slot hkind hlen m.slotCount_pos haccept ht]
  split
  next hlast =>
    rw [m.drop_slots_last hlast, List.nil_append]
  next hopen =>
    have hpos := m.slotCount_pos
    exact ht.readFrom hkind hlen Nat.one_ne_zero (by omega) rest

end Read

/-! ## The Python reader -/

namespace Python

theorem decodeSlot_idle {raw : List UInt8} (hidle : IsIdleSlot raw) :
    decodeSlot raw = .ok none := by
  have hsize : ¬raw.length ≠ I2cHost.slotSize := not_not.mpr hidle.1
  unfold decodeSlot
  simp only [hsize, if_false]
  rcases hidle.filled_or_magic with hfilled | ⟨rest, rfl, hkind⟩
  · rw [if_pos hfilled]
  · split
    · rfl
    · exact if_pos hkind

theorem readFrom_idle
    {deadline : ℕ} {idles : List Poll} (hidle : ∀ poll ∈ idles, IsIdleSlot poll.raw)
    (htime : ∀ poll ∈ idles, poll.now < deadline) (assembly : Option RxAssembly)
    (polls : List Poll) :
    readFrom deadline assembly (idles ++ polls) =
      readFrom deadline assembly polls := by
  induction idles with
  | nil => rfl
  | cons poll idles ih =>
      rw [List.cons_append, readFrom, if_pos (htime poll (by simp)),
        decodeSlot_idle (hidle poll (by simp))]
      apply ih
      · intro other hother
        exact hidle other (by simp [hother])
      · intro other hother
        exact htime other (by simp [hother])

section Read

variable {m : Message} {n deadline : ℕ} {assembly : RxAssembly}

def decoded (m : Message) (n : ℕ) : Slot :=
  ⟨m.kind, m.slotFlags n, m.transferId.toNat, I2c.slotPayloadSize * n,
    m.payload.length, m.chunk n⟩

theorem decodeSlot_slot
    (hkind : m.kind ≠ I2c.kindIdle) (hlen : m.payload.length < 4294967296)
    (hn : n < m.slotCount) : decodeSlot (m.slot n) = .ok (some (decoded m n)) :=
  (Message.slot_carries hlen hn).decodeSlot_python Message.length_chunk_le hkind

structure RxAssembly.Holds (m : Message) (n : ℕ) (assembly : RxAssembly) :
    Prop where
  kind_eq : assembly.kind = m.kind
  transferId_eq : assembly.transferId = m.transferId.toNat
  totalLen_eq : assembly.totalLen = m.payload.length
  nextOffset_eq : assembly.nextOffset = assembly.payload.length
  payload_eq : assembly.payload = m.payload.take (I2c.slotPayloadSize * n)

theorem RxAssembly.init_first (m : Message) :
    ∃ assembly, RxAssembly.init (decoded m 0) = .ok assembly ∧
      assembly.Holds m 1 := by
  have hstart : ¬(decoded m 0).flags &&& flagStart = 0 :=
    Message.slotFlags_start.mpr rfl
  have hoffset : ¬(decoded m 0).offset ≠ 0 := not_not.mpr rfl
  have hfit : ¬(decoded m 0).totalLen < (decoded m 0).data.length :=
    Nat.not_lt.mpr Message.length_chunk_zero_le
  unfold RxAssembly.init
  rw [if_neg hstart, if_neg hoffset, if_neg hfit]
  exact ⟨_, rfl, rfl, rfl, rfl, rfl, Message.chunk_zero⟩

theorem RxAssembly.Holds.push_eq
    (hs : assembly.Holds m n) (hpos : n ≠ 0) (hn : n < m.slotCount) :
    ∃ next : RxAssembly, next.Holds m (n + 1) ∧
      assembly.push (decoded m n) =
        if (decoded m n).flags &&& flagEnd ≠ 0 then
          if next.payload.length ≠ next.totalLen then
            .error (.endedEarly next.totalLen next.payload.length)
          else .ok (next, some next.payload)
        else .ok (next, none) := by
  have hkind : ¬(decoded m n).kind ≠ assembly.kind := not_not.mpr hs.kind_eq.symm
  have hid : ¬(decoded m n).transferId ≠ assembly.transferId :=
    not_not.mpr hs.transferId_eq.symm
  have hoffset : ¬(decoded m n).offset ≠ assembly.nextOffset := by
    rw [hs.nextOffset_eq, hs.payload_eq, Message.length_take hn]
    exact not_not.mpr rfl
  have hnext : assembly.payload ++ m.chunk n =
      m.payload.take (I2c.slotPayloadSize * (n + 1)) := by
    rw [hs.payload_eq]
    exact Message.take_append_chunk
  have hfit : ¬assembly.totalLen <
      assembly.payload.length + (decoded m n).data.length := by
    apply Nat.not_lt.mpr
    rw [hs.totalLen_eq, ← List.length_append]
    show (assembly.payload ++ m.chunk n).length ≤ m.payload.length
    rw [hnext]
    exact List.length_take_le' _ _
  have hmiddle : (decoded m n).offset ≠ 0 := by
    show I2c.slotPayloadSize * n ≠ 0
    simp [I2c.slotPayloadSize, I2c.slotSize, I2c.slotHeaderSize, hpos]
  refine ⟨{ assembly with
    payload := assembly.payload ++ m.chunk n
    nextOffset := assembly.nextOffset + (m.chunk n).length }, ?_, ?_⟩
  · refine ⟨hs.kind_eq, hs.transferId_eq, hs.totalLen_eq, ?_, hnext⟩
    simp only [List.length_append, hs.nextOffset_eq]
  · unfold RxAssembly.push
    rw [if_neg hkind, if_neg hid, if_neg hoffset, if_neg hfit]
    simp only [if_pos hmiddle]
    rfl

theorem RxAssembly.Holds.push
    (hs : assembly.Holds m n) (hpos : n ≠ 0) (hn : n < m.slotCount) :
    ∃ next : RxAssembly, next.Holds m (n + 1) ∧
      assembly.push (decoded m n) =
        .ok (next, if n + 1 = m.slotCount then some m.payload else none) := by
  obtain ⟨next, hholds, hpush⟩ := hs.push_eq hpos hn
  refine ⟨next, hholds, ?_⟩
  rw [hpush]
  by_cases hlast : n + 1 = m.slotCount
  · have hend : (decoded m n).flags &&& flagEnd ≠ 0 :=
      Message.slotFlags_end.mpr hlast
    have hwhole : next.payload = m.payload :=
      hholds.payload_eq.trans (Message.take_of_last hlast)
    have hlen : ¬next.payload.length ≠ next.totalLen := by
      rw [hwhole, hholds.totalLen_eq]
      exact not_not.mpr rfl
    rw [if_pos hend, if_neg hlen, if_pos hlast, hwhole]
  · have hmore : ¬(decoded m n).flags &&& flagEnd ≠ 0 :=
      mt Message.slotFlags_end.mp hlast
    rw [if_neg hmore, if_neg hlast]

theorem RxAssembly.Holds.readFrom
    (hkind : m.kind ≠ I2c.kindIdle) (hlen : m.payload.length < 4294967296)
    (hs : assembly.Holds m n) (hpos : n ≠ 0) (hn : n < m.slotCount)
    {polls : List Poll} (hpolls : polls.map Poll.raw = m.slots.drop n)
    (htime : ∀ poll ∈ polls, poll.now < deadline) (rest : List Poll) :
    readFrom deadline (some assembly) (polls ++ rest) =
      .packet m.kind m.payload rest := by
  induction polls generalizing assembly n with
  | nil =>
      rw [m.drop_slots hn] at hpolls
      cases hpolls
  | cons poll polls ih =>
      rw [m.drop_slots hn, List.map_cons, List.cons.injEq] at hpolls
      obtain ⟨hraw, hpolls⟩ := hpolls
      obtain ⟨next, hholds, hpush⟩ := hs.push hpos hn
      have hmiddle : ¬(decoded m n).flags &&& flagStart ≠ 0 :=
        mt Message.slotFlags_start.mp hpos
      rw [List.cons_append, Python.readFrom, if_pos (htime poll (by simp)), hraw,
        decodeSlot_slot hkind hlen hn]
      simp only [if_neg hmiddle, hpush]
      by_cases hlast : n + 1 = m.slotCount
      · have hnil : polls = [] := by
          rw [m.drop_slots_last hlast] at hpolls
          exact List.map_eq_nil_iff.mp hpolls
        rw [if_pos hlast, hnil]
        rfl
      · rw [if_neg hlast]
        apply ih hholds (Nat.succ_ne_zero n) (by omega) hpolls
        intro other hother
        exact htime other (by simp [hother])

theorem readPacket_slots
    (hkind : m.kind ≠ I2c.kindIdle) (hlen : m.payload.length < 4294967296)
    {start timeout : ℕ} {idles polls : List Poll}
    (hidle : ∀ poll ∈ idles, IsIdleSlot poll.raw)
    (hpolls : polls.map Poll.raw = m.slots)
    (htime : ∀ poll ∈ idles ++ polls, poll.now < start + timeout)
    (rest : List Poll) :
    readPacket start timeout (idles ++ polls ++ rest) =
      .packet m.kind m.payload rest := by
  have hbefore : ∀ poll ∈ idles, poll.now < start + timeout := by
    intro poll hpoll
    exact htime poll (by simp [hpoll])
  rw [readPacket, List.append_assoc, readFrom_idle hidle hbefore]
  cases polls with
  | nil =>
      rw [m.slots_eq_cons] at hpolls
      cases hpolls
  | cons poll polls =>
      rw [m.slots_eq_cons, List.map_cons, List.cons.injEq] at hpolls
      obtain ⟨hraw, hpolls⟩ := hpolls
      obtain ⟨assembly, hinit, hholds⟩ := RxAssembly.init_first m
      have hstart : (decoded m 0).flags &&& flagStart ≠ 0 :=
        Message.slotFlags_start.mpr rfl
      rw [List.cons_append, Python.readFrom, if_pos (htime poll (by simp)), hraw,
        decodeSlot_slot hkind hlen m.slotCount_pos]
      simp only [if_pos hstart, hinit]
      by_cases hlast : 0 + 1 = m.slotCount
      · have hend : (decoded m 0).flags &&& flagEnd ≠ 0 :=
          Message.slotFlags_end.mpr hlast
        have hnil : polls = [] := by
          rw [m.drop_slots_last hlast] at hpolls
          exact List.map_eq_nil_iff.mp hpolls
        have hdata : (decoded m 0).data = m.payload :=
          Message.chunk_zero.trans (Message.take_of_last hlast)
        rw [if_pos hend, hnil, hdata]
        rfl
      · have hmore : ¬(decoded m 0).flags &&& flagEnd ≠ 0 :=
          mt Message.slotFlags_end.mp hlast
        rw [if_neg hmore]
        have hpos := m.slotCount_pos
        apply hholds.readFrom hkind hlen Nat.one_ne_zero (by omega) hpolls
        intro other hother
        exact htime other (by simp [hother])

end Read

end Python

end I2cHost

/-! ## Both readers take a response -/

namespace I2c

open Buffer LinkFrame Mailbox

/-- A link frame is parsed by its sync pair, whatever kind the slots had. -/
theorem parseResponse_framed
    (kind : UInt8) (pair : UInt8 × UInt8) {payload : List UInt8}
    (hlen : payload.length ≤ I2cHost.payloadMax) :
    I2cHost.parseResponse kind (framed pair payload) =
      if pair = (I2cHost.reqDataMagic, I2cHost.respDataMagic) then
        .ok (.data payload)
      else if pair = (I2cHost.reqCommandMagic, I2cHost.respCommandMagic) then
        .ok (.command payload)
      else if kind = I2cHost.respDataMagic then .ok (.data payload)
      else if kind = I2cHost.respCommandMagic then .ok (.command payload)
      else .error (.invalidFrame kind payload.length) := by
  have hfield : u16le ((framed pair payload).getD 2 0)
      ((framed pair payload).getD 3 0) = payload.length := by
    apply u16le_ofNat
    simp only [I2cHost.payloadMax] at hlen
    omega
  have hpair : ((framed pair payload).getD 0 0, (framed pair payload).getD 1 0) =
      pair := rfl
  have hslice : slice (framed pair payload) I2cHost.frameHeaderSize
      (I2cHost.frameHeaderSize + payload.length) = payload := by
    have h := slice_framed pair payload []
    rwa [List.append_nil] at h
  have hheader : ¬(framed pair payload).length < I2cHost.frameHeaderSize := by
    rw [length_framed]
    exact Nat.not_lt.mpr (Nat.le_add_right _ _)
  have hwhole : ¬(framed pair payload).length <
      I2cHost.frameHeaderSize + payload.length := by
    rw [length_framed]
    exact Nat.lt_irrefl _
  have hmax : ¬I2cHost.payloadMax < payload.length := Nat.not_lt.mpr hlen
  unfold I2cHost.parseResponse
  simp only [hheader, hfield, hpair, hmax, hwhole, hslice, if_false]
  by_cases hdata : pair = (I2cHost.reqDataMagic, I2cHost.respDataMagic)
  · simp only [if_pos hdata, if_true]
  · by_cases hcommand :
        pair = (I2cHost.reqCommandMagic, I2cHost.respCommandMagic)
    · have hdistinct : I2cHost.respCommandMagic ≠ I2cHost.respDataMagic := by
        decide
      simp only [if_neg hdata, if_pos hcommand, if_neg hdistinct, if_true]
    · simp only [if_neg hdata, if_neg hcommand]

/-- What the host library makes of a response. -/
def responseFrame (packet : I2cPacket) : I2cHost.Frame :=
  if packet.kind = kindData then .data packet.payload.asSlice
  else .command packet.payload.asSlice

theorem parseResponse_responseMessage
    (id : UInt16) {packet : I2cPacket}
    (hlen : packet.payload.asSlice.length ≤ I2cHost.payloadMax) :
    I2cHost.parseResponse packet.kind (responseMessage id packet).payload =
      .ok (responseFrame packet) := by
  show I2cHost.parseResponse packet.kind
    (framed (responsePair packet.kind) packet.payload.asSlice) = _
  rw [parseResponse_framed _ _ hlen]
  unfold responsePair responseFrame
  split
  · exact if_pos rfl
  · exact (if_neg (by decide)).trans (if_pos rfl)

theorem slotCount_responseMessage (id : UInt16) (packet : I2cPacket) :
    (responseMessage id packet).slotCount =
      (frameHeaderSize + packet.payload.asSlice.length + (slotPayloadSize - 1)) /
        slotPayloadSize := by
  have hframe : (responseMessage id packet).payload.length =
      frameHeaderSize + packet.payload.asSlice.length := length_framed _ _
  rw [Message.slotCount, hframe]
  simp only [frameHeaderSize, slotPayloadSize, slotSize, slotHeaderSize]
  omega

/-- A response crosses the bus in as many slots as its link frame needs, and
both readers get it back from them. -/
theorem response_read_by_hosts
    (tx : TxPacketState) (id : UInt16) {packet : I2cPacket}
    (hkind : packet.kind = kindData ∨ packet.kind = kindCommand ∨
      packet.kind = kindError)
    (hlen : packet.payload.asSlice.length ≤ I2cHost.payloadMax) :
    let count :=
      (frameHeaderSize + packet.payload.asSlice.length + (slotPayloadSize - 1)) /
        slotPayloadSize
    let staged := tx.stageBridgePacket id packet
    let slots := (staged.takeSlots count).2
    (staged.takeSlots count).1.active = false ∧
      (∀ n < count, (staged.takeSlots n).1.active = true) ∧
      slots.length = count ∧
      (∀ idles rest : List (List UInt8), (∀ raw ∈ idles, IsIdleSlot raw) →
        I2cHost.readFrame (idles ++ slots ++ rest) =
          some (.ok (responseFrame packet), rest)) ∧
      ∀ (start timeout : ℕ) (idles polls rest : List I2cHost.Python.Poll),
        (∀ poll ∈ idles, IsIdleSlot poll.raw) →
        polls.map I2cHost.Python.Poll.raw = slots →
        (∀ poll ∈ idles ++ polls, poll.now < start + timeout) →
        I2cHost.Python.readPacket start timeout (idles ++ polls ++ rest) =
          .packet packet.kind
            (framed (responsePair packet.kind) packet.payload.asSlice) rest := by
  intro count staged slots
  have hmessage : staged.message = responseMessage id packet :=
    message_stageBridgePacket tx id hkind hlen
  obtain ⟨haligned, hremaining⟩ := remaining_stageBridgePacket tx id packet
  have hslots : staged.remaining = (responseMessage id packet).slots :=
    hremaining.trans (congrArg Message.slots hmessage)
  have hcount : staged.remaining.length = count := by
    rw [hslots, Message.length_slots, slotCount_responseMessage]
  obtain ⟨hall, hdone, hopen⟩ := haligned.takeSlots
  rw [hcount] at hall hdone hopen
  have hwhole : slots = (responseMessage id packet).slots := hall.trans hslots
  have hbusy : (responseMessage id packet).kind ≠ kindIdle := by
    show packet.kind ≠ kindIdle
    rcases hkind with h | h | h
    · rw [h]
      decide
    · rw [h]
      decide
    · rw [h]
      decide
  have hsize : (responseMessage id packet).payload.length < 4294967296 := by
    have hframe : (responseMessage id packet).payload.length =
        frameHeaderSize + packet.payload.asSlice.length := length_framed _ _
    rw [hframe]
    simp only [frameHeaderSize, I2cHost.payloadMax] at hlen ⊢
    omega
  refine ⟨hdone, hopen, ?_, ?_, ?_⟩
  · rw [hwhole, ← hslots, hcount]
  · intro idles rest hidle
    rw [hwhole, I2cHost.readFrame_slots hbusy hsize hidle rest]
    exact congrArg (fun result => some (result, rest))
      (parseResponse_responseMessage id hlen)
  · intro start timeout idles polls rest hidle hpolls htime
    exact I2cHost.Python.readPacket_slots hbusy hsize hidle
      (hpolls.trans hwhole) htime rest

/-- An error text whose link frame fills two slots, read behind an idle one. -/
theorem response_read_by_hosts_error :
    let staged := TxPacketState.new.stageBridgePacket 9
      ⟨kindError, ⟨List.replicate 24 33, by decide⟩⟩
    (staged.takeSlots 2).1.active = false ∧
      I2cHost.readFrame (List.replicate slotSize 0 :: (staged.takeSlots 2).2) =
        some (.ok (.command (List.replicate 24 33)), []) := by
  have h := @response_read_by_hosts TxPacketState.new 9
    ⟨kindError, ⟨List.replicate 24 33, by decide⟩⟩ (.inr (.inr rfl)) (by decide)
  refine ⟨h.1, ?_⟩
  have hread := h.2.2.2.1 [List.replicate slotSize 0] [] (by
    intro raw hraw
    rw [List.mem_singleton.mp hraw]
    exact ⟨rfl, .inl (by decide)⟩)
  rw [List.append_nil] at hread
  exact hread

end I2c
end PicoFi
