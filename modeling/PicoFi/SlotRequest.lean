import PicoFi.SlotTransfer
import PicoFi.I2cRetention

/-!
# Host requests over slots

The slots the host writes for a request, fed to the bus task from any state
it may be in: the reassembly follows the message slot by slot, the slots
that carry nothing leave it alone, and the packet is complete with the last
slot.
-/

namespace PicoFi
namespace I2c

open Buffer LinkFrame Mailbox

/-- The slot a decoder makes of the `i`-th one of a message. -/
def Message.decoded (m : Message) (i : ℕ) : Slot :=
  ⟨m.kind, m.slotFlags i, m.transferId, slotPayloadSize * i, m.payload.length,
    (m.chunk i).length, FixedBytes.padded (m.chunk i), Message.length_chunk_le⟩

theorem Message.bytes_decoded (m : Message) (i : ℕ) :
    (m.decoded i).bytes = m.chunk i := by
  show (FixedBytes.padded (m.chunk i) : FixedBytes slotPayloadSize).toList.take
    (m.chunk i).length = m.chunk i
  rw [FixedBytes.toList_padded _ length_chunk_le, List.take_left]

theorem Message.isStart_decoded
    {m : Message} {i : ℕ} : (m.decoded i).isStart = true ↔ i = 0 :=
  bne_iff_ne.trans slotFlags_start

theorem Message.isEnd_decoded
    {m : Message} {i : ℕ} : (m.decoded i).isEnd = true ↔ i + 1 = m.slotCount :=
  bne_iff_ne.trans slotFlags_end

/-! ## The reassembly along a message -/

namespace RxPacketState

variable {m : Message} {n now : ℕ} {s : RxPacketState}

/-- The state between the first `n` slots of a message and the next one. -/
structure Holds (m : Message) (n now : ℕ) (s : RxPacketState) : Prop where
  active_eq : s.active = true
  kind_eq : s.kind = m.kind
  transferId_eq : s.transferId = m.transferId
  totalLen_eq : s.totalLen = m.payload.length
  nextOffset_eq : s.nextOffset = (m.payload.take (slotPayloadSize * n)).length
  payload_eq : s.payload.toList.take s.nextOffset =
    m.payload.take (slotPayloadSize * n)
  startedAt_eq : s.startedAt = some now

theorem startPacket_decoded
    (s : RxPacketState) (now : ℕ) (hlen : m.payload.length ≤ i2cPacketMax) :
    ∃ t, s.startPacket now (m.decoded 0) = some (t, .ok ()) ∧ Holds m 1 now t := by
  have hchunk := @Message.chunk_zero m
  have hfit := @Message.length_chunk_zero_le m
  have hgood : ¬((m.decoded 0).offset ≠ 0 ∨
      (m.decoded 0).totalLen < (m.decoded 0).dataLen) := by
    rintro (hoffset | hlong)
    · exact hoffset rfl
    · exact Nat.not_lt.mpr hfit hlong
  unfold startPacket
  simp only [hgood, if_false]
  split
  · obtain ⟨payload, hpayload, htake⟩ := @FixedBytes.write?_eq_some _
      s.reset.payload 0 (m.decoded 0).bytes (by
        rw [m.bytes_decoded, Nat.zero_add]
        exact hfit.trans hlen)
    rw [hpayload]
    refine ⟨_, rfl, rfl, rfl, rfl, rfl, ?_, ?_, rfl⟩
    · exact congrArg List.length hchunk
    · rw [m.bytes_decoded, Nat.zero_add, List.take_zero, List.nil_append,
        hchunk] at htake
      show payload.toList.take (m.chunk 0).length = _
      rw [hchunk]
      exact htake
  · next hempty =>
    have hzero : (m.chunk 0).length = 0 := not_not.mp hempty
    refine ⟨_, rfl, rfl, rfl, rfl, rfl, ?_, ?_, rfl⟩
    · exact congrArg List.length hchunk
    · show s.reset.payload.toList.take (m.chunk 0).length = _
      rw [← hchunk, hzero, List.take_zero, List.eq_nil_of_length_eq_zero hzero]

theorem Holds.continuePacket
    {before : ℕ} (hs : s.Holds m n before) (now : ℕ)
    (hlen : m.payload.length ≤ i2cPacketMax) (hn : n < m.slotCount) :
    ∃ t, s.continuePacket now (m.decoded n) = some (t, .ok ()) ∧
      Holds m (n + 1) now t := by
  have hoffset : s.nextOffset = slotPayloadSize * n := by
    rw [hs.nextOffset_eq, Message.length_take hn]
  have hnext : s.nextOffset + (m.chunk n).length =
      (m.payload.take (slotPayloadSize * (n + 1))).length := by
    rw [← Message.take_append_chunk, List.length_append, hs.nextOffset_eq]
  have hfit : s.nextOffset + (m.chunk n).length ≤ m.payload.length := by
    rw [hnext]
    exact List.length_take_le' _ _
  have hgood : ¬((m.decoded n).kind ≠ s.kind ∨
      (m.decoded n).transferId ≠ s.transferId ∨
      (m.decoded n).offset ≠ s.nextOffset ∨
      s.totalLen < s.nextOffset + (m.decoded n).dataLen) := by
    rintro (hkind | hid | hstart | hlong)
    · exact hkind hs.kind_eq.symm
    · exact hid hs.transferId_eq.symm
    · exact hstart hoffset.symm
    · rw [hs.totalLen_eq] at hlong
      exact Nat.not_lt.mpr hfit hlong
  unfold RxPacketState.continuePacket
  simp only [hs.active_eq, not_true, hgood, if_false]
  split
  · obtain ⟨payload, hpayload, htake⟩ := @FixedBytes.write?_eq_some _
      s.payload s.nextOffset (m.decoded n).bytes (by
        rw [m.bytes_decoded]
        exact hfit.trans hlen)
    rw [hpayload]
    refine ⟨_, rfl, rfl, hs.kind_eq, hs.transferId_eq, hs.totalLen_eq, hnext, ?_,
      rfl⟩
    rw [m.bytes_decoded, hs.payload_eq, Message.take_append_chunk] at htake
    exact htake
  · next hempty =>
    have hzero : (m.chunk n).length = 0 := not_not.mp hempty
    rw [hzero, Nat.add_zero] at hnext
    refine ⟨_, rfl, rfl, hs.kind_eq, hs.transferId_eq, hs.totalLen_eq, hnext, ?_,
      rfl⟩
    show s.payload.toList.take s.nextOffset = _
    rw [hs.payload_eq, ← Message.take_append_chunk,
      List.eq_nil_of_length_eq_zero hzero, List.append_nil]

theorem Holds.endPacket_last
    (hs : s.Holds m (n + 1) now) (hn : n + 1 = m.slotCount) :
    ∃ t, s.endPacket (m.decoded n) =
        (t, .ok (some (m.kind, m.transferId, m.payload.length))) ∧
      t.payload.toList.take m.payload.length = m.payload := by
  have hwhole := Message.take_of_last hn
  have hend : (m.decoded n).isEnd = true := Message.isEnd_decoded.mpr hn
  have hnext := hs.nextOffset_eq
  have hpayload := hs.payload_eq
  rw [hwhole] at hnext hpayload
  have hclosed : ¬(¬s.active ∨ s.nextOffset ≠ s.totalLen) := by
    rintro (hinactive | hshort)
    · exact hinactive hs.active_eq
    · exact hshort (hnext.trans hs.totalLen_eq.symm)
  unfold RxPacketState.endPacket
  rw [if_pos hend, if_neg hclosed, hs.kind_eq, hs.transferId_eq, hs.totalLen_eq]
  refine ⟨_, rfl, ?_⟩
  rw [← hnext]
  exact hpayload

theorem endPacket_open
    (hn : n + 1 ≠ m.slotCount) : s.endPacket (m.decoded n) = (s, .ok none) := by
  have hopen : ¬(m.decoded n).isEnd = true := mt Message.isEnd_decoded.mp hn
  unfold RxPacketState.endPacket
  rw [if_neg hopen]

theorem Holds.resetIfStale
    {before : ℕ} (hs : s.Holds m n before)
    (htime : now < before + partialPacketTimeout) : s.resetIfStale now = s := by
  have hfresh : ¬partialPacketTimeout ≤ now - before := by
    simp only [partialPacketTimeout] at htime ⊢
    omega
  unfold RxPacketState.resetIfStale
  rw [if_pos hs.active_eq, hs.startedAt_eq]
  exact if_neg hfresh

/-- What the slot number `n` leads to: an open packet, or the whole one. -/
def Advances (m : Message) (n now : ℕ) (t : RxPacketState) (reply : SlotReply) :
    Prop :=
  if n + 1 = m.slotCount then
    reply = .ok (some (m.kind, m.transferId, m.payload.length)) ∧
      t.payload.toList.take m.payload.length = m.payload
  else reply = .ok none ∧ Holds m (n + 1) now t

theorem Holds.endPacket
    (hs : s.Holds m (n + 1) now) :
    Advances m n now (s.endPacket (m.decoded n)).1 (s.endPacket (m.decoded n)).2 := by
  unfold Advances
  split
  next hlast =>
    obtain ⟨t, hend, hpayload⟩ := hs.endPacket_last hlast
    rw [hend]
    exact ⟨rfl, hpayload⟩
  next hopen =>
    rw [endPacket_open hopen]
    exact ⟨rfl, hs⟩

/-- The first slot of a message starts it over, whatever was left before. -/
theorem pushSlot_first
    (s : RxPacketState) (now : ℕ) (hlen : m.payload.length ≤ i2cPacketMax) :
    ∃ t reply, s.pushSlot now (m.decoded 0) = some (t, reply) ∧
      Advances m 0 now t reply := by
  have hsize : ¬i2cPacketMax < (m.decoded 0).totalLen := Nat.not_lt.mpr hlen
  have hstart : (m.decoded 0).isStart = true := Message.isStart_decoded.mpr rfl
  obtain ⟨t, ht, hholds⟩ := @startPacket_decoded m (s.resetIfStale now) now hlen
  refine ⟨_, _, ?_, hholds.endPacket⟩
  unfold RxPacketState.pushSlot
  simp only [hsize, if_false, hstart, if_true, ht]

theorem Holds.pushSlot
    {before : ℕ} (hs : s.Holds m n before) (hlen : m.payload.length ≤ i2cPacketMax)
    (hpos : n ≠ 0) (hn : n < m.slotCount)
    (htime : now < before + partialPacketTimeout) :
    ∃ t reply, s.pushSlot now (m.decoded n) = some (t, reply) ∧
      Advances m n now t reply := by
  have hsize : ¬i2cPacketMax < (m.decoded n).totalLen := Nat.not_lt.mpr hlen
  have hmiddle : ¬(m.decoded n).isStart = true :=
    mt Message.isStart_decoded.mp hpos
  obtain ⟨t, ht, hholds⟩ := hs.continuePacket now hlen hn
  refine ⟨_, _, ?_, hholds.endPacket⟩
  unfold RxPacketState.pushSlot
  simp only [hs.resetIfStale htime, hsize, if_neg hmiddle, if_false, ht]

end RxPacketState

/-! ## Writing the slots -/

/-- The writes carry exactly these slots in order, each within the timeout
after the one before it, and idle slots anywhere. -/
inductive Delivers : Option ℕ → List (List UInt8) → List BusWrite → Prop
  | nil {last : Option ℕ} : Delivers last [] []
  | idle {last : Option ℕ} {slots : List (List UInt8)} {w : BusWrite}
      {ws : List BusWrite} (hidle : IsIdleSlot w.raw)
      (hrest : Delivers last slots ws) : Delivers last slots (w :: ws)
  | slot {last : Option ℕ} {slots : List (List UInt8)} {w : BusWrite}
      {ws : List BusWrite}
      (htime : ∀ before ∈ last, w.now < before + partialPacketTimeout)
      (hrest : Delivers (some w.now) slots ws) :
      Delivers last (w.raw :: slots) (w :: ws)

namespace I2cTask

variable (config : BridgeConfig)

/-- What `push_slot` reports during a write that reaches it. -/
def slotReplies (s : I2cTask) (w : BusWrite) : List SlotReply :=
  match s.receive config w.runtime w.raw with
  | none => []
  | some s =>
      if s.v2 then []
      else
        match decodeSlot (w.raw.take slotSize) with
        | .ok (some slot) =>
            ((s.rxPacket.pushSlot w.now slot).map fun (_, reply) => reply).toList
        | _ => []

/-- One write after the other, with the reports of `push_slot`. -/
def feed (s : I2cTask) : List BusWrite → Option (I2cTask × List SlotReply)
  | [] => some (s, [])
  | w :: ws =>
      (s.written config w).bind fun t =>
        (t.feed ws).map fun (u, replies) => (u, s.slotReplies config w ++ replies)

end I2cTask

theorem IsIdleSlot.head_ne
    {raw : List UInt8} (hidle : IsIdleSlot raw) :
    raw ≠ PacketV2.select ∧ raw.head? ≠ some PacketV2.magic := by
  obtain ⟨hlen, hkinds⟩ := hidle
  constructor
  · rintro rfl
    exact absurd hlen (by decide)
  · match raw, hlen with
    | b :: rest, hlen =>
        rintro hhead
        have hb : b = PacketV2.magic := by simpa using hhead
        rcases hkinds with hzero | hones | ⟨hmagic, -⟩
        · exact absurd (hb ▸ hzero b (by simp)) (by decide)
        · exact absurd (hb ▸ hones b (by simp)) (by decide)
        · have hfirst : b = slotMagic0 := by
            have h := congrArg List.head? hmagic
            simpa using h
          exact absurd (hb ▸ hfirst) (by decide)

/-- An idle slot at most switches the version back. -/
theorem written_idle
    (config : BridgeConfig) (s : I2cTask) {w : BusWrite}
    (hidle : IsIdleSlot w.raw) :
    ∃ v2, s.written config w = some { s with v2 := v2 } ∧
      s.slotReplies config w = [] := by
  have hdecode : decodeSlot (w.raw.take slotSize) = .ok none := by
    rw [List.take_of_length_le hidle.1.le]
    exact hidle.decodeSlot
  obtain ⟨v2, hreceive⟩ : ∃ v2,
      s.receive config w.runtime w.raw = some { s with v2 := v2 } := by
    unfold I2cTask.receive
    rw [if_neg hidle.head_ne.1, if_neg hidle.head_ne.2]
    split
    · exact ⟨false, rfl⟩
    · exact ⟨s.v2, rfl⟩
  refine ⟨v2, ?_, ?_⟩
  · unfold I2cTask.written I2cTask.writeAction I2cTask.handleWriteSlot
    rw [hreceive, hdecode]
    cases v2 <;> rfl
  · unfold I2cTask.slotReplies
    rw [hreceive]
    simp only [hdecode, ite_self]

section Feed

variable {config : BridgeConfig} {m : Message} {n : ℕ} {s : I2cTask}
  {w : BusWrite} {rx : RxPacketState}

theorem Message.slot_carries_packet
    (hlen : m.payload.length ≤ i2cPacketMax) (hn : n < m.slotCount) :
    Carries (m.slot n) m.kind (m.slotFlags n) m.transferId (slotPayloadSize * n)
      m.payload.length (m.chunk n) := by
  apply Message.slot_carries _ hn
  simp only [i2cPacketMax] at hlen
  omega

theorem receive_slot
    (config : BridgeConfig) (s : I2cTask) (hlen : m.payload.length ≤ i2cPacketMax)
    (hn : n < m.slotCount) (hraw : w.raw = m.slot n) :
    s.receive config w.runtime w.raw = some { s with v2 := false } := by
  have hsize := (Message.slot_carries_packet hlen hn).length_eq
  have hfront : (m.slot n).take 3 = [slotMagic0, slotMagic1, slotVersion] := rfl
  apply receive_slotWrite
  rw [hraw]
  refine ⟨?_, ?_, fun _ => ⟨hsize, hfront⟩⟩
  · intro hselect
    rw [hselect] at hsize
    exact absurd hsize (by decide)
  · exact (by decide : some slotMagic0 ≠ some PacketV2.magic)

theorem decodeSlot_slot
    (hkind : m.kind ≠ kindIdle) (hlen : m.payload.length ≤ i2cPacketMax)
    (hn : n < m.slotCount) (hraw : w.raw = m.slot n) :
    decodeSlot (w.raw.take slotSize) = .ok (some (m.decoded n)) := by
  have hcarries := Message.slot_carries_packet hlen hn
  rw [hraw, List.take_of_length_le hcarries.length_eq.le]
  exact hcarries.decodeSlot Message.length_chunk_le hkind

theorem slotReplies_slot
    (hkind : m.kind ≠ kindIdle) (hlen : m.payload.length ≤ i2cPacketMax)
    (hn : n < m.slotCount) (hraw : w.raw = m.slot n) {reply : SlotReply}
    (hpush : s.rxPacket.pushSlot w.now (m.decoded n) = some (rx, reply)) :
    s.slotReplies config w = [reply] := by
  unfold I2cTask.slotReplies
  rw [receive_slot config s hlen hn hraw]
  simp only [decodeSlot_slot hkind hlen hn hraw, hpush, Bool.false_eq_true,
    if_false, Option.map_some, Option.toList_some]

theorem written_open
    (hkind : m.kind ≠ kindIdle) (hlen : m.payload.length ≤ i2cPacketMax)
    (hn : n < m.slotCount) (hraw : w.raw = m.slot n)
    (hpush : s.rxPacket.pushSlot w.now (m.decoded n) = some (rx, .ok none)) :
    s.written config w = some { s with v2 := false, rxPacket := rx } := by
  unfold I2cTask.written I2cTask.writeAction I2cTask.handleWriteSlot
  rw [receive_slot config s hlen hn hraw, decodeSlot_slot hkind hlen hn hraw]
  simp only [Option.bind_some, Bool.false_eq_true, if_false, hpush,
    Option.map_some, I2cTask.perform]

theorem written_last
    (hkind : m.kind ≠ kindIdle) (hlen : m.payload.length ≤ i2cPacketMax)
    (hn : n < m.slotCount) (hraw : w.raw = m.slot n)
    (hpush : s.rxPacket.pushSlot w.now (m.decoded n) =
      some (rx, .ok (some (m.kind, m.transferId, m.payload.length))))
    (hpayload : rx.payload.toList.take m.payload.length = m.payload) :
    s.written config w =
      some (I2cTask.perform
        { s with
          v2 := false
          rxPacket := rx
          lastTransferId := nonzeroTransferId m.transferId }
        (processCompletePacket config w.runtime m.kind m.transferId
          m.payload)) := by
  have hslice : slice? rx.payload.toList 0 m.payload.length = some m.payload := by
    rw [slice?_eq_some (Nat.zero_le _), slice_zero, hpayload]
    rw [rx.payload.length_toList]
    exact hlen
  unfold I2cTask.written I2cTask.writeAction I2cTask.handleWriteSlot
  rw [receive_slot config s hlen hn hraw, decodeSlot_slot hkind hlen hn hraw]
  simp only [Option.bind_some, Bool.false_eq_true, if_false, hpush, hslice,
    Option.map_some]

def SlotAction.ofPacket : Option I2cPacket → SlotAction
  | none => .ignore
  | some packet => .forward packet

def enqueued (q : I2cQueue) : Option I2cPacket → I2cQueue
  | none => q
  | some packet => (q.pushOverwrite packet).1

theorem perform_ofPacket (s : I2cTask) (packet : Option I2cPacket) :
    (s.perform (.ofPacket packet)).txPacket = s.txPacket ∧
      (s.perform (.ofPacket packet)).ingress = enqueued s.ingress packet := by
  cases packet with
  | none => exact ⟨rfl, rfl⟩
  | some packet => exact ⟨rfl, rfl⟩

theorem feed_cons
    {t u : I2cTask} {ws : List BusWrite} {replies : List SlotReply}
    (hwritten : s.written config w = some t)
    (hrest : t.feed config ws = some (u, replies)) :
    s.feed config (w :: ws) = some (u, s.slotReplies config w ++ replies) := by
  unfold I2cTask.feed
  rw [hwritten, Option.bind_some, hrest]
  rfl

theorem feed_done
    {last : Option ℕ} {slots : List (List UInt8)} {ws : List BusWrite}
    (hdelivers : Delivers last slots ws) (hslots : slots = []) (s : I2cTask) :
    ∃ t, s.feed config ws = some (t, []) ∧ t.txPacket = s.txPacket ∧
      t.ingress = s.ingress := by
  induction hdelivers generalizing s with
  | nil => exact ⟨s, rfl, rfl, rfl⟩
  | idle hidle hrest ih =>
      obtain ⟨v2, hwritten, hreplies⟩ := written_idle config s hidle
      obtain ⟨t, hfeed, htx, hingress⟩ := ih hslots { s with v2 := v2 }
      refine ⟨t, ?_, htx, hingress⟩
      rw [feed_cons hwritten hfeed, hreplies]
      rfl
  | slot htime hrest ih => cases hslots

section Request

variable {packet : Option I2cPacket} (hkind : m.kind ≠ kindIdle)
  (hlen : m.payload.length ≤ i2cPacketMax)
  (hprocess : ∀ runtime, processCompletePacket config runtime m.kind
    m.transferId m.payload = .ofPacket packet)

include hkind hlen hprocess

/-- One slot of the message: the rest of the slots follows, and the reports
of the rest follow its own. -/
theorem feed_slot
    {t : RxPacketState} {reply : SlotReply} {ws : List BusWrite}
    (hn : n < m.slotCount) (hraw : w.raw = m.slot n)
    (hpush : s.rxPacket.pushSlot w.now (m.decoded n) = some (t, reply))
    (hadvances : RxPacketState.Advances m n w.now t reply)
    (hrest : ∀ u : I2cTask, n + 1 < m.slotCount →
      u.rxPacket.Holds m (n + 1) w.now →
      ∃ v, u.feed config ws = some (v,
          List.replicate (m.slotCount - (n + 2)) (.ok none) ++
            [.ok (some (m.kind, m.transferId, m.payload.length))]) ∧
        v.txPacket = u.txPacket ∧ v.ingress = enqueued u.ingress packet)
    (hdone : n + 1 = m.slotCount → ∀ u : I2cTask,
      ∃ v, u.feed config ws = some (v, []) ∧ v.txPacket = u.txPacket ∧
        v.ingress = u.ingress) :
    ∃ v, s.feed config (w :: ws) = some (v,
        List.replicate (m.slotCount - (n + 1)) (.ok none) ++
          [.ok (some (m.kind, m.transferId, m.payload.length))]) ∧
      v.txPacket = s.txPacket ∧ v.ingress = enqueued s.ingress packet := by
  have hreplies := @slotReplies_slot config m n s w t hkind hlen hn hraw _ hpush
  unfold RxPacketState.Advances at hadvances
  split at hadvances
  next hlast =>
    obtain ⟨rfl, hpayload⟩ := hadvances
    have hwritten := @written_last config m n s w t hkind hlen hn hraw hpush
      hpayload
    rw [hprocess] at hwritten
    obtain ⟨htx, hingress⟩ := perform_ofPacket
      { s with
        v2 := false
        rxPacket := t
        lastTransferId := nonzeroTransferId m.transferId } packet
    obtain ⟨v, hfeed, hvtx, hvingress⟩ := hdone hlast _
    refine ⟨v, ?_, hvtx.trans htx, hvingress.trans hingress⟩
    rw [feed_cons hwritten hfeed, hreplies, hlast, Nat.sub_self]
    rfl
  next hopen =>
    obtain ⟨rfl, hholds⟩ := hadvances
    have hwritten := @written_open config m n s w t hkind hlen hn hraw hpush
    have hmore : n + 1 < m.slotCount := by omega
    obtain ⟨v, hfeed, hvtx, hvingress⟩ :=
      hrest { s with v2 := false, rxPacket := t } hmore hholds
    refine ⟨v, ?_, hvtx, hvingress⟩
    have hcount : m.slotCount - (n + 1) = m.slotCount - (n + 2) + 1 := by omega
    rw [feed_cons hwritten hfeed, hreplies, hcount, List.replicate_succ]
    rfl

theorem feed_open
    {last : Option ℕ} {slots : List (List UInt8)} {ws : List BusWrite}
    (hdelivers : Delivers last slots ws) {before : ℕ}
    (hlast : last = some before) (hslots : slots = m.slots.drop n)
    (hpos : n ≠ 0) (hn : n < m.slotCount) (hs : s.rxPacket.Holds m n before) :
    ∃ v, s.feed config ws = some (v,
        List.replicate (m.slotCount - (n + 1)) (.ok none) ++
          [.ok (some (m.kind, m.transferId, m.payload.length))]) ∧
      v.txPacket = s.txPacket ∧ v.ingress = enqueued s.ingress packet := by
  induction hdelivers generalizing s n before with
  | nil =>
      rw [m.drop_slots hn] at hslots
      cases hslots
  | idle hidle hrest ih =>
      obtain ⟨v2, hwritten, hreplies⟩ := written_idle config s hidle
      obtain ⟨v, hfeed, htx, hingress⟩ :=
        ih (s := { s with v2 := v2 }) hlast hslots hpos hn hs
      refine ⟨v, ?_, htx, hingress⟩
      rw [feed_cons hwritten hfeed, hreplies]
      rfl
  | slot htime hrest ih =>
      rw [m.drop_slots hn, List.cons.injEq] at hslots
      obtain ⟨t, reply, hpush, hadvances⟩ :=
        hs.pushSlot hlen hpos hn (htime before hlast)
      apply feed_slot hkind hlen hprocess hn hslots.1 hpush hadvances
      · intro u hmore hholds
        exact ih rfl hslots.2 (Nat.succ_ne_zero n) hmore hholds
      · intro hend u
        apply feed_done hrest
        rw [hslots.2]
        exact m.drop_slots_last hend

theorem feed_message
    {last : Option ℕ} {slots : List (List UInt8)} {ws : List BusWrite}
    (hdelivers : Delivers last slots ws) (hslots : slots = m.slots)
    (s : I2cTask) :
    ∃ v, s.feed config ws = some (v,
        List.replicate (m.slotCount - 1) (.ok none) ++
          [.ok (some (m.kind, m.transferId, m.payload.length))]) ∧
      v.txPacket = s.txPacket ∧ v.ingress = enqueued s.ingress packet := by
  induction hdelivers generalizing s with
  | nil =>
      rw [m.slots_eq_cons] at hslots
      cases hslots
  | idle hidle hrest ih =>
      obtain ⟨v2, hwritten, hreplies⟩ := written_idle config s hidle
      obtain ⟨v, hfeed, htx, hingress⟩ := ih hslots { s with v2 := v2 }
      refine ⟨v, ?_, htx, hingress⟩
      rw [feed_cons hwritten hfeed, hreplies]
      rfl
  | slot htime hrest ih =>
      rw [m.slots_eq_cons, List.cons.injEq] at hslots
      obtain ⟨t, reply, hpush, hadvances⟩ :=
        @RxPacketState.pushSlot_first m s.rxPacket _ hlen
      apply feed_slot hkind hlen hprocess m.slotCount_pos hslots.1 hpush
        hadvances
      · intro u hmore hholds
        exact feed_open hkind hlen hprocess hrest rfl hslots.2 Nat.one_ne_zero
          hmore hholds
      · intro hend u
        apply feed_done hrest
        rw [hslots.2]
        exact m.drop_slots_last hend

end Request

end Feed

/-! ## Data requests -/

theorem processCompletePacket_dataRequest
    (config : BridgeConfig) (runtime : CommandRuntime) (id : UInt16)
    (payload : BoundedVec UInt8 i2cPacketMax)
    (hlen : payload.asSlice.length < 65536) :
    processCompletePacket config runtime kindData id
        (framed (reqDataMagic, respDataMagic) payload.asSlice) =
      .ofPacket (if payload.asSlice = [] then none
        else some ⟨kindData, payload⟩) := by
  have hparse := @parseRequestBytes_framed_data payload.asSlice [] hlen
  rw [List.append_nil] at hparse
  have hvec : BoundedVec.new.extendFromSlice payload.asSlice = some payload :=
    BoundedVec.extendFromSlice_eq_some _ _ _ rfl
  unfold processCompletePacket
  simp only [hparse]
  split
  · rfl
  · unfold forwardData makePacket
    rw [hvec]
    rfl

theorem contents_forwarded
    (q : I2cQueue) {packet : I2cPacket}
    (hlen : packet.payload.asSlice.length ≤ i2cPacketMax) :
    (q.pushOverwrite packet).2 = true ∧
      ∃ k, (q.pushOverwrite packet).1.contents =
        q.contents.drop k ++ [QueueCodec.wire packet] := by
  have hwire : (QueueCodec.wire packet).length =
      packet.payload.asSlice.length + 1 := rfl
  have hstorable : Fifo.Storable List.length ⟨packetQueueDepth, packetQueueBytes⟩
      (QueueCodec.wire packet) := by
    refine ⟨?_, ?_, by decide⟩
    · rw [hwire]
      exact Nat.succ_pos _
    · rw [hwire]
      simp only [i2cPacketMax, packetQueueBytes] at hlen ⊢
      omega
  obtain ⟨hcontents, haccepted⟩ := q.contents_pushOverwrite packet
  rw [Fifo.overwrite, dif_pos hstorable] at hcontents haccepted
  exact ⟨haccepted, _, hcontents⟩

/-- A data request of the host arrives as one packet with its payload: the
reassembly reports it once, with the last slot, and stages nothing. -/
theorem data_request_delivered
    (config : BridgeConfig) (id : UInt16) {payload : List UInt8}
    (hpayload : payload.length ≤ I2cHost.payloadMax) (s : I2cTask)
    {writes : List BusWrite}
    (hdelivers : Delivers none (I2cHost.sendData id payload).2 writes) :
    ∃ t, s.feed config writes = some (t,
        List.replicate ((I2cHost.sendData id payload).2.length - 1) (.ok none) ++
          [.ok (some (kindData, id, frameHeaderSize + payload.length))]) ∧
      t.txPacket = s.txPacket ∧
      (payload = [] → t.ingress = s.ingress) ∧
      (payload ≠ [] → ∃ packet : I2cPacket,
        packet.kind = kindData ∧ packet.payload.asSlice = payload ∧
          t.ingress = (s.ingress.pushOverwrite packet).1 ∧
          ∃ k, t.ingress.contents =
            s.ingress.contents.drop k ++ [QueueCodec.wire packet]) := by
  have hmax : payload.length ≤ 4092 := hpayload
  let bounded : BoundedVec UInt8 i2cPacketMax := ⟨payload, by
    simp only [i2cPacketMax]
    omega⟩
  have hframe : (dataRequest id payload).payload.length =
      frameHeaderSize + payload.length := length_framed _ _
  have hslots := sendData_slots id hpayload
  have hprocess : ∀ runtime,
      processCompletePacket config runtime (dataRequest id payload).kind
        (dataRequest id payload).transferId (dataRequest id payload).payload =
          .ofPacket (if payload = [] then none else some ⟨kindData, bounded⟩) := by
    intro runtime
    apply processCompletePacket_dataRequest config runtime id bounded
    show payload.length < 65536
    omega
  obtain ⟨t, hfeed, htx, hingress⟩ := @feed_message config (dataRequest id payload)
    _ (show kindData ≠ kindIdle by decide) (by
      rw [hframe]
      simp only [frameHeaderSize, i2cPacketMax]
      omega) hprocess none _ writes hdelivers hslots s
  refine ⟨t, ?_, htx, ?_, ?_⟩
  · rw [hfeed, hslots, Message.length_slots, hframe]
    rfl
  · intro hempty
    rw [hingress, if_pos hempty]
    rfl
  · intro hsome
    rw [if_neg hsome] at hingress
    refine ⟨⟨kindData, bounded⟩, rfl, rfl, hingress, ?_⟩
    rw [hingress]
    exact (contents_forwarded s.ingress bounded.length_le).2

/-- Twenty bytes take two slots, here with idle ones around them. -/
theorem data_request_delivered_two_slots :
    let m := dataRequest 7 (List.replicate 20 1)
    ∃ t, I2cTask.start.feed BridgeConfig.i2cServer
        [⟨0, CommandRuntime.idle, List.replicate slotSize 0⟩,
          ⟨10, CommandRuntime.idle, m.slot 0⟩,
          ⟨90, CommandRuntime.idle, List.replicate slotSize 0xFF⟩,
          ⟨50009, CommandRuntime.idle, m.slot 1⟩] =
          some (t, [.ok none, .ok (some (kindData, 7, 24))]) ∧
      t.txPacket = TxPacketState.new := by
  intro m
  have hslots : (I2cHost.sendData 7 (List.replicate 20 1)).2 =
      [m.slot 0, m.slot 1] := by
    decide +kernel
  have hdelivers : Delivers none (I2cHost.sendData 7 (List.replicate 20 1)).2
      [⟨0, CommandRuntime.idle, List.replicate slotSize 0⟩,
        ⟨10, CommandRuntime.idle, m.slot 0⟩,
        ⟨90, CommandRuntime.idle, List.replicate slotSize 0xFF⟩,
        ⟨50009, CommandRuntime.idle, m.slot 1⟩] := by
    rw [hslots]
    apply Delivers.idle ⟨rfl, .inl (by decide)⟩
    apply Delivers.slot (w := ⟨10, CommandRuntime.idle, m.slot 0⟩) (by simp)
    apply Delivers.idle ⟨rfl, .inr (.inl (by decide))⟩
    apply Delivers.slot (w := ⟨50009, CommandRuntime.idle, m.slot 1⟩)
    · intro before hbefore
      cases hbefore
      decide
    exact Delivers.nil
  obtain ⟨t, hfeed, htx, -⟩ := data_request_delivered BridgeConfig.i2cServer 7
    (by decide) I2cTask.start hdelivers
  rw [hslots] at hfeed
  exact ⟨t, hfeed, htx⟩

end I2c
end PicoFi
