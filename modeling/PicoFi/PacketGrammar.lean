import PicoFi.MailboxRuns

/-!
# The grammar of packets

The packet parser of the second I2C version validates a header by building it
again, so it accepts a header exactly when the encoder makes it.  A slot of the
first version starts with another byte, and the task answers it in the first
version whatever came before.
-/

namespace PicoFi
namespace PacketV2

open Buffer

/-! ## The parser and the encoder -/

theorem decode_eq_ok_iff {raw : List UInt8} {kind : UInt8} {len : ℕ} :
    decode raw = .ok (kind, len) ↔
      ∃ head rest, header kind len = .ok head ∧ raw = head ++ rest := by
  constructor
  · intro h
    unfold decode at h
    split at h
    next b0 first b2 b3 rest =>
      split at h
      next => contradiction
      next hmagic =>
        simp only at h
        split at h
        next => contradiction
        next head hheader =>
          cases h
          obtain ⟨-, -, -, hhead⟩ := header_eq_ok.mp hheader
          refine ⟨head, rest, hheader, ?_⟩
          rw [hhead, le16_u16le, not_not.mp hmagic]
          rfl
    next => contradiction
  · rintro ⟨head, rest, hheader, rfl⟩
    have hdecoded := decode_header hheader
    obtain ⟨-, -, -, rfl⟩ := header_eq_ok.mp hheader
    exact hdecoded

theorem length_of_header {kind : UInt8} {len : ℕ} {head : List UInt8}
    (h : header kind len = .ok head) : head.length = headerLen := by
  obtain ⟨-, -, -, rfl⟩ := header_eq_ok.mp h
  rfl

theorem packet_eq_ok_iff {raw payload : List UInt8} {kind : UInt8} :
    packet raw = .ok (kind, payload) ↔
      ∃ head, header kind payload.length = .ok head ∧ raw = head ++ payload := by
  constructor
  · intro h
    unfold packet at h
    split at h
    next => contradiction
    next first len hdecode =>
      split at h
      next => contradiction
      next hlength =>
        cases h
        obtain ⟨head, rest, hheader, rfl⟩ := decode_eq_ok_iff.mp hdecode
        have hhead := length_of_header hheader
        rw [not_not, List.length_append, hhead, Nat.add_left_cancel_iff] at hlength
        rw [List.drop_left' hhead, hlength]
        exact ⟨head, hheader, rfl⟩
  · rintro ⟨head, hheader, rfl⟩
    have hhead := length_of_header hheader
    have hdecode := decode_eq_ok_iff.mpr ⟨head, payload, hheader, rfl⟩
    simp only [packet, hdecode]
    rw [if_neg (by simp [hhead]), List.drop_left' hhead]

end PacketV2

namespace I2c

open Buffer LinkFrame Mailbox

/-! ## Slots among packets -/

/-- A write that has the length and the first bytes of a slot. -/
def IsV1Slot (raw : List UInt8) : Prop :=
  raw.length = slotSize ∧ raw.take 3 = [slotMagic0, slotMagic1, slotVersion]

theorem IsV1Slot.head {raw : List UInt8} (hslot : IsV1Slot raw) :
    raw.head? = some slotMagic0 := by
  obtain ⟨-, hfront⟩ := hslot
  cases raw with
  | nil => contradiction
  | cons first rest =>
      rw [List.take_succ_cons] at hfront
      exact congrArg some (List.cons.inj hfront).1

theorem IsV1Slot.isSlotWrite {raw : List UInt8} (hslot : IsV1Slot raw) (s : I2cTask) :
    IsSlotWrite s raw := by
  have hhead := hslot.head
  refine ⟨?_, ?_, fun _ => hslot⟩
  · rintro rfl
    exact absurd hhead (by decide)
  · rw [hhead]
    decide

theorem packet_isV1Slot {raw payload : List UInt8} {kind : UInt8}
    (hpacket : PacketV2.packet raw = .ok (kind, payload)) : ¬IsV1Slot raw := by
  intro hslot
  have hhead := PacketV2.head_of_packet hpacket
  rw [hslot.head] at hhead
  exact absurd hhead (by decide)

theorem v2_of_perform (s : I2cTask) (action : SlotAction) : (s.perform action).v2 = s.v2 := by
  cases action <;> rfl

theorem v2_of_handleWriteSlot {config : BridgeConfig} {runtime : CommandRuntime}
    {s t : I2cTask} {now : ℕ} {raw : List UInt8} {action : SlotAction}
    (h : s.handleWriteSlot config runtime now raw = some (t, action)) :
    t.v2 = s.v2 := by
  unfold I2cTask.handleWriteSlot at h
  split at h
  next => cases h; rfl
  next slot _ =>
    split at h
    next => contradiction
    next =>
      obtain ⟨payload, -, h⟩ := Option.map_eq_some_iff.mp h
      cases h
      rfl
    next => cases h; rfl
    next => cases h; rfl
  next => cases h; rfl

/-- A packet is accepted exactly when the grammar makes it, and a slot of the
first version is neither accepted as a packet nor served in the second version. -/
theorem packet_grammar (config : BridgeConfig) :
    (∀ (raw payload : List UInt8) (kind : UInt8),
      PacketV2.packet raw = .ok (kind, payload) ↔
        PacketV2.IsKind kind ∧ payload.length ≤ PacketV2.maxPayload ∧
          (kind = PacketV2.idle → payload = []) ∧
          ∃ head, PacketV2.header kind payload.length = .ok head ∧
            head.length = PacketV2.headerLen ∧ raw = head ++ payload) ∧
    (∀ (raw : List UInt8) (kind : UInt8) (len : ℕ),
      PacketV2.decode raw = .ok (kind, len) ↔
        ∃ head rest, PacketV2.header kind len = .ok head ∧
          head.length = PacketV2.headerLen ∧ raw = head ++ rest) ∧
    (∀ (raw payload : List UInt8) (kind : UInt8),
      PacketV2.packet raw = .ok (kind, payload) → ¬IsV1Slot raw) ∧
    ∀ (s : I2cTask) (w : BusWrite), IsV1Slot w.raw →
      s.receive config w.runtime w.raw = some { s with v2 := false } ∧
        s.writeAction config w =
          { s with v2 := false }.handleWriteSlot config w.runtime w.now w.raw ∧
        ∀ t, s.written config w = some t → t.v2 = false := by
  refine ⟨?_, ?_, fun raw payload kind => packet_isV1Slot, ?_⟩
  · intro raw payload kind
    rw [PacketV2.packet_eq_ok_iff]
    constructor
    · rintro ⟨head, hheader, rfl⟩
      obtain ⟨hlen, hkind, hidle, -⟩ := PacketV2.header_eq_ok.mp hheader
      exact ⟨hkind, hlen, fun h => List.length_eq_zero_iff.mp (hidle h), head, hheader,
        PacketV2.length_of_header hheader, rfl⟩
    · rintro ⟨-, -, -, head, hheader, -, rfl⟩
      exact ⟨head, hheader, rfl⟩
  · intro raw kind len
    rw [PacketV2.decode_eq_ok_iff]
    constructor
    · rintro ⟨head, rest, hheader, rfl⟩
      exact ⟨head, rest, hheader, PacketV2.length_of_header hheader, rfl⟩
    · rintro ⟨head, rest, hheader, -, rfl⟩
      exact ⟨head, rest, hheader, rfl⟩
  · intro s w hslot
    have hreceive := receive_slotWrite config w.runtime (hslot.isSlotWrite s)
    have haction : s.writeAction config w =
        { s with v2 := false }.handleWriteSlot config w.runtime w.now w.raw := by
      rw [I2cTask.writeAction, hreceive, Option.bind_some, if_neg Bool.false_ne_true,
        List.take_of_length_le hslot.1.le]
    refine ⟨hreceive, haction, ?_⟩
    intro t ht
    obtain ⟨⟨u, action⟩, hu, rfl⟩ := Option.map_eq_some_iff.mp ht
    rw [haction] at hu
    rw [v2_of_perform, v2_of_handleWriteSlot hu]

def emptySlot : BusWrite :=
  ⟨0, CommandRuntime.idle,
    [slotMagic0, slotMagic1, slotVersion] ++ List.replicate 29 0⟩

theorem packet_grammar_apart :
    ¬IsV1Slot [PacketV2.magic, PacketV2.data, 2, 0, 7, 9] ∧
      { I2cTask.start with v2 := true }.receive BridgeConfig.i2cServer
          emptySlot.runtime emptySlot.raw =
        some { I2cTask.start with v2 := false } :=
  ⟨(packet_grammar BridgeConfig.i2cServer).2.2.1 _ [7, 9] PacketV2.data rfl,
    ((packet_grammar BridgeConfig.i2cServer).2.2.2 { I2cTask.start with v2 := true }
      emptySlot ⟨rfl, rfl⟩).1⟩

end I2c
end PicoFi
