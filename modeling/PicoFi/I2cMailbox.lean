import PicoFi.I2cSlots

/-!
# The packet mailbox of the second I2C protocol

One packet per transaction behind a four-byte header.  A read of the header
alone changes nothing; the mailbox is emptied only when a whole body was
read.
-/

namespace PicoFi
namespace PacketV2

open Buffer

def magic : UInt8 := 0xD2

abbrev headerLen : ℕ := 4
abbrev maxPayload : ℕ := 4092

def idle : UInt8 := 0
def data : UInt8 := 1
def command : UInt8 := 2
def bootsel : UInt8 := 0x7E
def error : UInt8 := 0x7F

def select : List UInt8 := [magic, idle, 0, 0]

/-- One of the kinds a header may have. -/
def IsKind (kind : UInt8) : Prop :=
  kind = idle ∨ kind = data ∨ kind = command ∨ kind = bootsel ∨ kind = error

instance (kind : UInt8) : Decidable (IsKind kind) :=
  inferInstanceAs (Decidable (_ ∨ _))

def header (kind : UInt8) (len : ℕ) : Except (List UInt8) (List UInt8) :=
  if maxPayload < len ∨ ¬IsKind kind ∨ (kind = idle ∧ len ≠ 0) then
    .error (ascii "invalid I2C v2 header")
  else .ok ([magic, kind] ++ le16 len)

def decode (raw : List UInt8) : Except (List UInt8) (UInt8 × ℕ) :=
  match raw with
  | b0 :: kind :: b2 :: b3 :: _ =>
      if b0 ≠ magic then
        .error (ascii "I2C v2 firmware required: unexpected packet header")
      else
        let len := u16le b2 b3
        match header kind len with
        | .error msg => .error msg
        | .ok _ => .ok (kind, len)
  | _ => .error (ascii "I2C v2 firmware required: unexpected packet header")

def packet (raw : List UInt8) : Except (List UInt8) (UInt8 × List UInt8) :=
  match decode raw with
  | .error msg => .error msg
  | .ok (kind, len) =>
      if raw.length ≠ headerLen + len then
        .error (ascii "incomplete I2C v2 packet")
      else .ok (kind, raw.drop headerLen)

theorem header_eq_ok
    {kind : UInt8} {len : ℕ} {bytes : List UInt8} :
    header kind len = .ok bytes ↔
      len ≤ maxPayload ∧ IsKind kind ∧ (kind = idle → len = 0) ∧
        bytes = [magic, kind] ++ le16 len := by
  unfold header
  split
  next hbad =>
    constructor
    · intro h
      cases h
    · rintro ⟨hlen, hkind, hidle, -⟩
      exfalso
      rcases hbad with h | h | h
      · omega
      · exact h hkind
      · exact h.2 (hidle h.1)
  next hgood =>
    push Not at hgood
    simp only [Except.ok.injEq]
    constructor
    · intro h
      exact ⟨hgood.1, hgood.2.1, hgood.2.2, h.symm⟩
    · rintro ⟨-, -, -, h⟩
      exact h.symm

theorem decode_header
    {kind : UInt8} {len : ℕ} {bytes : List UInt8}
    (hheader : header kind len = .ok bytes) : decode bytes = .ok (kind, len) := by
  obtain ⟨hlen, -, -, hbytes⟩ := header_eq_ok.mp hheader
  have hfield : u16le (UInt8.ofNat len) (UInt8.ofNat (len / 256)) = len := by
    refine u16le_ofNat ?_
    simp only [maxPayload] at hlen
    omega
  rw [hbytes]
  simp only [le16, List.cons_append, List.nil_append, decode, hfield, hheader,
    ne_eq, not_true, if_false]

/-! ## The mailbox -/

structure Mailbox where
  bytes : FixedBytes maxPayload
  len : ℕ
  kind : UInt8
  len_le : len ≤ maxPayload
  deriving DecidableEq

namespace Mailbox

def new : Mailbox where
  bytes := FixedBytes.padded []
  len := 0
  kind := idle
  len_le := Nat.zero_le _

def pending (m : Mailbox) : Bool := m.kind != idle

def stage (m : Mailbox) (kind : UInt8) (payload : List UInt8) :
    Except (List UInt8) Mailbox :=
  match hheader : PacketV2.header kind payload.length with
  | .error msg => .error msg
  | .ok _ =>
      if kind ≠ idle ∧ payload = [] then .error (ascii "empty I2C mailbox packet")
      else if m.pending then .error (ascii "I2C mailbox occupied")
      else
        have hlen : payload.length ≤ maxPayload := (header_eq_ok.mp hheader).1
        .ok
          { bytes := m.bytes.write 0 payload (by omega)
            len := payload.length
            kind := kind
            len_le := hlen }

/-- `none` is the failing `unwrap`. -/
def header (m : Mailbox) : Option (List UInt8) :=
  (PacketV2.header m.kind m.len).toOption

def payload (m : Mailbox) : List UInt8 := m.bytes.toList.take m.len

def completeBody (m : Mailbox) (complete : Bool) : Mailbox :=
  if complete then { m with kind := idle, len := 0, len_le := Nat.zero_le _ }
  else m

theorem length_payload (m : Mailbox) : m.payload.length = m.len := by
  rw [payload, List.length_take, m.bytes.length_toList]
  exact Nat.min_eq_left m.len_le

theorem stage_fitting
    {m : Mailbox} {kind : UInt8} {payload : List UInt8}
    (hpending : m.pending = false) (hkind : IsKind kind) (hidle : kind ≠ idle)
    (hpayload : payload ≠ []) (hlen : payload.length ≤ maxPayload) :
    ∃ n, m.stage kind payload = .ok n ∧ n.kind = kind ∧ n.payload = payload := by
  have hheader : PacketV2.header kind payload.length =
      .ok ([magic, kind] ++ le16 payload.length) :=
    header_eq_ok.mpr ⟨hlen, hkind, fun h => absurd h hidle, rfl⟩
  unfold stage
  split
  next msg herror =>
    rw [hheader] at herror
    cases herror
  next bytes hok =>
    rw [if_neg (fun h => hpayload h.2), hpending, if_neg Bool.false_ne_true]
    refine ⟨_, rfl, rfl, ?_⟩
    show (splice m.bytes.toList 0 payload).take payload.length = payload
    rw [splice_zero, List.take_left]

theorem stage_oversize
    (m : Mailbox) (kind : UInt8) {payload : List UInt8}
    (hlen : maxPayload < payload.length) :
    m.stage kind payload = .error (ascii "invalid I2C v2 header") := by
  have hheader : PacketV2.header kind payload.length =
      .error (ascii "invalid I2C v2 header") := by
    rw [PacketV2.header, if_pos (.inl hlen)]
  unfold stage
  split
  next msg herror =>
    rw [hheader] at herror
    cases herror
    rfl
  next bytes hok =>
    rw [hheader] at hok
    cases hok

end Mailbox

end PacketV2
end PicoFi
