import PicoFi.CheckedReads
import PicoFi.ConfigRecord

/-!
# Discovery messages

Queries and offers are datagrams of 32 bytes: a magic word, the kind and the
party of the sender, a port, the nonce of the query, the identity of the sender
and six reserved bytes.  A query has no port and an offer has one.
-/

namespace PicoFi
namespace Discovery

open Buffer

def port : UInt16 := 49361

abbrev size : ℕ := 32

def magic : List UInt8 := ascii "PCFIND01"

inductive Party
  | groundStation
  | pico
  deriving DecidableEq

inductive Kind
  | query
  | offer
  deriving DecidableEq

def Party.toByte : Party → UInt8
  | .groundStation => 1
  | .pico => 2

def Party.ofByte : UInt8 → Option Party
  | 1 => some .groundStation
  | 2 => some .pico
  | _ => none

def Kind.toByte : Kind → UInt8
  | .query => 1
  | .offer => 2

def Kind.ofByte : UInt8 → Option Kind
  | 1 => some .query
  | 2 => some .offer
  | _ => none

@[simp] theorem Party.ofByte_toByte (party : Party) : Party.ofByte party.toByte = some party := by
  cases party <;> rfl

@[simp] theorem Kind.ofByte_toByte (kind : Kind) : Kind.ofByte kind.toByte = some kind := by
  cases kind <;> rfl

structure Message where
  kind : Kind
  party : Party
  port : UInt16
  nonce : UInt64
  identity : Mac
  deriving DecidableEq

namespace Message

def encode (m : Message) : List UInt8 :=
  magic ++ [m.kind.toByte, m.party.toByte] ++ le16 m.port.toNat ++
    leBytes 8 m.nonce.toNat ++ m.identity.toList ++ List.replicate 6 0

def decode (bytes : List UInt8) : Option Message := do
  if bytes.length ≠ size ∨ bytes.take 8 ≠ magic ∨ (bytes.drop 26).any (· != 0) then none
  let kind ← Kind.ofByte (bytes.getD 8 0)
  let party ← Party.ofByte (bytes.getD 9 0)
  let port := UInt16.ofNat (u16le (bytes.getD 10 0) (bytes.getD 11 0))
  if (kind = .query ∧ port ≠ 0) ∨ (kind = .offer ∧ port = 0) then none
  let nonce := UInt64.ofNat (leValue (slice bytes 12 20))
  if nonce = 0 then none
  let identity ← Mac.ofSlice (slice bytes 20 26)
  return { kind, party, port, nonce, identity }

def compatibleOffer (m query : Message) : Bool :=
  m.kind = .offer ∧ query.kind = .query ∧ m.party ≠ query.party ∧
    m.nonce = query.nonce ∧ m.identity ≠ query.identity ∧ m.port ≠ 0

/-- What an encoded message must satisfy to be read back. -/
structure WellFormed (m : Message) : Prop where
  nonce_ne : m.nonce ≠ 0
  port_iff : m.port = 0 ↔ m.kind = .query

@[simp] theorem length_encode (m : Message) : m.encode.length = size := by
  simp [encode, show magic.length = 8 from rfl]

theorem decode_encode {m : Message} (h : m.WellFormed) : decode m.encode = some m := by
  have hshape : ¬(m.encode.length ≠ size ∨ m.encode.take 8 ≠ magic ∨
      (m.encode.drop 26).any (· != 0)) := by
    rw [length_encode]
    simp only [ne_eq, not_true, false_or, not_or, not_not]
    exact ⟨rfl, by rw [show m.encode.drop 26 = List.replicate 6 0 from rfl]; decide⟩
  have hkind : Kind.ofByte (m.encode.getD 8 0) = some m.kind := m.kind.ofByte_toByte
  have hparty : Party.ofByte (m.encode.getD 9 0) = some m.party := m.party.ofByte_toByte
  have hport : UInt16.ofNat (u16le (m.encode.getD 10 0) (m.encode.getD 11 0)) = m.port := by
    rw [← UInt16.ofNat_toNat (x := m.port)]
    exact congrArg UInt16.ofNat (u16le_ofNat (UInt16.toNat_lt _))
  have hnonce : UInt64.ofNat (leValue (slice m.encode 12 20)) = m.nonce := by
    rw [show slice m.encode 12 20 = leBytes 8 m.nonce.toNat from rfl,
      leValue_leBytes (UInt64.toNat_lt _), UInt64.ofNat_toNat]
  have hidentity : Mac.ofSlice (slice m.encode 20 26) = some m.identity := rfl
  have hrole : ¬((m.kind = .query ∧ m.port ≠ 0) ∨ (m.kind = .offer ∧ m.port = 0)) := by
    rw [ne_eq, h.port_iff]
    cases m.kind <;> simp
  unfold decode
  simp only [if_neg hshape, hkind, hparty, hport, hnonce, hidentity, if_neg hrole,
    if_neg h.nonce_ne, Option.bind_eq_bind, Option.bind_some, Option.pure_def]

theorem WellFormed.of_decode {bytes : List UInt8} {m : Message}
    (h : decode bytes = some m) : m.WellFormed := by
  unfold decode at h
  simp only [Option.bind_eq_bind, Option.pure_def] at h
  split at h
  next => contradiction
  next =>
    obtain ⟨kind, hkind, h⟩ := Option.bind_eq_some_iff.mp h
    obtain ⟨party, hparty, h⟩ := Option.bind_eq_some_iff.mp h
    split at h
    next => contradiction
    next hrole =>
      split at h
      next => contradiction
      next hnonce =>
        obtain ⟨identity, hidentity, h⟩ := Option.bind_eq_some_iff.mp h
        rw [← Option.some.inj h]
        refine ⟨hnonce, ?_⟩
        cases kind with
        | query => simpa using hrole
        | offer => simpa using hrole

/-! ## Decoding checks every byte -/

theorem Kind.toByte_of_ofByte {byte : UInt8} {kind : Kind}
    (h : Kind.ofByte byte = some kind) : byte = kind.toByte := by
  unfold Kind.ofByte at h
  split at h <;> cases h <;> rfl

theorem Party.toByte_of_ofByte {byte : UInt8} {party : Party}
    (h : Party.ofByte byte = some party) : byte = party.toByte := by
  unfold Party.ofByte at h
  split at h <;> cases h <;> rfl

theorem toList_of_ofSlice {bytes : List UInt8} {mac : Mac}
    (h : Mac.ofSlice bytes = some mac) : bytes = mac.toList := by
  unfold Mac.ofSlice at h
  split at h <;> cases h
  rfl

theorem length_of_decode {bytes : List UInt8} {m : Message}
    (h : decode bytes = some m) : bytes.length = size := by
  by_contra hlength
  unfold decode at h
  simp [hlength] at h

theorem le16_port {bytes : List UInt8} {i : ℕ} (hi : i + 1 < bytes.length) :
    le16 (UInt16.ofNat (u16le (bytes.getD i 0) (bytes.getD (i + 1) 0))).toNat =
      slice bytes i (i + 2) := by
  have hlow := (bytes.getD i 0).toNat_lt
  have hhigh := (bytes.getD (i + 1) 0).toNat_lt
  have hlt : u16le (bytes.getD i 0) (bytes.getD (i + 1) 0) < 2 ^ 16 := by
    unfold u16le
    omega
  rw [UInt16.toNat_ofNat_of_lt' hlt, le16_u16le, slice_two hi]

theorem leBytes_nonce {bytes : List UInt8} (hlength : bytes.length = 8) :
    leBytes 8 (UInt64.ofNat (leValue bytes)).toNat = bytes := by
  have hlt := leValue_lt bytes
  rw [hlength] at hlt
  rw [UInt64.toNat_ofNat_of_lt' hlt, ← hlength, leBytes_leValue]

/-- The eight parts of a datagram. -/
theorem parts_eq {bytes : List UInt8} (hlength : bytes.length = size) :
    bytes = bytes.take 8 ++ [bytes.getD 8 0, bytes.getD 9 0] ++ slice bytes 10 12 ++
      slice bytes 12 20 ++ slice bytes 20 26 ++ bytes.drop 26 := by
  have hkinds : [bytes.getD 8 0, bytes.getD 9 0] = slice bytes 8 10 :=
    (slice_two (by rw [hlength]; decide)).symm
  have hhead : bytes.take 8 = slice bytes 0 8 := (slice_zero bytes 8).symm
  rw [hkinds, hhead, slice_append_slice (by decide) (by decide),
    slice_append_slice (by decide) (by decide), slice_append_slice (by decide) (by decide),
    slice_append_slice (by decide) (by decide), slice_zero, List.take_append_drop]

theorem eq_encode_of_decode {bytes : List UInt8} {m : Message}
    (h : decode bytes = some m) : bytes = m.encode := by
  have hlength := length_of_decode h
  unfold decode at h
  simp only [Option.bind_eq_bind, Option.pure_def] at h
  split at h
  next => contradiction
  next hshape =>
    obtain ⟨-, hmagic, hreserved⟩ : _ ∧ bytes.take 8 = magic ∧ _ := by
      simpa only [not_or, not_not] using hshape
    obtain ⟨kind, hkind, h⟩ := Option.bind_eq_some_iff.mp h
    obtain ⟨party, hparty, h⟩ := Option.bind_eq_some_iff.mp h
    split at h
    next => contradiction
    next =>
      split at h
      next => contradiction
      next =>
        obtain ⟨identity, hidentity, h⟩ := Option.bind_eq_some_iff.mp h
        have hzero : bytes.drop 26 = List.replicate 6 0 := by
          rw [List.eq_replicate_iff, List.length_drop, hlength]
          refine ⟨rfl, fun b hb => ?_⟩
          simpa using (List.any_eq_false.mp (Bool.eq_false_iff.mpr hreserved)) b hb
        rw [← Option.some.inj h]
        conv_lhs => rw [parts_eq hlength]
        rw [hmagic, hzero, Kind.toByte_of_ofByte hkind, Party.toByte_of_ofByte hparty,
          toList_of_ofSlice hidentity, encode, le16_port (by rw [hlength]; decide),
          leBytes_nonce (by rw [length_slice (by rw [hlength]; decide)])]

/-- `decode` with its reads checked; `none` is a read out of range. -/
def decode? (bytes : List UInt8) : Option (Option Message) := do
  if bytes.length ≠ size then return none
  if (← slice? bytes 0 8) ≠ magic then return none
  if (← slice? bytes 26 bytes.length).any (· != 0) then return none
  let some kind := Kind.ofByte (← bytes[8]?) | return none
  let some party := Party.ofByte (← bytes[9]?) | return none
  let port := UInt16.ofNat (leValue (← slice? bytes 10 12))
  if (kind = .query ∧ port ≠ 0) ∨ (kind = .offer ∧ port = 0) then return none
  let nonce := UInt64.ofNat (leValue (← slice? bytes 12 20))
  if nonce = 0 then return none
  let some identity := Mac.ofSlice (← slice? bytes 20 26) | return none
  return some { kind, party, port, nonce, identity }

theorem decode?_eq (bytes : List UInt8) : decode? bytes = some (decode bytes) := by
  unfold decode? decode
  by_cases hlength : bytes.length = size
  · have hread (lo hi : ℕ) (hlo : lo ≤ hi) (hhi : hi ≤ size) :
        slice? bytes lo hi = some (slice bytes lo hi) :=
      slice?_eq_some hlo (by rw [hlength]; exact hhi)
    have hbyte (i : ℕ) (hi : i < size) : bytes[i]? = some (bytes.getD i 0) := by
      rw [← hlength] at hi
      rw [List.getD_eq_getElem?_getD, List.getElem?_eq_getElem hi, Option.getD_some]
    have hport : leValue (slice bytes 10 12) = u16le (bytes.getD 10 0) (bytes.getD 11 0) := by
      rw [slice_two (by rw [hlength]; decide)]
      simp [leValue, u16le]
    have htail : slice bytes 26 size = bytes.drop 26 := by
      rw [slice, ← hlength, List.take_length]
    rw [hread 0 8 (by decide) (by decide), hlength, hread 26 size (by decide) (by decide),
      hbyte 8 (by decide), hbyte 9 (by decide), hread 10 12 (by decide) (by decide),
      hread 12 20 (by decide) (by decide), hread 20 26 (by decide) (by decide), htail,
      slice_zero]
    simp only [Option.bind_eq_bind, Option.bind_some, Option.pure_def, hport, ne_eq,
      not_true, if_false, false_or]
    by_cases hmagic : bytes.take 8 = magic
    · cases hreserved : (bytes.drop 26).any (· != 0) with
      | true => simp [hmagic]
      | false =>
          cases Kind.ofByte (bytes.getD 8 0) with
          | none => simp [hmagic]
          | some kind =>
              cases Party.ofByte (bytes.getD 9 0) with
              | none => simp [hmagic]
              | some party =>
                  simp only [hmagic, not_true, Bool.false_eq_true, or_self, if_false,
                    Option.bind_some]
                  generalize UInt16.ofNat (u16le (bytes.getD 10 0) (bytes.getD 11 0)) = port
                  generalize UInt64.ofNat (leValue (slice bytes 12 20)) = nonce
                  by_cases hrole : (kind = .query ∧ ¬port = 0) ∨ (kind = .offer ∧ port = 0)
                  · simp only [if_pos hrole, Option.bind_none]
                  · by_cases hnonce : nonce = 0
                    · simp only [if_neg hrole, if_pos hnonce, Option.bind_none]
                    · cases Mac.ofSlice (slice bytes 20 26) <;> simp [hrole, hnonce]
    · simp [hmagic]
  · simp [hlength]

theorem decode_eq_some_iff {bytes : List UInt8} {m : Message} :
    decode bytes = some m ↔
      m.nonce ≠ 0 ∧ (m.port = 0 ↔ m.kind = .query) ∧ bytes = m.encode := by
  constructor
  · intro h
    have hformed := WellFormed.of_decode h
    exact ⟨hformed.nonce_ne, hformed.port_iff, eq_encode_of_decode h⟩
  · rintro ⟨hnonce, hport, rfl⟩
    exact decode_encode ⟨hnonce, hport⟩

/-- The decoder reads inside its input only, accepts the encodings of
well-formed messages and nothing else; so the length, the reserved bytes, the
kind and the party of what it accepts are right. -/
theorem decode_canonical :
    (∀ (bytes : List UInt8) (m : Message), decode? bytes = some (some m) ↔
      m.nonce ≠ 0 ∧ (m.port = 0 ↔ m.kind = .query) ∧ bytes = m.encode) ∧
    (∀ bytes : List UInt8, decode? bytes ≠ none) ∧
    ∀ bytes : List UInt8,
      bytes.length ≠ size ∨ (∃ b ∈ bytes.drop 26, b ≠ 0) ∨
        (∀ kind : Kind, bytes[8]? ≠ some kind.toByte) ∨
        (∀ party : Party, bytes[9]? ≠ some party.toByte) →
      decode? bytes = some none := by
  refine ⟨?_, ?_, ?_⟩
  · intro bytes m
    rw [decode?_eq, Option.some.injEq]
    exact decode_eq_some_iff
  · intro bytes
    rw [decode?_eq]
    exact Option.some_ne_none _
  · intro bytes hbad
    rw [decode?_eq, Option.some.injEq, Option.eq_none_iff_forall_ne_some]
    intro m hm
    obtain ⟨-, -, rfl⟩ := decode_eq_some_iff.mp hm
    rcases hbad with hlength | ⟨b, hb, hne⟩ | hkind | hparty
    · exact hlength m.length_encode
    · have hzero : m.encode.drop 26 = List.replicate 6 0 := rfl
      rw [hzero] at hb
      exact hne (List.eq_of_mem_replicate hb)
    · exact hkind m.kind rfl
    · exact hparty m.party rfl

theorem decode_canonical_reserved :
    let query : Message := ⟨.query, .pico, 0, 0x0807060504030201, ⟨2, 3, 4, 5, 6, 7⟩⟩
    decode? (query.encode.set 31 1) = some none :=
  decode_canonical.2.2 _ (.inr (.inl ⟨1, by decide, by decide⟩))

theorem compatibleOffer_iff {m query : Message} :
    m.compatibleOffer query = true ↔
      m.kind = .offer ∧ query.kind = .query ∧ m.party ≠ query.party ∧
        m.nonce = query.nonce ∧ m.identity ≠ query.identity ∧ m.port ≠ 0 := by
  simp only [compatibleOffer, decide_eq_true_eq]

end Message

end Discovery
end PicoFi
