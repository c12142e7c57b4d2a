import PicoFi.BridgeConfig
import PicoFi.WiredPair

/-!
# The handshake of a link

Before a connection carries a session both ends exchange a fixed magic.  The
initiator writes it and then reads it back, the responder reads it and then
answers.  A step is one accepted part of a write, one delivered part of a read,
an error of the socket or the end of the time for reading, so a run of the pair
is any interleaving of the two ends with any partial reads and writes.
-/

namespace PicoFi
namespace Link

open Buffer

/-- The size of `buf` in `exchange_link_handshake`. -/
abbrev handshakeBytes : ℕ := 7

def linkHandshakeMagic : List UInt8 := ascii "PICOFI1"

inductive HandshakeState
  /-- Inside `write_socket`, with the bytes not written yet. -/
  | write (rest : List UInt8)
  /-- Inside `select`, between `read_socket_exact` and the timer. -/
  | read
  | returned (ok : Bool)
  deriving DecidableEq

structure Handshake where
  initiator : Bool
  magic : List UInt8
  state : HandshakeState
  /-- The part of `buf` that is filled. -/
  buf : List UInt8
  /-- The bytes the socket has accepted. -/
  accepted : List UInt8
  deriving DecidableEq

inductive HandshakeEvent
  /-- The socket accepts the next `n` bytes. -/
  | write (n : ℕ)
  | writeFault
  /-- The socket delivers these bytes. -/
  | read (bytes : List UInt8)
  | readFault
  | timeout
  deriving DecidableEq

namespace Handshake

/-- Where `write_socket` leaves an end that still has to write these bytes. -/
def afterWrite (initiator : Bool) (rest : List UInt8) : HandshakeState :=
  if rest = [] then
    if initiator then .read else .returned true
  else .write rest

def afterRead (initiator : Bool) (magic buf : List UInt8) : HandshakeState :=
  if buf.length < handshakeBytes then .read
  else if buf = magic then
    if initiator then .returned true else afterWrite initiator magic
  else .returned false

def start (initiator : Bool) (magic : List UInt8) : Handshake where
  initiator := initiator
  magic := magic
  state := if initiator then afterWrite initiator magic else .read
  buf := []
  accepted := []

def step (h : Handshake) : HandshakeEvent → Option Handshake
  | .write n =>
      match h.state with
      | .write rest =>
          if 0 < n ∧ n ≤ rest.length then
            some { h with
              state := afterWrite h.initiator (rest.drop n)
              accepted := h.accepted ++ rest.take n }
          else none
      | _ => none
  | .writeFault =>
      match h.state with
      | .write _ => some { h with state := .returned false }
      | _ => none
  | .read bytes =>
      match h.state with
      | .read =>
          if bytes ≠ [] ∧ h.buf.length + bytes.length ≤ handshakeBytes then
            some { h with
              state := afterRead h.initiator h.magic (h.buf ++ bytes)
              buf := h.buf ++ bytes }
          else none
      | _ => none
  | .readFault =>
      match h.state with
      | .read => some { h with state := .returned false }
      | _ => none
  | .timeout =>
      match h.state with
      | .read => some { h with state := .returned false }
      | _ => none

def Succeeded (h : Handshake) : Prop := h.state = .returned true

instance (h : Handshake) : Decidable h.Succeeded :=
  inferInstanceAs (Decidable (_ = _))

/-! ## What one step does -/

/-- A step accepts a part of the magic, takes a part of the answer or gives
up. -/
theorem step_cases {h t : Handshake} {e : HandshakeEvent}
    (hstep : h.step e = some t) :
    (∃ n rest, e = .write n ∧ h.state = .write rest ∧ 0 < n ∧ n ≤ rest.length ∧
        t = { h with
          state := afterWrite h.initiator (rest.drop n)
          accepted := h.accepted ++ rest.take n }) ∨
      (∃ bytes, e = .read bytes ∧ h.state = .read ∧ bytes ≠ [] ∧
        h.buf.length + bytes.length ≤ handshakeBytes ∧
        t = { h with
          state := afterRead h.initiator h.magic (h.buf ++ bytes)
          buf := h.buf ++ bytes }) ∨
      (e ∈ [HandshakeEvent.writeFault, .readFault, .timeout] ∧
        (∀ ok, h.state ≠ .returned ok) ∧
        t = { h with state := .returned false }) := by
  cases e with
  | write n =>
      cases hstate : h.state with
      | write rest =>
          simp only [step, hstate] at hstep
          obtain ⟨hn, heq⟩ := Option.ite_none_right_eq_some.mp hstep
          cases heq
          exact .inl ⟨n, rest, rfl, rfl, hn.1, hn.2, rfl⟩
      | read => simp [step, hstate] at hstep
      | returned ok => simp [step, hstate] at hstep
  | read bytes =>
      cases hstate : h.state with
      | write rest => simp [step, hstate] at hstep
      | read =>
          simp only [step, hstate] at hstep
          obtain ⟨hbytes, heq⟩ := Option.ite_none_right_eq_some.mp hstep
          cases heq
          exact .inr (.inl ⟨bytes, rfl, rfl, hbytes.1, hbytes.2, rfl⟩)
      | returned ok => simp [step, hstate] at hstep
  | writeFault =>
      cases hstate : h.state with
      | write rest =>
          simp only [step, hstate, Option.some.injEq] at hstep
          exact .inr (.inr ⟨by simp, by simp, hstep.symm⟩)
      | read => simp [step, hstate] at hstep
      | returned ok => simp [step, hstate] at hstep
  | readFault =>
      cases hstate : h.state with
      | write rest => simp [step, hstate] at hstep
      | read =>
          simp only [step, hstate, Option.some.injEq] at hstep
          exact .inr (.inr ⟨by simp, by simp, hstep.symm⟩)
      | returned ok => simp [step, hstate] at hstep
  | timeout =>
      cases hstate : h.state with
      | write rest => simp [step, hstate] at hstep
      | read =>
          simp only [step, hstate, Option.some.injEq] at hstep
          exact .inr (.inr ⟨by simp, by simp, hstep.symm⟩)
      | returned ok => simp [step, hstate] at hstep

theorem accepted_mono {h t : Handshake} {e : HandshakeEvent}
    (hstep : h.step e = some t) : h.accepted <+: t.accepted := by
  obtain ⟨n, rest, -, -, -, -, rfl⟩ | ⟨bytes, -, -, -, -, rfl⟩ | ⟨-, -, rfl⟩ :=
    step_cases hstep
  · exact List.prefix_append _ _
  · exact List.prefix_rfl
  · exact List.prefix_rfl

/-- The other end's magic has arrived and is the own one. -/
def Answered (h : Handshake) : Prop :=
  h.buf = h.magic ∧ h.magic.length = handshakeBytes

/-- What the bytes written and read so far have to do with the state. -/
def Exchanged (h : Handshake) : Prop :=
  match h.state with
  | .write rest =>
      rest ≠ [] ∧ h.accepted ++ rest = h.magic ∧
        if h.initiator then h.buf = [] else h.Answered
  | .read =>
      h.buf.length < handshakeBytes ∧
        h.accepted = if h.initiator then h.magic else []
  | .returned true => h.accepted = h.magic ∧ h.Answered
  | .returned false =>
      h.accepted <+: h.magic ∧
        (h.initiator = false → h.accepted = [] ∨
          h.accepted.length < h.magic.length ∧ h.Answered)

/-- The invariant of one end. -/
structure Exchanging (initiator : Bool) (magic : List UInt8) (h : Handshake) :
    Prop where
  initiator_eq : h.initiator = initiator
  magic_eq : h.magic = magic
  buf_length : h.buf.length ≤ handshakeBytes
  exchanged : h.Exchanged

section Steps

variable {initiator : Bool} {magic : List UInt8} {h t : Handshake}

theorem exchanging_start (initiator : Bool) (magic : List UInt8) :
    Exchanging initiator magic (start initiator magic) := by
  refine ⟨rfl, rfl, Nat.zero_le _, ?_⟩
  cases initiator with
  | false => simp [Exchanged, start]
  | true =>
      by_cases hmagic : magic = []
      · simp [Exchanged, start, afterWrite, hmagic]
      · simp [Exchanged, start, afterWrite, hmagic]

theorem Exchanging.afterPart (hh : Exchanging initiator magic h) {n : ℕ}
    {rest : List UInt8} (hstate : h.state = .write rest) :
    Exchanging initiator magic { h with
      state := afterWrite h.initiator (rest.drop n)
      accepted := h.accepted ++ rest.take n } := by
  have hexchanged := hh.exchanged
  simp only [Exchanged, hstate] at hexchanged
  obtain ⟨-, hmagic, hbuf⟩ := hexchanged
  have hwhole : (h.accepted ++ rest.take n) ++ rest.drop n = h.magic := by
    rw [List.append_assoc, List.take_append_drop, hmagic]
  refine ⟨hh.initiator_eq, hh.magic_eq, hh.buf_length, ?_⟩
  by_cases hrest : rest.drop n = []
  · rw [hrest, List.append_nil] at hwhole
    cases hinitiator : h.initiator with
    | true =>
        simp only [hinitiator, if_true] at hbuf
        simp [Exchanged, afterWrite, hrest, hwhole, hbuf]
    | false =>
        simp only [hinitiator, Bool.false_eq_true, if_false] at hbuf
        simp only [Exchanged, afterWrite, hrest, if_true, Bool.false_eq_true,
          if_false]
        exact ⟨hwhole, hbuf⟩
  · simp only [Exchanged, afterWrite, if_neg hrest]
    exact ⟨hrest, hwhole, hbuf⟩

theorem Exchanging.afterBytes (hh : Exchanging initiator magic h)
    {bytes : List UInt8} (hstate : h.state = .read)
    (hbytes : h.buf.length + bytes.length ≤ handshakeBytes) :
    Exchanging initiator magic { h with
      state := afterRead h.initiator h.magic (h.buf ++ bytes)
      buf := h.buf ++ bytes } := by
  have hexchanged := hh.exchanged
  simp only [Exchanged, hstate] at hexchanged
  obtain ⟨-, haccepted⟩ := hexchanged
  have hlength : (h.buf ++ bytes).length ≤ handshakeBytes := by
    rwa [List.length_append]
  refine ⟨hh.initiator_eq, hh.magic_eq, hlength, ?_⟩
  by_cases hpart : (h.buf ++ bytes).length < handshakeBytes
  · simp only [Exchanged, afterRead, if_pos hpart]
    exact ⟨hpart, haccepted⟩
  · have hfull : (h.buf ++ bytes).length = handshakeBytes :=
      le_antisymm hlength (Nat.le_of_not_lt hpart)
    by_cases hsame : h.buf ++ bytes = h.magic
    · have hmagic : h.magic.length = handshakeBytes := hsame ▸ hfull
      have hnonempty : h.magic ≠ [] := by
        intro hnil
        rw [hnil] at hmagic
        exact absurd hmagic (by decide)
      cases hinitiator : h.initiator with
      | true =>
          simp only [hinitiator, if_true] at haccepted
          simp only [Exchanged, afterRead, if_neg hpart, if_pos hsame, if_true]
          exact ⟨haccepted, hsame, hmagic⟩
      | false =>
          simp only [hinitiator, Bool.false_eq_true, if_false] at haccepted
          simp only [Exchanged, afterRead, if_neg hpart, if_pos hsame,
            Bool.false_eq_true, if_false, afterWrite, if_neg hnonempty]
          refine ⟨hnonempty, ?_, hsame, hmagic⟩
          rw [haccepted, List.nil_append]
    · simp only [Exchanged, afterRead, if_neg hpart, if_neg hsame]
      refine ⟨?_, fun hresponder => ?_⟩
      · rw [haccepted]
        split
        · exact List.prefix_rfl
        · exact List.nil_prefix
      · rw [hresponder] at haccepted
        exact .inl haccepted

theorem Exchanging.afterFailure (hh : Exchanging initiator magic h)
    (hstate : ∀ ok, h.state ≠ .returned ok) :
    Exchanging initiator magic { h with state := .returned false } := by
  refine ⟨hh.initiator_eq, hh.magic_eq, hh.buf_length, ?_⟩
  have hexchanged := hh.exchanged
  cases hcase : h.state with
  | returned ok => exact absurd hcase (hstate ok)
  | read =>
      simp only [Exchanged, hcase] at hexchanged ⊢
      obtain ⟨-, haccepted⟩ := hexchanged
      refine ⟨?_, fun hresponder => ?_⟩
      · rw [haccepted]
        split
        · exact List.prefix_rfl
        · exact List.nil_prefix
      · rw [hresponder] at haccepted
        exact .inl haccepted
  | write rest =>
      simp only [Exchanged, hcase] at hexchanged ⊢
      obtain ⟨hrest, hmagic, hbuf⟩ := hexchanged
      refine ⟨⟨rest, hmagic⟩, fun hresponder => .inr ⟨?_, ?_⟩⟩
      · have hpos := List.length_pos_iff.mpr hrest
        rw [← hmagic, List.length_append]
        omega
      · rwa [hresponder, if_neg Bool.false_ne_true] at hbuf

theorem Exchanging.afterStep (hh : Exchanging initiator magic h)
    {e : HandshakeEvent} (hstep : h.step e = some t) :
    Exchanging initiator magic t := by
  obtain ⟨n, rest, -, hstate, -, -, rfl⟩ | ⟨bytes, -, hstate, -, hbytes, rfl⟩ |
      ⟨-, hstate, rfl⟩ := step_cases hstep
  · exact hh.afterPart hstate
  · exact hh.afterBytes hstate hbytes
  · exact hh.afterFailure hstate

theorem exchanging_of_reaches {es : List HandshakeEvent}
    (hreach : Runs.Reaches step (start initiator magic) es h) :
    Exchanging initiator magic h :=
  hreach.invariant (fun _ _ _ hh hstep => hh.afterStep hstep)
    (exchanging_start initiator magic)

/-! ## What a state says about the two streams -/

theorem Exchanging.accepted_prefix (hh : Exchanging initiator magic h) :
    h.accepted <+: magic := by
  have hexchanged := hh.exchanged
  rw [← hh.magic_eq]
  cases hcase : h.state with
  | write rest =>
      simp only [Exchanged, hcase] at hexchanged
      exact ⟨rest, hexchanged.2.1⟩
  | read =>
      simp only [Exchanged, hcase] at hexchanged
      rw [hexchanged.2]
      split
      · exact List.prefix_rfl
      · exact List.nil_prefix
  | returned ok =>
      cases ok with
      | true =>
          simp only [Exchanged, hcase] at hexchanged
          rw [hexchanged.1]
      | false =>
          simp only [Exchanged, hcase] at hexchanged
          exact hexchanged.1

theorem Exchanging.of_succeeded (hh : Exchanging initiator magic h)
    (hdone : h.Succeeded) :
    h.accepted = magic ∧ h.buf = magic ∧ magic.length = handshakeBytes := by
  have hexchanged := hh.exchanged
  rw [Succeeded] at hdone
  simp only [Exchanged, hdone, Answered, hh.magic_eq] at hexchanged
  exact hexchanged

/-- A responder that has written anything was answered, and one that has
written everything is done. -/
theorem Exchanging.responder (hh : Exchanging false magic h)
    (haccepted : h.accepted ≠ []) :
    h.buf = magic ∧ magic.length = handshakeBytes ∧
      (h.accepted = magic → h.Succeeded) := by
  have hexchanged := hh.exchanged
  have hinitiator := hh.initiator_eq
  cases hcase : h.state with
  | write rest =>
      simp only [Exchanged, hcase, hinitiator, Bool.false_eq_true, if_false,
        Answered, hh.magic_eq] at hexchanged
      obtain ⟨hrest, hmagic, hbuf, hlength⟩ := hexchanged
      refine ⟨hbuf, hlength, fun hall => ?_⟩
      rw [hall] at hmagic
      exact absurd (List.append_right_eq_self.mp hmagic) hrest
  | read =>
      simp only [Exchanged, hcase, hinitiator, Bool.false_eq_true,
        if_false] at hexchanged
      exact absurd hexchanged.2 haccepted
  | returned ok =>
      cases ok with
      | true =>
          obtain ⟨-, hbuf, hlength⟩ := hh.of_succeeded hcase
          exact ⟨hbuf, hlength, fun _ => hcase⟩
      | false =>
          simp only [Exchanged, hcase, hinitiator, Answered,
            hh.magic_eq] at hexchanged
          rcases hexchanged.2 trivial with hnil | ⟨hshort, hbuf, hlength⟩
          · exact absurd hnil haccepted
          · refine ⟨hbuf, hlength, fun hall => ?_⟩
            rw [hall] at hshort
            exact absurd hshort (Nat.lt_irrefl _)

end Steps

/-! ## Both ends -/

/-- One end of a connection while the handshake runs on it. -/
def component : Wired.Component Handshake HandshakeEvent UInt8 where
  step := step
  sent := accepted
  taken := buf
  sent_mono := accepted_mono

/-- An initiator with one magic against a responder with another. -/
def startPair (magic magic' : List UInt8) : Handshake × Handshake :=
  (start true magic, start false magic')

abbrev pairStep := Wired.step component component

variable {magic magic' : List UInt8} {s : Handshake × Handshake}

/-- The pair at a point of its run. -/
structure Paired (magic magic' : List UInt8) (s : Handshake × Handshake) : Prop where
  initiator : Exchanging true magic s.1
  responder : Exchanging false magic' s.2
  joined : Wired.Joined component component s

theorem joined_startPair (magic magic' : List UInt8) :
    Wired.Joined component component (startPair magic magic') where
  left := List.prefix_rfl
  right := List.prefix_rfl

theorem paired_of_reaches {events : List (HandshakeEvent ⊕ HandshakeEvent)}
    (hreach : Runs.Reaches pairStep (startPair magic magic') events s) :
    Paired magic magic' s where
  initiator := exchanging_of_reaches (Wired.interleave_left hreach)
  responder := exchanging_of_reaches (Wired.interleave_right hreach)
  joined := Wired.joined_of_reaches (joined_startPair magic magic') hreach

/-- A successful initiator has the whole answer of a responder with its own
magic, which has returned with success before. -/
theorem Paired.initiator_succeeded (hs : Paired magic magic' s)
    (hdone : s.1.Succeeded) :
    magic = magic' ∧ s.2.Succeeded ∧ s.1.buf = s.2.accepted := by
  obtain ⟨-, hbuf, hlength⟩ := hs.initiator.of_succeeded hdone
  have htaken : magic <+: s.2.accepted := hbuf ▸ hs.joined.left
  have hnonempty : s.2.accepted ≠ [] := by
    intro hnil
    rw [hnil, List.prefix_nil] at htaken
    rw [htaken] at hlength
    exact absurd hlength (by decide)
  obtain ⟨-, hlength', hall⟩ := hs.responder.responder hnonempty
  have hsame : magic = magic' :=
    (htaken.trans hs.responder.accepted_prefix).eq_of_length (hlength.trans hlength'.symm)
  have haccepted : s.2.accepted = magic' :=
    hs.responder.accepted_prefix.eq_of_length
      (le_antisymm hs.responder.accepted_prefix.length_le (hsame ▸ htaken.length_le))
  exact ⟨hsame, hall haccepted, by rw [hbuf, haccepted, hsame]⟩

/-- A responder that has written anything has the whole magic of the
initiator. -/
theorem Paired.responder_answered (hs : Paired magic magic' s)
    (haccepted : s.2.accepted ≠ []) :
    magic' <+: s.1.accepted ∧ magic' <+: magic ∧ s.2.buf = magic' := by
  obtain ⟨hbuf, -, -⟩ := hs.responder.responder haccepted
  have htaken : magic' <+: s.1.accepted := hbuf ▸ hs.joined.right
  exact ⟨htaken, htaken.trans hs.initiator.accepted_prefix, hbuf⟩

/-- Whatever the two magics, the interleaving, the parts and the failures: an
initiator succeeds only after a responder with the same magic has, and a
responder only on the initiator's own bytes.  Both have then taken exactly the
bytes the other one wrote. -/
theorem handshake_agreement
    (magic magic' : List UInt8) (events : List (HandshakeEvent ⊕ HandshakeEvent))
    (s : Handshake × Handshake)
    (hreach : Runs.Reaches pairStep (startPair magic magic') events s) :
    (s.1.Succeeded → magic = magic' ∧ s.2.Succeeded ∧
        s.1.buf = s.2.accepted ∧ s.2.buf = s.1.accepted) ∧
      (s.2.accepted ≠ [] → magic' <+: magic ∧ magic' <+: s.1.accepted ∧
        s.2.buf = magic') := by
  have hs := paired_of_reaches hreach
  refine ⟨fun hdone => ?_, fun haccepted => ?_⟩
  · obtain ⟨hsame, hdone', hbuf⟩ := hs.initiator_succeeded hdone
    have haccepted := (hs.initiator.of_succeeded hdone).1
    have hbuf' := (hs.responder.of_succeeded hdone').2.1
    exact ⟨hsame, hdone', hbuf, by rw [hbuf', haccepted, hsame]⟩
  · obtain ⟨htaken, hbegin, hbuf⟩ := hs.responder_answered haccepted
    exact ⟨hbegin, htaken, hbuf⟩

/-- The magic in two parts each way, the answer read byte by byte at first. -/
def handshakeParts : List (HandshakeEvent ⊕ HandshakeEvent) :=
  [.inl (.write 4), .inr (.read (ascii "PIC")), .inl (.write 3),
    .inr (.read (ascii "OFI1")), .inr (.write 1), .inl (.read (ascii "P")),
    .inr (.write 6), .inl (.read (ascii "ICOFI1"))]

theorem handshake_agreement_parts :
    ∃ s, Runs.Reaches pairStep (startPair linkHandshakeMagic linkHandshakeMagic)
        handshakeParts s ∧
      s.2.Succeeded ∧ s.1.buf = s.2.accepted ∧ s.2.buf = s.1.accepted := by
  have hsome : ∃ s, Runs.Reaches pairStep
      (startPair linkHandshakeMagic linkHandshakeMagic) handshakeParts s ∧
        s.1.Succeeded := by
    refine ⟨_, rfl, ?_⟩
    decide
  obtain ⟨s, hreach, hdone⟩ := hsome
  have hagree := (handshake_agreement _ _ handshakeParts s hreach).1 hdone
  exact ⟨s, hreach, hagree.2⟩

/-! ## Runs without a fault -/

def Faultless (e : HandshakeEvent ⊕ HandshakeEvent) : Prop :=
  e.elim id id ∉ [HandshakeEvent.writeFault, .readFault, .timeout]

instance (e : HandshakeEvent ⊕ HandshakeEvent) : Decidable (Faultless e) :=
  inferInstanceAs (Decidable (_ ∉ _))

/-- The bytes both ends have written and read. -/
def progress (s : Handshake × Handshake) : ℕ :=
  s.1.accepted.length + s.1.buf.length + s.2.accepted.length + s.2.buf.length

/-- Neither end has failed. -/
structure Unfailed (magic : List UInt8) (s : Handshake × Handshake) : Prop where
  paired : Paired magic magic s
  initiator : s.1.state ≠ .returned false
  responder : s.2.state ≠ .returned false

theorem afterWrite_ne_failed (initiator : Bool) (rest : List UInt8) :
    afterWrite initiator rest ≠ .returned false := by
  unfold afterWrite
  split
  · split <;> simp
  · simp

theorem afterRead_ne_failed {initiator : Bool} {buf : List UInt8}
    (hmagic : magic.length = handshakeBytes) (hbuf : buf <+: magic) :
    afterRead initiator magic buf ≠ .returned false := by
  unfold afterRead
  split
  · simp
  · next hfull =>
    have hlength := hbuf.length_le
    have hsame : buf = magic := hbuf.eq_of_length (by omega)
    rw [if_pos hsame]
    split
    · simp
    · exact afterWrite_ne_failed initiator magic

/-- A part of a write or of a read is progress, and no failure while the bytes
read are those of the magic. -/
theorem step_progress {h t : Handshake} {e : HandshakeEvent}
    (hstep : h.step e = some t)
    (hquiet : e ∉ [HandshakeEvent.writeFault, .readFault, .timeout])
    (hmagic : h.magic.length = handshakeBytes) (hbuf : t.buf <+: h.magic) :
    t.state ≠ .returned false ∧
      h.accepted.length + h.buf.length < t.accepted.length + t.buf.length := by
  obtain ⟨n, rest, -, -, hpos, hn, rfl⟩ | ⟨bytes, -, -, hbytes, -, rfl⟩ |
      ⟨hfault, -, -⟩ := step_cases hstep
  · refine ⟨afterWrite_ne_failed _ _, ?_⟩
    simp only [List.length_append, List.length_take]
    omega
  · have hpos := List.length_pos_iff.mpr hbytes
    refine ⟨afterRead_ne_failed hmagic hbuf, ?_⟩
    simp only [List.length_append]
    omega
  · exact absurd hfault hquiet

theorem Unfailed.afterStep {t : Handshake × Handshake}
    {e : HandshakeEvent ⊕ HandshakeEvent} (hmagic : magic.length = handshakeBytes)
    (hs : Unfailed magic s) (hfaultless : Faultless e) (hstep : pairStep s e = some t) :
    Unfailed magic t ∧ progress s < progress t := by
  obtain ⟨hinitiator, hresponder, hjoined⟩ := hs.paired
  have hafter := hjoined.afterStep hstep
  obtain ⟨e, rfl, hnext, hsame, htaken⟩ | ⟨e, rfl, hnext, hsame, htaken⟩ :=
    Wired.interleave_cases hstep
  · have hbuf : t.1.buf <+: s.1.magic :=
      hinitiator.magic_eq ▸ htaken.trans hresponder.accepted_prefix
    obtain ⟨hstate, hprogress⟩ := step_progress hnext
      hfaultless (hinitiator.magic_eq ▸ hmagic) hbuf
    refine ⟨⟨⟨hinitiator.afterStep hnext, hsame ▸ hresponder, hafter⟩, hstate,
      hsame ▸ hs.responder⟩, ?_⟩
    simp only [progress, hsame]
    omega
  · have hbuf : t.2.buf <+: s.2.magic :=
      hresponder.magic_eq ▸ htaken.trans hinitiator.accepted_prefix
    obtain ⟨hstate, hprogress⟩ := step_progress hnext
      hfaultless (hresponder.magic_eq ▸ hmagic) hbuf
    refine ⟨⟨⟨hsame ▸ hinitiator, hresponder.afterStep hnext, hafter⟩,
      hsame ▸ hs.initiator, hstate⟩, ?_⟩
    simp only [progress, hsame]
    omega

/-- The part of the magic that is still to be read can be read once the other
end has written it all. -/
theorem step_read_rest {h : Handshake} (hstate : h.state = .read)
    (hmagic : h.magic.length = handshakeBytes) (hbuf : h.buf <+: h.magic)
    (hshort : h.buf.length < handshakeBytes) :
    ∃ t, h.step (.read (h.magic.drop h.buf.length)) = some t ∧ t.buf = h.magic := by
  have hwhole : h.buf ++ h.magic.drop h.buf.length = h.magic := by
    obtain ⟨back, hback⟩ := hbuf
    rw [← hback, List.drop_left' rfl]
  have hguard : h.magic.drop h.buf.length ≠ [] ∧
      h.buf.length + (h.magic.drop h.buf.length).length ≤ handshakeBytes := by
    refine ⟨?_, ?_⟩
    · intro hnil
      rw [List.drop_eq_nil_iff] at hnil
      omega
    · rw [List.length_drop]
      omega
  refine ⟨{ h with
    state := afterRead h.initiator h.magic (h.buf ++ h.magic.drop h.buf.length)
    buf := h.buf ++ h.magic.drop h.buf.length }, ?_, hwhole⟩
  simp only [step, hstate, if_pos hguard]

theorem step_write_rest {h : Handshake} {rest : List UInt8}
    (hstate : h.state = .write rest) (hrest : rest ≠ []) :
    ∃ t, h.step (.write rest.length) = some t ∧ t.buf = h.buf := by
  have hguard : 0 < rest.length ∧ rest.length ≤ rest.length :=
    ⟨List.length_pos_iff.mpr hrest, Nat.le_refl _⟩
  refine ⟨{ h with
    state := afterWrite h.initiator (rest.drop rest.length)
    accepted := h.accepted ++ rest.take rest.length }, ?_, rfl⟩
  simp only [step, hstate, if_pos hguard]

theorem pairStep_left {e : HandshakeEvent} {t : Handshake}
    (hstep : s.1.step e = some t) (htaken : t.buf <+: s.2.accepted) :
    pairStep s (.inl e) = some (t, s.2) := by
  have hnext : component.step s.1 e = some t := hstep
  have hguard : component.taken t <+: component.sent s.2 := htaken
  simp only [pairStep, Wired.step, Wired.interleave, hnext, Option.bind_some, if_pos hguard]

theorem pairStep_right {e : HandshakeEvent} {t : Handshake}
    (hstep : s.2.step e = some t) (htaken : t.buf <+: s.1.accepted) :
    pairStep s (.inr e) = some (s.1, t) := by
  have hnext : component.step s.2 e = some t := hstep
  have hguard : component.taken t <+: component.sent s.1 := htaken
  simp only [pairStep, Wired.step, Wired.interleave, hnext, Option.bind_some, if_pos hguard]

theorem Exchanging.of_read {initiator : Bool} {h : Handshake}
    (hh : Exchanging initiator magic h) (hstate : h.state = .read) :
    h.buf.length < handshakeBytes ∧ h.accepted = if initiator then magic else [] := by
  have hexchanged := hh.exchanged
  simp only [Exchanged, hstate, hh.initiator_eq, hh.magic_eq] at hexchanged
  exact hexchanged

theorem Exchanging.of_write {initiator : Bool} {h : Handshake}
    (hh : Exchanging initiator magic h) {rest : List UInt8}
    (hstate : h.state = .write rest) : rest ≠ [] := by
  have hexchanged := hh.exchanged
  simp only [Exchanged, hstate] at hexchanged
  exact hexchanged.1

/-- As long as nothing has failed, an end that is not done can go on or waits
for an end that can. -/
theorem Unfailed.canStep (hmagic : magic.length = handshakeBytes)
    (hs : Unfailed magic s) (hrunning : ¬(s.1.Succeeded ∧ s.2.Succeeded)) :
    ∃ e t, Faultless e ∧ pairStep s e = some t := by
  obtain ⟨hinitiator, hresponder, hjoined⟩ := hs.paired
  have hlength := hinitiator.magic_eq ▸ hmagic
  have hlength' := hresponder.magic_eq ▸ hmagic
  cases hstate : s.1.state with
  | write rest =>
      obtain ⟨t, ht, hbuf⟩ := step_write_rest hstate (hinitiator.of_write hstate)
      exact ⟨_, _, by simp [Faultless], pairStep_left ht (hbuf ▸ hjoined.left)⟩
  | returned ok =>
      have hok : ok = true := by
        cases ok with
        | true => rfl
        | false => exact absurd hstate hs.initiator
      rw [hok] at hstate
      have hdone := hs.paired.initiator_succeeded hstate
      exact absurd ⟨hstate, hdone.2.1⟩ hrunning
  | read =>
      obtain ⟨hshort, haccepted⟩ := hinitiator.of_read hstate
      cases hstate' : s.2.state with
      | write rest =>
          obtain ⟨t, ht, hbuf⟩ := step_write_rest hstate' (hresponder.of_write hstate')
          exact ⟨_, _, by simp [Faultless], pairStep_right ht (hbuf ▸ hjoined.right)⟩
      | read =>
          obtain ⟨hshort', -⟩ := hresponder.of_read hstate'
          have hbuf : s.2.buf <+: s.2.magic := by
            rw [hresponder.magic_eq]
            exact hjoined.right.trans hinitiator.accepted_prefix
          obtain ⟨t, ht, htaken⟩ := step_read_rest hstate' hlength' hbuf hshort'
          refine ⟨_, _, by simp [Faultless], pairStep_right ht ?_⟩
          rw [htaken, hresponder.magic_eq, haccepted, if_pos rfl]
      | returned ok =>
          have hok : ok = true := by
            cases ok with
            | true => rfl
            | false => exact absurd hstate' hs.responder
          rw [hok] at hstate'
          have haccepted' := (hresponder.of_succeeded hstate').1
          have hbuf : s.1.buf <+: s.1.magic := by
            rw [hinitiator.magic_eq]
            exact hjoined.left.trans hresponder.accepted_prefix
          obtain ⟨t, ht, htaken⟩ := step_read_rest hstate hlength hbuf hshort
          refine ⟨_, _, by simp [Faultless], pairStep_left ht ?_⟩
          rw [htaken, hinitiator.magic_eq, haccepted']

theorem Unfailed.progress_le (hmagic : magic.length = handshakeBytes)
    (hs : Unfailed magic s) : progress s ≤ 4 * handshakeBytes := by
  have h₁ := hs.paired.initiator.accepted_prefix.length_le
  have h₂ := hs.paired.responder.accepted_prefix.length_le
  have h₃ := hs.paired.initiator.buf_length
  have h₄ := hs.paired.responder.buf_length
  simp only [progress]
  omega

/-- Without a fault of the socket and within the time, two ends with one magic
of seven bytes complete the handshake and neither fails, in whatever parts it is
carried. -/
theorem handshake_completes
    (magic : List UInt8) (hmagic : magic.length = handshakeBytes)
    (events : List (HandshakeEvent ⊕ HandshakeEvent))
    (hfaultless : ∀ e ∈ events, Faultless e) (s : Handshake × Handshake)
    (hreach : Runs.Reaches pairStep (startPair magic magic) events s) :
    events.length ≤ 4 * handshakeBytes ∧
      (s.1.state ≠ .returned false ∧ s.2.state ≠ .returned false) ∧
      ((s.1.Succeeded ∧ s.2.Succeeded) ∨
        ∃ e t, Faultless e ∧ pairStep s e = some t) := by
  have hstart : Unfailed magic (startPair magic magic) := by
    refine ⟨paired_of_reaches (Runs.reaches_nil.mpr rfl), ?_, ?_⟩
    · exact afterWrite_ne_failed true magic
    · simp [startPair, start]
  obtain ⟨hs, hlength⟩ := hreach.length_le
    (fun _ _ _ h hfaultless hstep => h.afterStep hmagic hfaultless hstep)
    hfaultless hstart
  refine ⟨le_trans (Nat.le_of_add_right_le hlength) (hs.progress_le hmagic),
    ⟨hs.initiator, hs.responder⟩, ?_⟩
  by_cases hdone : s.1.Succeeded ∧ s.2.Succeeded
  · exact .inl hdone
  · exact .inr (hs.canStep hmagic hdone)

/-- After the first part of the magic the run can still go on. -/
theorem handshake_completes_part :
    linkHandshakeMagic.length = handshakeBytes ∧
      (∀ e ∈ handshakeParts.take 1, Faultless e) ∧
      ∃ s, Runs.Reaches pairStep (startPair linkHandshakeMagic linkHandshakeMagic)
          (handshakeParts.take 1) s ∧
        (s.1.state ≠ .returned false ∧ s.2.state ≠ .returned false) ∧
        ((s.1.Succeeded ∧ s.2.Succeeded) ∨
          ∃ e t, Faultless e ∧ pairStep s e = some t) := by
  have hmagic : linkHandshakeMagic.length = handshakeBytes := by decide
  have hfaultless : ∀ e ∈ handshakeParts.take 1, Faultless e := by decide
  refine ⟨hmagic, hfaultless, _, rfl, ?_⟩
  exact (handshake_completes linkHandshakeMagic hmagic (handshakeParts.take 1)
    hfaultless _ rfl).2

end Handshake
end Link
end PicoFi
