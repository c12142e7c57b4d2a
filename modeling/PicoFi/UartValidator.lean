import PicoFi.UartResync

/-!
# The validator of the UART stream

The host checks the firmware's framing with a validator of its own, which keeps
the bytes of the frame in progress in one growing buffer.  The buffer is the
header and the payload that the frame reader holds, so both report the same
frames and refuse the same lengths, each with the same byte.
-/

namespace PicoFi
namespace UartValidator

open Buffer LinkFrame PicoFi.Stream

abbrev headerSize : ℕ := 4
abbrev payloadLimit : ℕ := 4096

inductive Mode
  | request
  | response
  deriving DecidableEq

/-- What `push_byte` reports, with the values its message is rendered from. -/
inductive Report
  | skip (byte : UInt8)
  | sync (byte : UInt8)
  | resync (byte : UInt8)
  | rejectSecond (byte : UInt8)
  | pair (first second : UInt8)
  | rejectLength (len : ℕ)
  | frame (magic : UInt8) (payload : List UInt8)
  deriving DecidableEq

/-- Both modes accept the same bytes. -/
def isValidMagic (byte : UInt8) (_mode : Mode) : Bool :=
  byte == reqDataMagic || byte == reqCommandMagic

structure FirmwareStyleValidator where
  mode : Mode
  buf : List UInt8

namespace FirmwareStyleValidator

def new (mode : Mode) : FirmwareStyleValidator := ⟨mode, []⟩

/-- The part of `push_byte` after the sync pair. -/
def pushTail (v : FirmwareStyleValidator) : FirmwareStyleValidator × Option Report :=
  if v.buf.length < headerSize then (v, none)
  else
    let payloadLen := u16le (v.buf.getD 2 0) (v.buf.getD 3 0)
    if payloadLimit < payloadLen then ({ v with buf := [] }, some (.rejectLength payloadLen))
    else
      let frameLen := headerSize + payloadLen
      if v.buf.length < frameLen then (v, none)
      else
        ({ v with buf := v.buf.drop frameLen },
          some (.frame (v.buf.getD 0 0) (slice v.buf headerSize frameLen)))

def pushByte (v : FirmwareStyleValidator) (byte : UInt8) :
    FirmwareStyleValidator × Option Report :=
  match v.buf with
  | [] =>
      if ¬isValidMagic byte v.mode then (v, some (.skip byte))
      else ({ v with buf := [byte] }, some (.sync byte))
  | [first] =>
      let expectedSecond :=
        if first = reqCommandMagic then respCommandMagic else respDataMagic
      if byte ≠ expectedSecond then
        if isValidMagic byte v.mode then
          ({ v with buf := [byte] }, some (.resync byte))
        else ({ v with buf := [] }, some (.rejectSecond byte))
      else ({ v with buf := [first, byte] }, some (.pair first byte))
  | buf => pushTail { v with buf := buf ++ [byte] }

/-- What is returned for each byte of a stream. -/
def reports (v : FirmwareStyleValidator) (bytes : List UInt8) : List (Option Report) :=
  (Runs.replies pushByte v bytes).2

end FirmwareStyleValidator

/-! ## The buffer is the frame in progress -/

/-- What the reader returns where the validator reports; the other reports are
about bytes that the reader passes over. -/
def Report.result : Report → Option FrameResult
  | .frame magic payload => some (.ok magic payload)
  | .rejectLength _ => some .err
  | _ => none

def results (reports : List (Option Report)) : List FrameResult :=
  reports.filterMap fun report => report.bind Report.result

theorem starts_iff (byte : UInt8) (mode : Mode) :
    uartMagic.Starts byte ↔ isValidMagic byte mode = true := by
  simp only [MagicPairs.Starts, MagicPairs.toList, uartMagic, isValidMagic,
    List.mem_cons, List.not_mem_nil, or_false, exists_eq_or_imp, exists_eq_left,
    Bool.or_eq_true, beq_iff_eq]
  rw [eq_comm, @eq_comm _ reqCommandMagic]

/-- A second byte completes the pair of the first when it is the expected one. -/
theorem matches_iff {first byte : UInt8} (hfirst : uartMagic.Starts first) :
    uartMagic.Matches [first, byte] ↔
      byte = if first = reqCommandMagic then respCommandMagic else respDataMagic := by
  simp only [MagicPairs.Matches, MagicPairs.toList, uartMagic, List.mem_cons,
    List.not_mem_nil, or_false, exists_eq_or_imp, exists_eq_left, List.cons.injEq,
    and_true]
  have hvalid := (starts_iff first .request).mp hfirst
  simp only [isValidMagic, Bool.or_eq_true, beq_iff_eq] at hvalid
  rcases hvalid with rfl | rfl
  · rw [if_neg (by decide)]
    simp [show reqCommandMagic ≠ reqDataMagic by decide, eq_comm]
  · rw [if_pos rfl]
    simp [show reqDataMagic ≠ reqCommandMagic by decide, eq_comm]

/-- The buffer of the validator is the header and the payload of the frame in
progress. -/
structure InStep (v : FirmwareStyleValidator) (p : Partial) : Prop where
  buf_eq : v.buf = p.header ++ p.payload
  incomplete : p.Incomplete payloadLimit
  started : ∀ first ∈ p.header.head?, uartMagic.Starts first

theorem InStep.ofNew (mode : Mode) : InStep (.new mode) Partial.empty where
  buf_eq := rfl
  incomplete := Partial.incomplete_empty
  started := by simp [Partial.empty]

theorem InStep.ofHeader {v : FirmwareStyleValidator} {header : List UInt8}
    (hbuf : v.buf = header) (hshort : header.length < headerSize)
    (hstarted : ∀ first ∈ header.head?, uartMagic.Starts first) :
    InStep v ⟨header, []⟩ where
  buf_eq := by simp [hbuf]
  incomplete := incomplete_header hshort
  started := hstarted

theorem InStep.ofSeeking (mode : Mode) (byte : UInt8) :
    InStep ⟨mode, if isValidMagic byte mode then [byte] else []⟩
      (Partial.seeking uartMagic byte) := by
  by_cases hvalid : isValidMagic byte mode = true
  · have hstarts := (starts_iff byte mode).mpr hvalid
    rw [if_pos hvalid, Partial.seeking, if_pos hstarts]
    exact .ofHeader rfl (by simp) (by simpa using hstarts)
  · have hstarts := mt (starts_iff byte mode).mp hvalid
    rw [if_neg hvalid, Partial.seeking, if_neg hstarts]
    exact .ofNew mode

/-- What one byte does to both. -/
def Lockstep (v : FirmwareStyleValidator) (p : Partial) (byte : UInt8) : Prop :=
  InStep (v.pushByte byte).1 (p.feed uartMagic true payloadLimit (.byte byte)).1 ∧
    ((v.pushByte byte).2.bind Report.result).toList =
      (p.feed uartMagic true payloadLimit (.byte byte)).2

theorem lockstep_first (mode : Mode) (byte : UInt8) :
    Lockstep ⟨mode, []⟩ ⟨[], []⟩ byte := by
  have hfeed : (⟨[], []⟩ : Partial).feed uartMagic true payloadLimit (.byte byte) =
      (Partial.seeking uartMagic byte, []) := Partial.feed_empty byte
  have hseeking := InStep.ofSeeking mode byte
  rw [Lockstep, hfeed, FirmwareStyleValidator.pushByte]
  by_cases hvalid : isValidMagic byte mode = true
  · rw [if_pos hvalid] at hseeking
    rw [if_neg (not_not_intro hvalid)]
    exact ⟨hseeking, rfl⟩
  · rw [if_neg hvalid] at hseeking
    rw [if_pos hvalid]
    exact ⟨hseeking, rfl⟩

theorem lockstep_second (mode : Mode) {first : UInt8} (hfirst : uartMagic.Starts first)
    (byte : UInt8) : Lockstep ⟨mode, [first]⟩ ⟨[first], []⟩ byte := by
  have hmatches := @matches_iff first byte hfirst
  by_cases hpair : uartMagic.Matches [first, byte]
  · have hfeed : (⟨[first], []⟩ : Partial).feed uartMagic true payloadLimit
        (.byte byte) = (⟨[first, byte], []⟩, []) := by
      simp [Partial.feed, Partial.feedHeader, hpair]
    simp only [Lockstep, hfeed, FirmwareStyleValidator.pushByte]
    rw [if_neg (not_not_intro (hmatches.mp hpair))]
    exact ⟨.ofHeader rfl (by simp [headerSize]) (by simpa using hfirst), rfl⟩
  · have hheld : (⟨[first], []⟩ : Partial) = Partial.seeking uartMagic first :=
      (if_pos hfirst).symm
    have hseeking := InStep.ofSeeking mode byte
    rw [Lockstep, hheld, Partial.feed_seeking hpair]
    simp only [FirmwareStyleValidator.pushByte]
    rw [if_pos (mt hmatches.mpr hpair)]
    by_cases hvalid : isValidMagic byte mode = true
    · rw [if_pos hvalid] at hseeking ⊢
      exact ⟨hseeking, rfl⟩
    · rw [if_neg hvalid] at hseeking ⊢
      exact ⟨hseeking, rfl⟩

theorem lockstep_third (mode : Mode) {first : UInt8} (hfirst : uartMagic.Starts first)
    (second byte : UInt8) :
    Lockstep ⟨mode, [first, second]⟩ ⟨[first, second], []⟩ byte := by
  have hfeed : (⟨[first, second], []⟩ : Partial).feed uartMagic true payloadLimit
      (.byte byte) = (⟨[first, second, byte], []⟩, []) := rfl
  rw [Lockstep, hfeed]
  exact ⟨.ofHeader rfl (by simp) (by simpa using hfirst), rfl⟩

/-- The fourth byte completes the header: both refuse the length, report an
empty frame or wait for the payload. -/
theorem lockstep_fourth (mode : Mode) {first : UInt8} (hfirst : uartMagic.Starts first)
    (second low byte : UInt8) :
    Lockstep ⟨mode, [first, second, low]⟩ ⟨[first, second, low], []⟩ byte := by
  have hfeed : (⟨[first, second, low], []⟩ : Partial).feed uartMagic true payloadLimit
      (.byte byte) =
        if payloadLimit < u16le low byte then (Partial.empty, [.err])
        else if u16le low byte = 0 then (Partial.empty, [.ok first []])
        else (⟨[first, second, low, byte], []⟩, []) := rfl
  have hpush : FirmwareStyleValidator.pushByte ⟨mode, [first, second, low]⟩ byte =
      if payloadLimit < u16le low byte then
        (⟨mode, []⟩, some (.rejectLength (u16le low byte)))
      else if headerSize < headerSize + u16le low byte then
        (⟨mode, [first, second, low, byte]⟩, none)
      else
        (⟨mode, [first, second, low, byte].drop (headerSize + u16le low byte)⟩,
          some (.frame first (slice [first, second, low, byte] headerSize
            (headerSize + u16le low byte)))) := rfl
  rw [Lockstep, hfeed, hpush]
  by_cases hlong : payloadLimit < u16le low byte
  · rw [if_pos hlong, if_pos hlong]
    exact ⟨.ofNew mode, rfl⟩
  · rw [if_neg hlong, if_neg hlong]
    by_cases hempty : u16le low byte = 0
    · rw [hempty, if_neg (Nat.lt_irrefl _), if_pos rfl]
      exact ⟨.ofNew mode, rfl⟩
    · rw [if_neg hempty, if_pos (Nat.lt_add_of_pos_right (Nat.pos_of_ne_zero hempty))]
      refine ⟨⟨rfl, ?_, by simpa using hfirst⟩, rfl⟩
      exact
        { header_le := Nat.le_refl 4
          payload_nil := fun _ => rfl
          payload_lt := fun _ => Nat.pos_of_ne_zero hempty
          length_le := fun _ => Nat.le_of_not_lt hlong }

/-- A byte of the payload: both wait for the last one. -/
theorem lockstep_payload (mode : Mode) {p : Partial} (hheader : p.header.length = 4)
    (hincomplete : p.Incomplete payloadLimit)
    (hstarted : ∀ first ∈ p.header.head?, uartMagic.Starts first) (byte : UInt8) :
    Lockstep ⟨mode, p.header ++ p.payload⟩ p byte := by
  obtain ⟨header, payload⟩ := p
  obtain ⟨first, second, low, high, rfl⟩ := List.length_eq_four.mp hheader
  have hlt := hincomplete.payload_lt rfl
  have hle := hincomplete.length_le rfl
  simp only [Partial.length, List.getD_cons_zero, List.getD_cons_succ] at hlt hle
  set payloadLen := u16le low high with hlen
  have hfeed : (⟨[first, second, low, high], payload⟩ : Partial).feed uartMagic true
      payloadLimit (.byte byte) =
        if (payload ++ [byte]).length = payloadLen then
          (Partial.empty, [.ok first (payload ++ [byte])])
        else (⟨[first, second, low, high], payload ++ [byte]⟩, []) := rfl
  have hpush : FirmwareStyleValidator.pushByte
      ⟨mode, [first, second, low, high] ++ payload⟩ byte =
        FirmwareStyleValidator.pushTail
          ⟨mode, [first, second, low, high] ++ (payload ++ [byte])⟩ := by
    simp [FirmwareStyleValidator.pushByte]
  have hread : u16le (([first, second, low, high] ++ (payload ++ [byte])).getD 2 0)
      (([first, second, low, high] ++ (payload ++ [byte])).getD 3 0) = payloadLen := rfl
  have hsize : ([first, second, low, high] ++ (payload ++ [byte])).length =
      headerSize + (payload ++ [byte]).length := List.length_append
  have hcount : (payload ++ [byte]).length = payload.length + 1 := List.length_append
  rw [Lockstep, hfeed, hpush, FirmwareStyleValidator.pushTail]
  simp only [hread, hsize]
  rw [if_neg (by omega), if_neg (Nat.not_lt.mpr hle)]
  by_cases hdone : (payload ++ [byte]).length = payloadLen
  · rw [if_pos hdone, hdone, if_neg (Nat.lt_irrefl _)]
    have hrest : ([first, second, low, high] ++ (payload ++ [byte])).drop
        (headerSize + payloadLen) = [] := by
      rw [← hdone, ← hsize, List.drop_length]
    have hpayload : slice ([first, second, low, high] ++ (payload ++ [byte])) headerSize
        (headerSize + payloadLen) = payload ++ [byte] := by
      rw [← hdone, ← hsize, slice, List.take_length]
      rfl
    rw [hrest, hpayload]
    exact ⟨.ofNew mode, rfl⟩
  · rw [if_neg hdone, if_pos (by omega)]
    refine ⟨⟨rfl, ?_, hstarted⟩, rfl⟩
    exact
      { header_le := Nat.le_refl 4
        payload_nil := fun h => absurd h (Nat.lt_irrefl 4)
        payload_lt := fun _ => by
          change (payload ++ [byte]).length < payloadLen
          omega
        length_le := fun _ => hle }

/-- One byte keeps the two in step, and is answered alike. -/
theorem InStep.lockstep {v : FirmwareStyleValidator} {p : Partial}
    (hstep : InStep v p) (byte : UInt8) : Lockstep v p byte := by
  obtain ⟨mode, buf⟩ := v
  obtain ⟨header, payload⟩ := p
  obtain ⟨hbuf, hincomplete, hstarted⟩ := hstep
  simp only at hbuf hstarted
  subst hbuf
  by_cases hshort : header.length < 4
  · obtain rfl : payload = [] := hincomplete.payload_nil hshort
    rw [List.append_nil]
    match header, hshort with
    | [], _ => exact lockstep_first mode byte
    | [first], _ => exact lockstep_second mode (hstarted first rfl) byte
    | [first, second], _ => exact lockstep_third mode (hstarted first rfl) second byte
    | [first, second, low], _ =>
        exact lockstep_fourth mode (hstarted first rfl) second low byte
  · have hheader : header.length = 4 :=
      Nat.le_antisymm hincomplete.header_le (Nat.le_of_not_lt hshort)
    exact lockstep_payload mode hheader hincomplete hstarted byte

theorem InStep.results_eq {v : FirmwareStyleValidator} {p : Partial}
    (hstep : InStep v p) (bytes : List UInt8) :
    results (v.reports bytes) =
      (p.decode uartMagic true payloadLimit (bytes.map .byte)).2 := by
  induction bytes generalizing v p with
  | nil => rfl
  | cons byte bytes ih =>
      obtain ⟨hnext, hanswer⟩ := hstep.lockstep byte
      have hrest := ih hnext
      simp only [FirmwareStyleValidator.reports, Runs.replies, results, List.map_cons,
        Partial.decode] at hrest ⊢
      rw [← hanswer, ← hrest, List.filterMap_cons]
      cases (v.pushByte byte).2.bind Report.result <;> rfl

theorem results_of_reaches (mode : Mode) {bytes buffer : List UInt8}
    (hbuffer : buffer.length = payloadLimit) {events : List Event} {s : Session}
    (hreach : Runs.Reaches Session.step
      (Session.start uartMagic true buffer (bytes.map .byte)) events s)
    {consumed rest : List UInt8} (hbytes : bytes = consumed ++ rest)
    (hwaiting : s.waiting = rest.map .byte) :
    s.results = results ((FirmwareStyleValidator.new mode).reports consumed) := by
  obtain ⟨arrivals, p, hsync⟩ := inSync_of_reaches hreach
  have hstream := hsync.stream_eq
  rw [hbytes, List.map_append, hwaiting] at hstream
  have hconsumed : consumed.map Arrival.byte = arrivals :=
    (List.append_inj' hstream rfl).1
  have hdecode := hsync.decode_eq
  rw [hbuffer, ← hconsumed] at hdecode
  rw [(InStep.ofNew mode).results_eq, hdecode]

/-- However the frame reader of the UART is polled and cut short, it has
returned what the validator has reported for the bytes read so far: the same
frames, and an error for each length that the validator rejects.  It can always
read the next byte, and then returns what the validator reports for it. -/
theorem reader_agrees_with_validator (mode : Mode) (bytes buffer : List UInt8)
    (hbuffer : buffer.length = payloadLimit) (events : List Event) (s : Session)
    (hreach : Runs.Reaches Session.step
      (Session.start uartMagic true buffer (bytes.map .byte)) events s) :
    ∃ consumed rest, bytes = consumed ++ rest ∧ s.waiting = rest.map .byte ∧
      s.results = results ((FirmwareStyleValidator.new mode).reports consumed) ∧
      ∀ byte later, rest = byte :: later →
        ∃ events' t, Runs.Reaches Session.step s events' t ∧
          t.waiting = later.map .byte ∧
          t.results =
            results ((FirmwareStyleValidator.new mode).reports (consumed ++ [byte])) := by
  obtain ⟨arrivals, p, hsync⟩ := inSync_of_reaches hreach
  obtain ⟨consumed, rest, rfl, -, hrest⟩ := List.map_eq_append_iff.mp hsync.stream_eq
  refine ⟨consumed, rest, rfl, hrest.symm,
    results_of_reaches mode hbuffer hreach rfl hrest.symm, ?_⟩
  rintro byte later rfl
  obtain ⟨events', t, ht, hlater⟩ := hsync.canAdvance hrest.symm
  refine ⟨events', t, ht, hlater, ?_⟩
  exact results_of_reaches mode hbuffer (Runs.reaches_append.mpr ⟨s, hreach, ht⟩)
    (by simp) hlater

/-- A lone first byte in front of a command of one byte. -/
def loneByte : List UInt8 := [0xA5, 0xA6, 0x5B, 1, 0, 7]

theorem reader_agrees_with_validator_lone :
    ∃ s : Session, s.results = [.ok 0xA6 [7]] ∧
      ∃ consumed rest, loneByte = consumed ++ rest ∧
        s.results = results ((FirmwareStyleValidator.new .request).reports consumed) := by
  have hreach : ((.call :: List.replicate 6 (.complete 1) : List Event).foldlM Session.step
        (Session.start uartMagic true (List.replicate payloadLimit 0)
          (loneByte.map .byte))).any
      (fun s : Session => s.results == [.ok 0xA6 [7]]) = true := by
    decide +kernel
  obtain ⟨s, hs, hresults⟩ := (Option.any_eq_true _ _).mp hreach
  obtain ⟨consumed, rest, hbytes, -, hread, -⟩ :=
    reader_agrees_with_validator .request loneByte (List.replicate payloadLimit 0)
      (by simp) _ s hs
  exact ⟨s, beq_iff_eq.mp hresults, consumed, rest, hbytes, hread⟩

end UartValidator
end PicoFi
