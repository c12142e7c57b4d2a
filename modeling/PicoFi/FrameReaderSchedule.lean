import PicoFi.FrameReader
import PicoFi.StepRuns

/-!
# Every schedule of the frame reader decodes the same stream

A session is one reader with its payload buffer, the call in flight if there
is one, and the arrivals not yet delivered.  The schedule chooses how a call
is polled, how many bytes each completed read returns and where calls are
dropped.  The simulation relation `Tracks` ties the reader's three progress
fields to the frame in progress of the call-free decoder.
-/

namespace PicoFi
namespace Stream

open Buffer

/-! ## The buffers hold the frame in progress -/

structure Tracks (magic : MagicPairs) (resync : Bool) (cap : ℕ)
    (bufs : ReadBuffers) (p : Partial) : Prop where
  magic_eq : bufs.reader.magic = magic
  resync_eq : bufs.reader.resync = resync
  payload_length : bufs.payload.length = cap
  header_length : bufs.reader.header.length = 4
  headerLen_eq : bufs.reader.headerLen = p.header.length
  header_take : bufs.reader.header.take p.header.length = p.header
  payloadRead_eq : bufs.reader.payloadRead = p.payload.length
  payload_take : bufs.payload.take p.payload.length = p.payload
  incomplete : p.Incomplete cap

/-- What a call did, against what the decoder did: either it is parked at the
next read with nothing reported, or it returned the one result, of at most
`cap` bytes. -/
inductive Follows (magic : MagicPairs) (resync : Bool) (cap : ℕ) :
    ReadBuffers × CallStatus → Partial × List FrameResult → Prop
  | parked {bufs : ReadBuffers} {p : Partial}
      (htracks : Tracks magic resync cap bufs p) :
      Follows magic resync cap (bufs, .awaiting p.request) (p, [])
  | returned {bufs : ReadBuffers} (outcome : ReadOutcome)
      (hlen : outcome.len ≤ cap)
      (htracks : Tracks magic resync cap bufs Partial.empty) :
      Follows magic resync cap (bufs, .returned outcome)
        (Partial.empty, [outcome.result bufs.payload])

section Simulation

variable {magic : MagicPairs} {resync : Bool} {cap : ℕ}
variable {bufs : ReadBuffers} {p : Partial}

theorem Tracks.ofHeader {payload buffer : List UInt8} (header : List UInt8)
    (hpayload : payload.length = cap) (hbuffer : buffer.length = 4)
    (htake : buffer.take header.length = header)
    (hincomplete : (⟨header, []⟩ : Partial).Incomplete cap) :
    Tracks magic resync cap
      ⟨⟨magic, resync, buffer, header.length, 0⟩, payload⟩ ⟨header, []⟩ where
  magic_eq := rfl
  resync_eq := rfl
  payload_length := hpayload
  header_length := hbuffer
  headerLen_eq := rfl
  header_take := htake
  payloadRead_eq := rfl
  payload_take := rfl
  incomplete := hincomplete

theorem Tracks.ofEmpty {payload buffer : List UInt8}
    (hpayload : payload.length = cap) (hbuffer : buffer.length = 4) :
    Tracks magic resync cap ⟨⟨magic, resync, buffer, 0, 0⟩, payload⟩
      Partial.empty :=
  Tracks.ofHeader [] hpayload hbuffer rfl Partial.incomplete_empty

theorem Tracks.atStart (htracks : Tracks magic resync cap bufs Partial.empty) :
    bufs.reader.AtStart :=
  ⟨htracks.headerLen_eq, htracks.payloadRead_eq⟩

theorem Tracks.reset_eq (htracks : Tracks magic resync cap bufs p) :
    bufs.reset = ⟨⟨magic, resync, bufs.reader.header, 0, 0⟩, bufs.payload⟩ := by
  rw [← htracks.magic_eq, ← htracks.resync_eq]
  rfl

theorem Tracks.afterReset (htracks : Tracks magic resync cap bufs p) :
    Tracks magic resync cap bufs.reset Partial.empty := by
  rw [htracks.reset_eq]
  exact Tracks.ofEmpty htracks.payload_length htracks.header_length

theorem Tracks.header_eq (htracks : Tracks magic resync cap bufs p)
    (hcomplete : p.header.length = 4) : bufs.reader.header = p.header := by
  have htake := htracks.header_take
  rwa [hcomplete, ← htracks.header_length, List.take_length] at htake

/-- A fresh call parks where the dropped one was, changing nothing. -/
theorem Tracks.enter (htracks : Tracks magic resync cap bufs p) :
    bufs.enter = (bufs, .awaiting p.request) := by
  have hlen := htracks.headerLen_eq
  have hle := htracks.incomplete.header_le
  unfold ReadBuffers.enter Partial.request
  by_cases hheader : p.header.length < 4
  · have hslice : bufs.reader.headerLen + 1 ≤ bufs.reader.header.length := by
      rw [htracks.header_length]
      omega
    simp only [hlen, hheader, if_true, if_pos (hlen ▸ hslice)]
  · have hcomplete : p.header.length = 4 := by omega
    have hlength : u16le (bufs.reader.header.getD 2 0)
        (bufs.reader.header.getD 3 0) = p.length := by
      rw [htracks.header_eq hcomplete]
      rfl
    have hcap := htracks.incomplete.length_le hcomplete
    have hfit : ¬bufs.payload.length < p.length := by
      rw [htracks.payload_length]
      omega
    have hleft : bufs.reader.payloadRead < p.length := by
      rw [htracks.payloadRead_eq]
      exact htracks.incomplete.payload_lt hcomplete
    simp only [hlen, hheader, if_false, hlength, if_neg hfit]
    unfold ReadBuffers.payloadLoop
    rw [if_pos hleft, if_pos (by omega)]

theorem incomplete_header {header : List UInt8} (hshort : header.length < 4) :
    (⟨header, []⟩ : Partial).Incomplete cap where
  header_le := Nat.le_of_lt hshort
  payload_nil := fun _ => rfl
  payload_lt := fun hcomplete => by
    have : header.length = 4 := hcomplete
    omega
  length_le := fun hcomplete => by
    have : header.length = 4 := hcomplete
    omega

theorem take_set_succ {buffer : List UInt8} {k : ℕ} (hk : k < buffer.length)
    (b : UInt8) : (buffer.set k b).take (k + 1) = buffer.take k ++ [b] := by
  rw [List.take_add_one, List.take_set_of_le (Nat.le_refl k)]
  simp [hk]

theorem getD_of_take {buffer header : List UInt8} {i : ℕ}
    (htake : buffer.take header.length = header) (hi : i < header.length) :
    buffer.getD i 0 = header.getD i 0 := by
  rw [List.getD_eq_getElem?_getD, List.getD_eq_getElem?_getD, ← htake,
    List.getElem?_take_of_lt (by simpa [htake] using hi)]

/-- The header is complete: the declared length decides between an error, an
empty frame and the payload loop. -/
theorem follows_completeHeader {payload header : List UInt8}
    (hpayload : payload.length = cap) (hcomplete : header.length = 4) :
    Follows magic resync cap
      (ReadBuffers.enter
        ⟨⟨magic, resync, header, header.length, 0⟩, payload⟩)
      (if cap < (⟨header, []⟩ : Partial).length then (Partial.empty, [.err])
        else if (⟨header, []⟩ : Partial).length = 0 then
          (Partial.empty, [.ok (header.getD 0 0) []])
        else (⟨header, []⟩, [])) := by
  have hreset : Tracks magic resync cap
      ⟨⟨magic, resync, header, 0, 0⟩, payload⟩ Partial.empty :=
    Tracks.ofEmpty hpayload hcomplete
  have hlength : u16le (header.getD 2 0) (header.getD 3 0) =
      (⟨header, []⟩ : Partial).length := rfl
  by_cases hlong : cap < (⟨header, []⟩ : Partial).length
  · rw [if_pos hlong]
    simp only [ReadBuffers.enter, hcomplete, hlength, hpayload, hlong,
      Nat.lt_irrefl, if_true, if_false]
    exact .returned .err (Nat.zero_le cap) hreset
  · rw [if_neg hlong]
    by_cases hzero : (⟨header, []⟩ : Partial).length = 0
    · rw [if_pos hzero]
      simp only [ReadBuffers.enter, hcomplete, hlength, hpayload, hzero,
        ReadBuffers.payloadLoop, Nat.lt_irrefl, Nat.not_lt_zero, if_false]
      have hreturned := Follows.returned
        (.ok (header.getD 0 0) 0) (Nat.zero_le cap) hreset
      exact hreturned
    · rw [if_neg hzero]
      have hincomplete : (⟨header, []⟩ : Partial).Incomplete cap :=
        { header_le := Nat.le_of_eq hcomplete
          payload_nil := fun _ => rfl
          payload_lt := fun _ => Nat.pos_of_ne_zero hzero
          length_le := fun _ => Nat.le_of_not_lt hlong }
      have hnext : Tracks magic resync cap
          ⟨⟨magic, resync, header, header.length, 0⟩, payload⟩ ⟨header, []⟩ :=
        Tracks.ofHeader header hpayload hcomplete List.take_length hincomplete
      rw [hnext.enter]
      exact .parked hnext

theorem Tracks.afterHeaderByte (htracks : Tracks magic resync cap bufs p)
    (hheader : p.header.length < 4) (b : UInt8) :
    Follows magic resync cap (bufs.afterHeaderByte p.header.length b)
      (p.feedHeader magic resync cap b) := by
  have hread : bufs.reader.payloadRead = 0 := by
    rw [htracks.payloadRead_eq, htracks.incomplete.payload_nil hheader]
    rfl
  have hpayload := htracks.payload_length
  set buffer := bufs.reader.header.set p.header.length b with hbuffer
  set header := p.header ++ [b] with hnew
  have hlen : bufs.reader.headerLen + 1 = header.length := by
    rw [htracks.headerLen_eq, hnew]
    simp
  have hheaderLength : header.length = p.header.length + 1 := by
    rw [hnew]
    simp
  have hbufferLength : buffer.length = 4 := by
    rw [hbuffer, List.length_set, htracks.header_length]
  have htake : buffer.take header.length = header := by
    have hk : p.header.length < bufs.reader.header.length := by
      rw [htracks.header_length]
      exact hheader
    rw [← hlen, htracks.headerLen_eq, hbuffer, take_set_succ hk,
      htracks.header_take]
  have hlast : ∀ i, header.length = i + 1 → buffer.getD i 0 = b := by
    intro i hi
    have hk : p.header.length = i := by omega
    rw [getD_of_take htake (by omega), hnew, List.getD_eq_getElem?_getD,
      ← hk, List.getElem?_concat_length]
    rfl
  have hstart : (ReadBuffers.enter
      ⟨⟨magic, resync, buffer, 0, 0⟩, bufs.payload⟩) =
      (⟨⟨magic, resync, buffer, 0, 0⟩, bufs.payload⟩,
        .awaiting (Partial.empty).request) :=
    (Tracks.ofEmpty hpayload hbufferLength).enter
  unfold ReadBuffers.afterHeaderByte Partial.feedHeader
  simp only [← hnew, ← hbuffer, htracks.magic_eq, htracks.resync_eq, hlen,
    hread, FrameReader.reset]
  by_cases hbad : header.length = 1 ∧ ¬magic.Starts b
  · have hbad' : header.length = 1 ∧ ¬magic.Starts (buffer.getD 0 0) := by
      rwa [hlast 0 hbad.1]
    rw [if_pos hbad, if_pos hbad']
    cases resync with
    | true =>
        simp only [if_true]
        rw [hstart]
        exact .parked (Tracks.ofEmpty hpayload hbufferLength)
    | false =>
        exact .returned .err (Nat.zero_le cap)
          (Tracks.ofEmpty hpayload hbufferLength)
  · have hgood : ¬(header.length = 1 ∧ ¬magic.Starts (buffer.getD 0 0)) := by
      rintro ⟨hone, hnot⟩
      rw [hlast 0 hone] at hnot
      exact hbad ⟨hone, hnot⟩
    rw [if_neg hbad, if_neg hgood]
    have hpair : header.length = 2 → buffer.take 2 = header := by
      intro htwo
      rw [← htwo, htake]
    by_cases hmiss : header.length = 2 ∧ ¬magic.Matches header
    · have hmiss' : header.length = 2 ∧ ¬magic.Matches (buffer.take 2) := by
        rwa [hpair hmiss.1]
      rw [if_pos hmiss, if_pos hmiss', hlast 1 hmiss.1]
      cases resync with
      | false =>
          exact .returned .err (Nat.zero_le cap)
            (Tracks.ofEmpty hpayload hbufferLength)
      | true =>
          by_cases hagain : magic.Starts b
          · have hnext : Tracks magic true cap
                ⟨⟨magic, true, buffer.set 0 b, 1, 0⟩, bufs.payload⟩
                ⟨[b], []⟩ := by
              refine Tracks.ofHeader [b] hpayload
                (by rw [List.length_set, hbufferLength]) ?_
                (incomplete_header (by simp))
              exact take_set_succ (k := 0) (by omega) b
            simp only [hagain, not_true_eq_false, if_true, if_false]
            rw [hnext.enter]
            exact .parked hnext
          · simp only [hagain, not_true_eq_false, if_true, if_false]
            rw [hstart]
            exact .parked (Tracks.ofEmpty hpayload hbufferLength)
    · have hmatch : ¬(header.length = 2 ∧ ¬magic.Matches (buffer.take 2)) := by
        rintro ⟨htwo, hnot⟩
        rw [hpair htwo] at hnot
        exact hmiss ⟨htwo, hnot⟩
      rw [if_neg hmiss, if_neg hmatch]
      by_cases hshort : header.length < 4
      · have hnext : Tracks magic resync cap
            ⟨⟨magic, resync, buffer, header.length, 0⟩, bufs.payload⟩
            ⟨header, []⟩ :=
          Tracks.ofHeader header hpayload hbufferLength htake
            (incomplete_header hshort)
        rw [if_pos hshort, hnext.enter]
        exact .parked hnext
      · have hcomplete : header.length = 4 := by omega
        have hwhole : buffer = header := by
          rwa [hcomplete, ← hbufferLength, List.take_length] at htake
        rw [if_neg hshort, hwhole]
        exact follows_completeHeader hpayload hcomplete

theorem Tracks.afterPayload (htracks : Tracks magic resync cap bufs p)
    (hheader : p.header.length = 4) (b : UInt8) (bytes : List UInt8)
    (hfit : p.payload.length + (b :: bytes).length ≤ p.length) :
    Follows magic resync cap
      (bufs.resume (.payload p.length) (some (b :: bytes)))
      (p.decode magic resync cap ((b :: bytes).map .byte)) := by
  have hcap := htracks.incomplete.length_le hheader
  have hread := htracks.payloadRead_eq
  have hroom : bufs.reader.payloadRead + (b :: bytes).length ≤
      bufs.payload.length := by
    rw [htracks.payload_length]
    omega
  rw [Partial.decode_payload p hheader (b :: bytes) (by simp) hfit]
  simp only [ReadBuffers.resume]
  set payload := splice bufs.payload bufs.reader.payloadRead (b :: bytes)
    with hpayload
  have hlength : payload.length = cap := by
    rw [hpayload, length_splice hroom, htracks.payload_length]
  have htake : payload.take (p.payload.length + (b :: bytes).length) =
      p.payload ++ (b :: bytes) := by
    rw [hpayload, ← hread, take_splice_end (by omega), hread,
      htracks.payload_take]
  unfold ReadBuffers.payloadLoop
  by_cases hdone : p.payload.length + (b :: bytes).length = p.length
  · have hstop : ¬bufs.reader.payloadRead + (b :: bytes).length < p.length := by
      omega
    rw [if_pos hdone, if_neg hstop]
    have hreset : Tracks magic resync cap
        (⟨{ bufs.reader with
          payloadRead := bufs.reader.payloadRead + (b :: bytes).length },
          payload⟩ : ReadBuffers).reset Partial.empty := by
      have hempty : Tracks magic resync cap
          ⟨⟨magic, resync, bufs.reader.header, 0, 0⟩, payload⟩ Partial.empty :=
        Tracks.ofEmpty hlength htracks.header_length
      rwa [← htracks.magic_eq, ← htracks.resync_eq] at hempty ⊢
    have hreturned := Follows.returned
      (.ok (bufs.reader.header.getD 0 0) p.length) hcap hreset
    have hresult : (ReadOutcome.ok (bufs.reader.header.getD 0 0)
        p.length).result payload =
        .ok (p.header.getD 0 0) (p.payload ++ (b :: bytes)) := by
      rw [ReadOutcome.result, ← hdone, htake, htracks.header_eq hheader]
    rw [← hresult]
    exact hreturned
  · have hmore : bufs.reader.payloadRead + (b :: bytes).length < p.length := by
      omega
    rw [if_neg hdone, if_pos hmore, if_pos (by rw [hlength]; exact hcap)]
    have hnext : Tracks magic resync cap
        ⟨{ bufs.reader with
          payloadRead := bufs.reader.payloadRead + (b :: bytes).length },
          payload⟩ ⟨p.header, p.payload ++ (b :: bytes)⟩ :=
      { htracks with
        payload_length := hlength
        payloadRead_eq := by
          change _ = (p.payload ++ (b :: bytes)).length
          rw [List.length_append, ← hread]
        payload_take := by
          change payload.take (p.payload ++ (b :: bytes)).length = _
          rw [List.length_append]
          exact htake
        incomplete :=
          { header_le := htracks.incomplete.header_le
            payload_nil := fun hshort => absurd hheader (Nat.ne_of_lt hshort)
            payload_lt := fun _ => by
              change (p.payload ++ (b :: bytes)).length < p.length
              rw [List.length_append, ← hread]
              exact hmore
            length_le := fun _ => hcap } }
    have hrequest : (⟨p.header, p.payload ++ (b :: bytes)⟩ : Partial).request =
        .payload p.length := by
      have hnot : ¬p.header.length < 4 := by omega
      exact if_neg hnot
    rw [← hrequest]
    exact .parked hnext

/-- A completed read returns between one byte and the whole requested slice;
the call then does what the decoder does with those bytes. -/
theorem Tracks.resume (htracks : Tracks magic resync cap bufs p)
    {bytes : List UInt8} (hbytes : bytes ≠ [])
    (hsize : bytes.length ≤ bufs.requestSize p.request) :
    Follows magic resync cap (bufs.resume p.request (some bytes))
      (p.decode magic resync cap (bytes.map .byte)) := by
  have hle := htracks.incomplete.header_le
  unfold Partial.request at hsize ⊢
  by_cases hheader : p.header.length < 4
  · rw [if_pos hheader] at hsize ⊢
    simp only [ReadBuffers.requestSize] at hsize
    obtain ⟨b, rfl⟩ : ∃ b, bytes = [b] :=
      List.length_eq_one_iff.mp
        (Nat.le_antisymm hsize (List.length_pos_iff.mpr hbytes))
    have hfollows := htracks.afterHeaderByte hheader b
    simpa [ReadBuffers.resume, Partial.decode, Partial.feed, hheader]
      using hfollows
  · rw [if_neg hheader] at hsize ⊢
    simp only [ReadBuffers.requestSize, htracks.payloadRead_eq] at hsize
    cases bytes with
    | nil => contradiction
    | cons b bytes =>
        have hlt := htracks.incomplete.payload_lt (by omega)
        exact htracks.afterPayload (by omega) b bytes (by omega)

theorem Tracks.fault (htracks : Tracks magic resync cap bufs p) :
    Follows magic resync cap (bufs.resume p.request none)
      (p.decode magic resync cap [.fault]) := by
  have hreturned := Follows.returned .err (Nat.zero_le cap)
    htracks.afterReset
  unfold Partial.request
  split <;> exact hreturned

theorem Tracks.requestSize_pos (htracks : Tracks magic resync cap bufs p) :
    0 < bufs.requestSize p.request := by
  have hle := htracks.incomplete.header_le
  unfold Partial.request
  split
  · exact Nat.one_pos
  · simp only [ReadBuffers.requestSize, htracks.payloadRead_eq]
    have hlt := htracks.incomplete.payload_lt (by omega)
    omega

end Simulation

/-! ## Sessions -/

/-- What the caller holds: no future, a suspended one, or a panic. -/
inductive CallState
  | idle
  | suspended (request : ReadRequest)
  | panicked
  deriving DecidableEq

structure Session where
  bufs : ReadBuffers
  call : CallState
  waiting : List Arrival
  results : List FrameResult

inductive Event
  /-- `read` is called and polled to its first await. -/
  | call
  /-- The future is polled again and its read is still pending. -/
  | pending
  | cancel
  /-- The pending read returns the next `n` bytes. -/
  | complete (n : ℕ)
  /-- The pending read fails or reports the end of the stream. -/
  | fault
  deriving DecidableEq

def takeBytes : ℕ → List Arrival → Option (List UInt8 × List Arrival)
  | 0, arrivals => some ([], arrivals)
  | n + 1, .byte b :: arrivals =>
      (takeBytes n arrivals).map fun rest => (b :: rest.1, rest.2)
  | _ + 1, _ => none

namespace Session

def start (magic : MagicPairs) (resync : Bool) (payload : List UInt8)
    (stream : List Arrival) : Session where
  bufs := ⟨FrameReader.new magic resync, payload⟩
  call := .idle
  waiting := stream
  results := []

/-- The state after a poll: parked, returned with the payload the caller now
sees, or panicked. -/
def settle (s : Session) (waiting : List Arrival)
    (next : ReadBuffers × CallStatus) : Session where
  bufs := next.1
  call :=
    match next.2 with
    | .awaiting request => .suspended request
    | .returned _ => .idle
    | .panicked => .panicked
  waiting := waiting
  results :=
    match next.2 with
    | .returned outcome => s.results ++ [outcome.result next.1.payload]
    | _ => s.results

def step (s : Session) : Event → Option Session
  | .call =>
      match s.call with
      | .idle => some (s.settle s.waiting s.bufs.enter)
      | _ => none
  | .pending =>
      match s.call with
      | .suspended _ => some s
      | _ => none
  | .cancel =>
      match s.call with
      | .suspended _ => some { s with call := .idle }
      | _ => none
  | .complete n =>
      match s.call with
      | .suspended request =>
          if 0 < n ∧ n ≤ s.bufs.requestSize request then
            (takeBytes n s.waiting).map fun taken =>
              s.settle taken.2 (s.bufs.resume request (some taken.1))
          else none
      | _ => none
  | .fault =>
      match s.call, s.waiting with
      | .suspended request, .fault :: waiting =>
          some (s.settle waiting (s.bufs.resume request none))
      | _, _ => none

end Session

theorem takeBytes_eq_some {n : ℕ} {arrivals rest : List Arrival}
    {bytes : List UInt8} (htake : takeBytes n arrivals = some (bytes, rest)) :
    arrivals = bytes.map .byte ++ rest ∧ bytes.length = n := by
  induction n generalizing arrivals bytes with
  | zero =>
      simp only [takeBytes, Option.some.injEq, Prod.mk.injEq] at htake
      obtain ⟨rfl, rfl⟩ := htake
      simp
  | succ n ih =>
      cases arrivals with
      | nil => simp [takeBytes] at htake
      | cons a arrivals =>
          cases a with
          | fault => simp [takeBytes] at htake
          | byte b =>
              simp only [takeBytes, Option.map_eq_some_iff, Prod.mk.injEq]
                at htake
              obtain ⟨⟨tail, rest'⟩, htail, rfl, rfl⟩ := htake
              obtain ⟨rfl, rfl⟩ := ih htail
              simp

/-- A session agrees with the decoder on what it has consumed. -/
structure Session.Synced (magic : MagicPairs) (resync : Bool) (cap : ℕ)
    (stream consumed : List Arrival) (p : Partial) (s : Session) : Prop where
  stream_eq : stream = consumed ++ s.waiting
  decode_eq : Partial.empty.decode magic resync cap consumed = (p, s.results)
  tracks : Tracks magic resync cap s.bufs p
  call_eq : s.call = .idle ∨ s.call = .suspended p.request

namespace Session.Synced

variable {magic : MagicPairs} {resync : Bool} {cap : ℕ}
variable {stream consumed : List Arrival} {p : Partial} {s : Session}

theorem ofStart (magic : MagicPairs) (resync : Bool) (payload : List UInt8)
    (stream : List Arrival) :
    Session.Synced magic resync payload.length stream [] Partial.empty
      (Session.start magic resync payload stream) where
  stream_eq := rfl
  decode_eq := rfl
  tracks := Tracks.ofEmpty rfl rfl
  call_eq := .inl rfl

theorem not_panicked (hsync : s.Synced magic resync cap stream consumed p) :
    s.call ≠ .panicked := by
  rcases hsync.call_eq with hcall | hcall <;> simp [hcall]

/-- A poll that follows the decoder keeps the session synchronised, and a
reported result finds the reader back at its start. -/
theorem afterSettle (hsync : s.Synced magic resync cap stream consumed p)
    (extra : List Arrival) {waiting : List Arrival} (hwaiting : s.waiting = extra ++ waiting)
    {next : ReadBuffers × CallStatus}
    (hfollows : Follows magic resync cap next
      (p.decode magic resync cap extra)) :
    (s.settle waiting next).Synced magic resync cap stream (consumed ++ extra)
        (p.decode magic resync cap extra).1 ∧
      ((s.settle waiting next).results = s.results ∨
        (s.settle waiting next).bufs.reader.AtStart) := by
  have hstream : stream = (consumed ++ extra) ++ waiting := by
    rw [hsync.stream_eq, hwaiting, List.append_assoc]
  have hdecode :=
    @Partial.decode_append magic resync cap Partial.empty consumed extra
  rw [hsync.decode_eq] at hdecode
  generalize p.decode magic resync cap extra = decoded at hfollows hdecode ⊢
  cases hfollows with
  | parked htracks =>
      refine ⟨⟨hstream, ?_, htracks, .inr rfl⟩, .inl rfl⟩
      simpa [Session.settle] using hdecode
  | returned outcome hlen htracks =>
      exact ⟨⟨hstream, hdecode, htracks, .inl rfl⟩, .inr htracks.atStart⟩

theorem afterStep (hsync : s.Synced magic resync cap stream consumed p)
    {event : Event} {t : Session} (hstep : s.step event = some t) :
    ∃ extra p', t.Synced magic resync cap stream (consumed ++ extra) p' ∧
      (t.results = s.results ∨ t.bufs.reader.AtStart) := by
  cases hcall : s.call with
  | panicked => exact absurd hcall hsync.not_panicked
  | idle =>
      cases event <;> simp only [Session.step, hcall, Option.some.injEq,
        reduceCtorEq] at hstep
      subst hstep
      have hfollows : Follows magic resync cap s.bufs.enter
          (p.decode magic resync cap []) := by
        rw [hsync.tracks.enter]
        exact .parked hsync.tracks
      obtain ⟨hnext, hresults⟩ :=
        hsync.afterSettle [] rfl hfollows
      exact ⟨[], _, hnext, hresults⟩
  | suspended request =>
      have hrequest : request = p.request := by
        rcases hsync.call_eq with hidle | hsusp
        · rw [hcall] at hidle
          cases hidle
        · rw [hcall] at hsusp
          exact CallState.suspended.inj hsusp
      subst hrequest
      cases event with
      | call => simp [Session.step, hcall] at hstep
      | pending =>
          simp only [Session.step, hcall, Option.some.injEq] at hstep
          subst hstep
          exact ⟨[], p, by rwa [List.append_nil], .inl rfl⟩
      | cancel =>
          simp only [Session.step, hcall, Option.some.injEq] at hstep
          subst hstep
          exact ⟨[], p, by
            rw [List.append_nil]
            exact { hsync with call_eq := .inl rfl }, .inl rfl⟩
      | complete n =>
          simp only [Session.step, hcall] at hstep
          split at hstep
          next hsize =>
            rw [Option.map_eq_some_iff] at hstep
            obtain ⟨⟨bytes, rest⟩, htake, rfl⟩ := hstep
            obtain ⟨hwaiting, rfl⟩ := takeBytes_eq_some htake
            have hbytes : bytes ≠ [] := List.length_pos_iff.mp hsize.1
            obtain ⟨hnext, hresults⟩ :=
              hsync.afterSettle _ hwaiting (hsync.tracks.resume hbytes hsize.2)
            exact ⟨_, _, hnext, hresults⟩
          next => cases hstep
      | fault =>
          cases hwaiting : s.waiting with
          | nil => simp [Session.step, hcall, hwaiting] at hstep
          | cons a waiting =>
              cases a with
              | byte b => simp [Session.step, hcall, hwaiting] at hstep
              | fault =>
                  simp only [Session.step, hcall, hwaiting,
                    Option.some.injEq] at hstep
                  subst hstep
                  obtain ⟨hnext, hresults⟩ :=
                    hsync.afterSettle [.fault] hwaiting
                      hsync.tracks.fault
                  exact ⟨_, _, hnext, hresults⟩

theorem requestSize_pos (hsync : s.Synced magic resync cap stream consumed p) :
    0 < s.bufs.requestSize p.request :=
  hsync.tracks.requestSize_pos

theorem canTake (hsync : s.Synced magic resync cap stream consumed p)
    (hcall : s.call = .suspended p.request) {a : Arrival}
    {rest : List Arrival} (hwaiting : s.waiting = a :: rest) :
    ∃ event t, s.step event = some t ∧ t.waiting = rest := by
  cases a with
  | byte b =>
      refine ⟨.complete 1,
        s.settle rest (s.bufs.resume p.request (some [b])), ?_, rfl⟩
      simp only [Session.step, hcall, hwaiting, takeBytes]
      rw [if_pos ⟨Nat.one_pos, hsync.requestSize_pos⟩]
      rfl
  | fault =>
      refine ⟨.fault, s.settle rest (s.bufs.resume p.request none), ?_, rfl⟩
      simp only [Session.step, hcall, hwaiting]

theorem canAdvance (hsync : s.Synced magic resync cap stream consumed p)
    {a : Arrival} {rest : List Arrival} (hwaiting : s.waiting = a :: rest) :
    ∃ events t, Runs.Reaches Session.step s events t ∧ t.waiting = rest := by
  rcases hsync.call_eq with hidle | hsusp
  · have hstep : s.step .call = some { s with call := .suspended p.request } := by
      simp only [Session.step, hidle, hsync.tracks.enter]
      rfl
    obtain ⟨extra, p', hnext, -⟩ := hsync.afterStep hstep
    have hsync' : Session.Synced magic resync cap stream consumed p
        { s with call := .suspended p.request } :=
      { hsync with call_eq := .inr rfl }
    obtain ⟨event, t, ht, hrest⟩ := hsync'.canTake rfl hwaiting
    exact ⟨[.call, event], t, by simp [hstep, ht], hrest⟩
  · obtain ⟨event, t, ht, hrest⟩ := hsync.canTake hsusp hwaiting
    exact ⟨[event], t, by simp [ht], hrest⟩

end Session.Synced

def Session.InSync (magic : MagicPairs) (resync : Bool) (cap : ℕ)
    (stream : List Arrival) (s : Session) : Prop :=
  ∃ consumed p, s.Synced magic resync cap stream consumed p

theorem inSync_of_reaches {magic : MagicPairs} {resync : Bool}
    {payload : List UInt8} {stream : List Arrival} {events : List Event}
    {s : Session}
    (hreach : Runs.Reaches Session.step
      (Session.start magic resync payload stream) events s) :
    s.InSync magic resync payload.length stream := by
  refine Runs.Reaches.invariant ?_ hreach
    ⟨[], Partial.empty, Session.Synced.ofStart magic resync payload stream⟩
  rintro u event v ⟨consumed, p, hu⟩ hstep
  obtain ⟨extra, p', hnext, -⟩ := hu.afterStep hstep
  exact ⟨_, p', hnext⟩

/-! ## Streams that decode to known results -/

/-- However far a schedule has come, it has reported the first of these
results, all of them at the end of the stream, and it can be continued to the
end. -/
structure Session.ReadsAll (s : Session) (results : List FrameResult) : Prop where
  not_panicked : s.call ≠ .panicked
  in_order : s.results <+: results
  at_end : s.waiting = [] → s.results = results
  finishes : ∃ events t, Runs.Reaches Session.step s events t ∧
    t.waiting = [] ∧ t.results = results

theorem exists_end_of_reaches {magic : MagicPairs} {resync : Bool}
    {payload : List UInt8} {stream : List Arrival} {events : List Event}
    {s : Session}
    (hreach : Runs.Reaches Session.step
      (Session.start magic resync payload stream) events s) :
    ∃ events' t, Runs.Reaches Session.step s events' t ∧ t.waiting = [] := by
  generalize hwaiting : s.waiting = waiting
  induction waiting generalizing s events with
  | nil => exact ⟨[], s, Runs.reaches_nil.mpr rfl, hwaiting⟩
  | cons a waiting ih =>
      obtain ⟨consumed, p, hsync⟩ := inSync_of_reaches hreach
      obtain ⟨front, u, hu, hrest⟩ := hsync.canAdvance hwaiting
      obtain ⟨back, t, ht, hend⟩ :=
        ih (Runs.reaches_append.mpr ⟨s, hreach, hu⟩) hrest
      exact ⟨front ++ back, t, Runs.reaches_append.mpr ⟨u, hu, ht⟩, hend⟩

theorem readsAll_of_decode {magic : MagicPairs} {resync : Bool} {cap : ℕ}
    {payload : List UInt8} (hcap : payload.length = cap)
    {stream : List Arrival} {results : List FrameResult} {final : Partial}
    (hdecode : Partial.empty.decode magic resync cap stream = (final, results))
    {events : List Event} {s : Session}
    (hreach : Runs.Reaches Session.step
      (Session.start magic resync payload stream) events s) :
    s.ReadsAll results := by
  subst hcap
  have hall {events : List Event} {t : Session}
      (hreach : Runs.Reaches Session.step
        (Session.start magic resync payload stream) events t)
      (hend : t.waiting = []) : t.results = results := by
    obtain ⟨consumed, p, hsync⟩ := inSync_of_reaches hreach
    have hstream := hsync.stream_eq
    rw [hend, List.append_nil] at hstream
    have hsame := hsync.decode_eq
    rw [← hstream, hdecode] at hsame
    exact (congrArg Prod.snd hsame).symm
  obtain ⟨consumed, p, hsync⟩ := inSync_of_reaches hreach
  constructor
  · exact hsync.not_panicked
  · rw [hsync.stream_eq, Partial.decode_append, hsync.decode_eq] at hdecode
    exact ⟨_, congrArg Prod.snd hdecode⟩
  · exact hall hreach
  · obtain ⟨events', t, ht, hend⟩ := exists_end_of_reaches hreach
    exact ⟨events', t, ht, hend,
      hall (Runs.reaches_append.mpr ⟨s, hreach, ht⟩) hend⟩

/-! ## One result per segment of the stream -/

/-- A segment of the stream, read from a reader without progress, that gives
exactly this result and gives it with its last arrival. -/
structure Segment (magic : MagicPairs) (resync : Bool) (cap : ℕ)
    (arrivals : List Arrival) (result : FrameResult) : Prop where
  decode_eq :
    Partial.empty.decode magic resync cap arrivals = (Partial.empty, [result])
  quiet : ∃ front last, arrivals = front ++ [last] ∧
    (Partial.empty.decode magic resync cap front).2 = []

theorem exists_segments (magic : MagicPairs) (resync : Bool) (cap : ℕ)
    (consumed : List Arrival) :
    ∃ segments current,
      consumed = segments.flatten ++ current ∧
        List.Forall₂ (Segment magic resync cap) segments
          (Partial.empty.decode magic resync cap consumed).2 ∧
        Partial.empty.decode magic resync cap current =
          ((Partial.empty.decode magic resync cap consumed).1, []) := by
  induction consumed using List.reverseRecOn with
  | nil => exact ⟨[], [], rfl, .nil, rfl⟩
  | append_singleton front a ih =>
      obtain ⟨segments, current, hfront, hsegments, hcurrent⟩ := ih
      set before := Partial.empty.decode magic resync cap front with hbefore
      have hall : Partial.empty.decode magic resync cap (front ++ [a]) =
          ((before.1.feed magic resync cap a).1,
            before.2 ++ (before.1.feed magic resync cap a).2) := by
        rw [Partial.decode_append, ← hbefore]
        simp [Partial.decode]
      have hlast : Partial.empty.decode magic resync cap (current ++ [a]) =
          ((before.1.feed magic resync cap a).1,
            (before.1.feed magic resync cap a).2) := by
        rw [Partial.decode_append, hcurrent]
        simp [Partial.decode]
      rw [hall]
      rcases @Partial.feed_cases magic resync cap before.1 a with
        hnone | ⟨hempty, result, hresult⟩
      · refine ⟨segments, current ++ [a], ?_, ?_, ?_⟩
        · rw [hfront, List.append_assoc]
        · rw [hnone, List.append_nil]
          exact hsegments
        · rw [hlast, hnone]
      · refine ⟨segments ++ [current ++ [a]], [], ?_, ?_, ?_⟩
        · rw [hfront]
          simp
        · rw [hresult]
          refine List.rel_append hsegments (.cons ⟨?_, ?_⟩ .nil)
          · rw [hlast, hempty, hresult]
          · exact ⟨current, a, rfl, by rw [hcurrent]⟩
        · rw [hempty]
          rfl

/-- The results of `FrameReader::read` do not depend on the schedule.  For a
reader and a payload buffer kept across calls, under any polls, partial reads
and dropped calls: no slice leaves a buffer; what has been consumed is a
prefix of the stream, cut into one segment per result and the frame in
progress; a call that reports a result leaves the reader at its start; a
schedule can always go on while the stream lasts; and two schedules that have
consumed equally much, over payload buffers of equal size, have reported the
same results. -/
theorem read_schedule_independent
    (magic : MagicPairs) (resync : Bool) (payload : List UInt8)
    (stream : List Arrival) (events : List Event) (s : Session)
    (hreach : Runs.Reaches Session.step
      (Session.start magic resync payload stream) events s) :
    s.call ≠ .panicked ∧
      (∃ segments current p,
        stream = segments.flatten ++ current ++ s.waiting ∧
          List.Forall₂ (Segment magic resync payload.length) segments
            s.results ∧
          Partial.empty.decode magic resync payload.length current = (p, []) ∧
          s.bufs.reader.headerLen = p.header.length ∧
          s.bufs.reader.payloadRead = p.payload.length) ∧
      (∀ event t, s.step event = some t →
        t.results = s.results ∨ t.bufs.reader.AtStart) ∧
      (∀ a rest, s.waiting = a :: rest →
        ∃ events' t, Runs.Reaches Session.step s events' t ∧
          t.waiting = rest) ∧
      (∀ payload' events' t, payload'.length = payload.length →
        Runs.Reaches Session.step
          (Session.start magic resync payload' stream) events' t →
        (t.waiting.length ≤ s.waiting.length → s.results <+: t.results) ∧
          (t.waiting.length = s.waiting.length → s.results = t.results)) := by
  obtain ⟨consumed, p, hsync⟩ := inSync_of_reaches hreach
  refine ⟨hsync.not_panicked, ?_, ?_, fun a rest => hsync.canAdvance, ?_⟩
  · obtain ⟨segments, current, hconsumed, hsegments, hcurrent⟩ :=
      exists_segments magic resync payload.length consumed
    rw [hsync.decode_eq] at hsegments hcurrent
    refine ⟨segments, current, p, ?_, hsegments, hcurrent,
      hsync.tracks.headerLen_eq, hsync.tracks.payloadRead_eq⟩
    rw [← hconsumed]
    exact hsync.stream_eq
  · intro event t hstep
    obtain ⟨extra, p', -, hresults⟩ := hsync.afterStep hstep
    exact hresults
  · intro payload' events' t hlength hreach'
    obtain ⟨consumed', p', hsync'⟩ := inSync_of_reaches hreach'
    rw [hlength] at hsync'
    have hfront : t.waiting.length ≤ s.waiting.length →
        s.results <+: t.results := by
      intro hle
      have hstreams : consumed ++ s.waiting = consumed' ++ t.waiting := by
        rw [← hsync.stream_eq, hsync'.stream_eq]
      have hconsumed : consumed <+: consumed' := by
        have hcount := congrArg List.length hstreams
        simp only [List.length_append] at hcount
        exact List.prefix_of_prefix_length_le
          (List.prefix_append consumed s.waiting)
          (by rw [hstreams]; exact List.prefix_append consumed' t.waiting)
          (by omega)
      obtain ⟨more, rfl⟩ := hconsumed
      have hdecode := hsync'.decode_eq
      rw [Partial.decode_append, hsync.decode_eq] at hdecode
      exact ⟨_, congrArg Prod.snd hdecode⟩
    refine ⟨hfront, fun heq => ?_⟩
    have hstreams : consumed ++ s.waiting = consumed' ++ t.waiting := by
      rw [← hsync.stream_eq, hsync'.stream_eq]
    obtain ⟨rfl, -⟩ := List.append_inj' hstreams heq.symm
    have hdecode := hsync'.decode_eq
    rw [hsync.decode_eq] at hdecode
    exact congrArg Prod.snd hdecode

/-- A frame cut inside its header and inside its payload, the call dropped
each time. -/
theorem read_schedule_independent_cut :
    ∃ s : Session,
      Runs.Reaches Session.step
        (Session.start ⟨(0xB5, 0x4E), (0xB6, 0x4E)⟩ false [0, 0, 0, 0]
          ([0xB5, 0x4E, 2, 0, 7, 8].map .byte))
        [.call, .complete 1, .cancel, .call, .complete 1, .pending,
          .complete 1, .complete 1, .complete 1, .cancel, .call,
          .complete 1] s ∧
        s.results = [.ok 0xB5 [7, 8]] ∧ s.call ≠ .panicked := by
  have hreach : ∃ s, Runs.Reaches Session.step
      (Session.start ⟨(0xB5, 0x4E), (0xB6, 0x4E)⟩ false [0, 0, 0, 0]
        ([0xB5, 0x4E, 2, 0, 7, 8].map .byte))
      [.call, .complete 1, .cancel, .call, .complete 1, .pending,
        .complete 1, .complete 1, .complete 1, .cancel, .call,
        .complete 1] s ∧ s.results = [.ok 0xB5 [7, 8]] :=
    ⟨_, rfl, by decide⟩
  obtain ⟨s, hs, hresults⟩ := hreach
  exact ⟨s, hs, hresults,
    (read_schedule_independent _ _ _ _ _ s hs).1⟩

end Stream
end PicoFi
