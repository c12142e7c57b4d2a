import PicoFi.ByteBuffer

/-!
# The incremental frame reader

`FrameReader::read` is an asynchronous function whose progress lives in the
reader, so that a call can be dropped at any await and repeated.  The body is
embedded as two functions: `enter` runs a fresh call to its first await, and
`resume` continues a suspended call with the answer of the underlying read.
A slice index out of range is the explicit status `panicked`.

`Partial` and `decode` are the abstract reading of the same stream, one
arrival at a time and without any notion of a call.
-/

namespace PicoFi
namespace Stream

open Buffer

/-- `[[u8; 2]; 2]`, the accepted sync pairs. -/
structure MagicPairs where
  first : UInt8 × UInt8
  second : UInt8 × UInt8
  deriving DecidableEq

def MagicPairs.toList (magic : MagicPairs) : List (UInt8 × UInt8) :=
  [magic.first, magic.second]

def MagicPairs.Starts (magic : MagicPairs) (b : UInt8) : Prop :=
  ∃ m ∈ magic.toList, m.1 = b

def MagicPairs.Matches (magic : MagicPairs) (header : List UInt8) : Prop :=
  ∃ m ∈ magic.toList, [m.1, m.2] = header

instance (magic : MagicPairs) (b : UInt8) : Decidable (magic.Starts b) :=
  inferInstanceAs (Decidable (∃ m ∈ magic.toList, m.1 = b))

instance (magic : MagicPairs) (header : List UInt8) :
    Decidable (magic.Matches header) :=
  inferInstanceAs (Decidable (∃ m ∈ magic.toList, [m.1, m.2] = header))

structure FrameReader where
  magic : MagicPairs
  resync : Bool
  header : List UInt8
  headerLen : ℕ
  payloadRead : ℕ

namespace FrameReader

def new (magic : MagicPairs) (resync : Bool) : FrameReader where
  magic := magic
  resync := resync
  header := [0, 0, 0, 0]
  headerLen := 0
  payloadRead := 0

def reset (reader : FrameReader) : FrameReader :=
  { reader with headerLen := 0, payloadRead := 0 }

/-- No progress is recorded, as in a new reader; stale header bytes are
written again before they are read. -/
def AtStart (reader : FrameReader) : Prop :=
  reader.headerLen = 0 ∧ reader.payloadRead = 0

end FrameReader

/-- The await a suspended call is parked at. -/
inductive ReadRequest
  /-- `input.read(&mut self.header[pos..pos + 1])` -/
  | header (pos : ℕ)
  /-- `input.read(&mut payload[self.payload_read..len])` -/
  | payload (len : ℕ)
  deriving DecidableEq

inductive ReadOutcome
  | ok (kind : UInt8) (len : ℕ)
  | err
  deriving DecidableEq

inductive CallStatus
  | awaiting (request : ReadRequest)
  | returned (outcome : ReadOutcome)
  | panicked
  deriving DecidableEq

/-- The reader and the caller's payload buffer, both borrowed by a call. -/
structure ReadBuffers where
  reader : FrameReader
  payload : List UInt8

namespace ReadBuffers

def reset (bufs : ReadBuffers) : ReadBuffers :=
  { bufs with reader := bufs.reader.reset }

/-- The payload loop and the return of a complete frame. -/
def payloadLoop (bufs : ReadBuffers) (len : ℕ) : ReadBuffers × CallStatus :=
  if bufs.reader.payloadRead < len then
    if len ≤ bufs.payload.length then (bufs, .awaiting (.payload len))
    else (bufs, .panicked)
  else
    let kind := bufs.reader.header.getD 0 0
    (bufs.reset, .returned (.ok kind len))

/-- The head of the header loop, which a fresh call enters first. -/
def enter (bufs : ReadBuffers) : ReadBuffers × CallStatus :=
  let reader := bufs.reader
  if reader.headerLen < 4 then
    if reader.headerLen + 1 ≤ reader.header.length then
      (bufs, .awaiting (.header reader.headerLen))
    else (bufs, .panicked)
  else
    let len := u16le (reader.header.getD 2 0) (reader.header.getD 3 0)
    if bufs.payload.length < len then (bufs.reset, .returned .err)
    else bufs.payloadLoop len

/-- One header byte has arrived: check the sync pair, then loop. -/
def afterHeaderByte (bufs : ReadBuffers) (pos : ℕ) (b : UInt8) :
    ReadBuffers × CallStatus :=
  let reader :=
    { bufs.reader with
      header := bufs.reader.header.set pos b
      headerLen := bufs.reader.headerLen + 1 }
  if reader.headerLen = 1 ∧ ¬reader.magic.Starts (reader.header.getD 0 0) then
    let bufs := { bufs with reader := reader.reset }
    if reader.resync then bufs.enter else (bufs, .returned .err)
  else if reader.headerLen = 2 ∧
      ¬reader.magic.Matches (reader.header.take 2) then
    let last := reader.header.getD 1 0
    let reader := reader.reset
    if ¬reader.resync then ({ bufs with reader := reader }, .returned .err)
    else if reader.magic.Starts last then
      let reader := { reader with header := reader.header.set 0 last, headerLen := 1 }
      enter { bufs with reader := reader }
    else enter { bufs with reader := reader }
  else enter { bufs with reader := reader }

/-- Continue a suspended call.  The answer is the bytes a read of the
requested slice returned, or `none` for an I/O error. -/
def resume (bufs : ReadBuffers) :
    ReadRequest → Option (List UInt8) → ReadBuffers × CallStatus
  | .header pos, some [b] => bufs.afterHeaderByte pos b
  | .header _, _ => (bufs.reset, .returned .err)
  | .payload len, some (b :: bytes) =>
      let payload := splice bufs.payload bufs.reader.payloadRead (b :: bytes)
      let reader :=
        { bufs.reader with
          payloadRead := bufs.reader.payloadRead + (b :: bytes).length }
      payloadLoop { reader := reader, payload := payload } len
  | .payload _, _ => (bufs.reset, .returned .err)

def requestSize (bufs : ReadBuffers) : ReadRequest → ℕ
  | .header _ => 1
  | .payload len => len - bufs.reader.payloadRead

end ReadBuffers

/-! ## The stream without calls -/

/-- What the transport delivers next: a byte, or a read that fails or
reports the end of the stream. -/
inductive Arrival
  | byte (b : UInt8)
  | fault
  deriving DecidableEq

inductive FrameResult
  | ok (kind : UInt8) (payload : List UInt8)
  | err
  deriving DecidableEq

def FrameResult.size : FrameResult → ℕ
  | .ok _ payload => 4 + payload.length
  | .err => 0

def ReadOutcome.len : ReadOutcome → ℕ
  | .ok _ len => len
  | .err => 0

def ReadOutcome.result (payload : List UInt8) : ReadOutcome → FrameResult
  | .ok kind len => .ok kind (payload.take len)
  | .err => .err

/-- The bytes of the frame in progress. -/
structure Partial where
  header : List UInt8
  payload : List UInt8
  deriving DecidableEq

namespace Partial

def empty : Partial := ⟨[], []⟩

/-- The declared payload length, once the header is complete. -/
def length (p : Partial) : ℕ :=
  u16le (p.header.getD 2 0) (p.header.getD 3 0)

structure Incomplete (cap : ℕ) (p : Partial) : Prop where
  header_le : p.header.length ≤ 4
  payload_nil : p.header.length < 4 → p.payload = []
  payload_lt : p.header.length = 4 → p.payload.length < p.length
  length_le : p.header.length = 4 → p.length ≤ cap

def request (p : Partial) : ReadRequest :=
  if p.header.length < 4 then .header p.header.length else .payload p.length

variable (magic : MagicPairs) (resync : Bool) (cap : ℕ)

/-- A header byte, with resynchronisation on a mismatch. -/
def feedHeader (p : Partial) (b : UInt8) : Partial × List FrameResult :=
  let header := p.header ++ [b]
  if header.length = 1 ∧ ¬magic.Starts b then
    (empty, if resync then [] else [.err])
  else if header.length = 2 ∧ ¬magic.Matches header then
    if resync then
      (if magic.Starts b then ⟨[b], []⟩ else empty, [])
    else (empty, [.err])
  else if header.length < 4 then (⟨header, []⟩, [])
  else
    let complete : Partial := ⟨header, []⟩
    if cap < complete.length then (empty, [.err])
    else if complete.length = 0 then (empty, [.ok (header.getD 0 0) []])
    else (complete, [])

def feedPayload (p : Partial) (b : UInt8) : Partial × List FrameResult :=
  let payload := p.payload ++ [b]
  if payload.length = p.length then (empty, [.ok (p.header.getD 0 0) payload])
  else (⟨p.header, payload⟩, [])

def feed (p : Partial) : Arrival → Partial × List FrameResult
  | .byte b =>
      if p.header.length < 4 then p.feedHeader magic resync cap b
      else p.feedPayload b
  | .fault => (empty, [.err])

/-- The frame in progress and the results after a list of arrivals. -/
def decode (p : Partial) : List Arrival → Partial × List FrameResult
  | [] => (p, [])
  | a :: arrivals =>
      let next := p.feed magic resync cap a
      let rest := next.1.decode arrivals
      (rest.1, next.2 ++ rest.2)

variable {magic resync cap}

@[simp] theorem decode_nil (p : Partial) :
    p.decode magic resync cap [] = (p, []) := rfl

theorem decode_append (p : Partial) (front back : List Arrival) :
    p.decode magic resync cap (front ++ back) =
      (((p.decode magic resync cap front).1.decode magic resync cap back).1,
        (p.decode magic resync cap front).2 ++
          ((p.decode magic resync cap front).1.decode magic resync cap back).2) := by
  induction front generalizing p with
  | nil => simp
  | cons a front ih => simp [decode, ih]

theorem incomplete_empty : (empty).Incomplete cap := by
  constructor <;> simp [empty]

theorem feed_cases (p : Partial) (a : Arrival) :
    (p.feed magic resync cap a).2 = [] ∨
      (p.feed magic resync cap a).1 = empty ∧
        ∃ result, (p.feed magic resync cap a).2 = [result] := by
  cases a with
  | fault => exact .inr ⟨rfl, _, rfl⟩
  | byte b =>
      unfold feed
      simp only
      split
      · unfold feedHeader
        simp only
        repeat' split
        all_goals simp [empty]
      · unfold feedPayload
        simp only
        split <;> simp [empty]

theorem decode_payload (p : Partial) (hheader : p.header.length = 4)
    (bytes : List UInt8) (hbytes : bytes ≠ [])
    (hfit : p.payload.length + bytes.length ≤ p.length) :
    p.decode magic resync cap (bytes.map .byte) =
      if p.payload.length + bytes.length = p.length then
        (empty, [.ok (p.header.getD 0 0) (p.payload ++ bytes)])
      else (⟨p.header, p.payload ++ bytes⟩, []) := by
  induction bytes generalizing p with
  | nil => contradiction
  | cons b bytes ih =>
      have hnot : ¬p.header.length < 4 := by omega
      have hfeed : p.feed magic resync cap (.byte b) = p.feedPayload b := by
        simp [feed, hnot]
      simp only [List.map_cons, decode, hfeed]
      cases bytes with
      | nil =>
          simp only [feedPayload, List.length_append, List.length_singleton,
            List.map_nil, decode_nil, List.append_nil]
      | cons c bytes =>
          have hcount : (p.payload ++ [b]).length = p.payload.length + 1 := by
            simp
          have hmore : ¬(p.payload ++ [b]).length = p.length := by
            simp only [List.length_cons] at hfit
            omega
          have hnext : p.feedPayload b = (⟨p.header, p.payload ++ [b]⟩, []) := by
            unfold feedPayload
            rw [if_neg hmore]
          have hrest := ih ⟨p.header, p.payload ++ [b]⟩ hheader (by simp) (by
            change (p.payload ++ [b]).length + _ ≤ p.length
            simp only [List.length_cons] at hfit ⊢
            omega)
          rw [hnext]
          simp only [List.nil_append]
          rw [hrest]
          change (if (p.payload ++ [b]).length + (c :: bytes).length = p.length
            then _ else _) = _
          have hsum : (p.payload ++ [b]).length + (c :: bytes).length =
              p.payload.length + (b :: c :: bytes).length := by
            simp only [List.length_cons, hcount]
            omega
          rw [hsum, List.append_assoc, List.singleton_append]

def held (p : Partial) : ℕ := p.header.length + p.payload.length

theorem feed_size (p : Partial) (a : Arrival) :
    ((p.feed magic resync cap a).2.map FrameResult.size).sum +
      (p.feed magic resync cap a).1.held ≤ p.held + 1 := by
  cases a with
  | fault => simp [feed, FrameResult.size, held, empty]
  | byte b =>
      unfold feed
      simp only
      split
      · unfold feedHeader
        simp only [List.length_append, List.length_singleton]
        split_ifs <;> simp [FrameResult.size, held, empty]
        omega
      · unfold feedPayload
        simp only [List.length_append, List.length_singleton]
        split
        · simp only [List.map_cons, List.map_nil, List.sum_cons, List.sum_nil, FrameResult.size,
            held, empty, List.length_append, List.length_nil, List.length_singleton]
          omega
        · simp [held, Nat.add_assoc]

/-- The frames returned have taken all their bytes. -/
theorem decode_size (p : Partial) (arrivals : List Arrival) :
    ((p.decode magic resync cap arrivals).2.map FrameResult.size).sum +
      (p.decode magic resync cap arrivals).1.held ≤ p.held + arrivals.length := by
  induction arrivals generalizing p with
  | nil => simp
  | cons a arrivals ih =>
      have hfeed := @feed_size magic resync cap p a
      have hrest := ih (p.feed magic resync cap a).1
      simp only [decode, List.map_append, List.sum_append, List.length_cons]
      omega

end Partial

end Stream
end PicoFi
