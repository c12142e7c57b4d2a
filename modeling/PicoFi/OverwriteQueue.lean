import PicoFi.ByteRing
import PicoFi.BoundedFifo
import PicoFi.StepRuns
import Mathlib.Data.List.SplitLengths

/-!
# The byte-backed mailbox

`OverwriteQueue` stores only the occupied bytes of its items: a deque of
lengths and one byte ring.  This module embeds `QueueState` and the three
queue operations, and relates the ring to the list of encodings it holds.
The diagnostic counters of the source are write-only for the queue and are
left out.
-/

namespace PicoFi
namespace Mailbox

open Buffer

/-- What a message type supplies to be stored in the ring.  The argument `n`
of `copyQueuedSlice` is the length of the target slice, and its value is what
that slice holds afterwards. -/
class QueueItem (T : Type) where
  queuedLen : T → ℕ
  copyQueuedSlice : T → ℕ → ℕ → List UInt8
  fromQueuedSlices : List UInt8 → List UInt8 → Option T

/-- A message type whose byte codec does not depend on where the ring splits
an item. -/
class QueueCodec (T : Type) extends QueueItem T where
  wire : T → List UInt8
  queuedLen_eq : ∀ item, queuedLen item = (wire item).length
  copyQueuedSlice_eq : ∀ item start n, start + n ≤ (wire item).length →
    copyQueuedSlice item start n = ((wire item).drop start).take n
  fromQueuedSlices_wire : ∀ item first second, first ++ second = wire item →
    ∃ copy, fromQueuedSlices first second = some copy ∧ wire copy = wire item

open QueueItem QueueCodec

/-! ## The ring state -/

structure QueueState (N B : ℕ) where
  lengths : List ℕ
  bytes : List UInt8
  head : ℕ
  used : ℕ

namespace QueueState

variable {N B : ℕ} {T : Type}

def new (N B : ℕ) : QueueState N B where
  lengths := []
  bytes := List.replicate B 0
  head := 0
  used := 0

/-- `fits`: the deque is full exactly when it holds `N` lengths. -/
def Fits (q : QueueState N B) (len : ℕ) : Prop :=
  0 < len ∧ q.lengths.length ≠ N ∧ len ≤ B - q.used

instance (q : QueueState N B) (len : ℕ) : Decidable (q.Fits len) :=
  inferInstanceAs (Decidable (_ ∧ _ ∧ _))

def discardFront (q : QueueState N B) : Option (QueueState N B) :=
  match q.lengths with
  | [] => none
  | len :: lengths =>
      some
        { q with
          lengths := lengths
          head := (q.head + len) % B
          used := q.used - len }

def insert [QueueItem T] (q : QueueState N B) (item : T) : QueueState N B :=
  let len := queuedLen item
  let tail := (q.head + q.used) % B
  let first := min len (B - tail)
  let bytes := splice q.bytes tail (copyQueuedSlice item 0 first)
  { q with
    bytes := splice bytes 0 (copyQueuedSlice item first (len - first))
    lengths := q.lengths ++ [len]
    used := q.used + len }

/-- The eviction loop of `push_overwrite`.  The second component is `false`
when the queue ran empty before the length fitted. -/
def discardUntilFits (len : ℕ) : ℕ → QueueState N B → QueueState N B × Bool
  | 0, q => (q, decide (q.Fits len))
  | fuel + 1, q =>
      if q.Fits len then (q, true)
      else
        match q.discardFront with
        | none => (q, false)
        | some rest => discardUntilFits len fuel rest

def tryPushRef [QueueItem T] (q : QueueState N B) (item : T) :
    QueueState N B × Bool :=
  if q.Fits (queuedLen item) then (q.insert item, true) else (q, false)

def pushOverwrite [QueueItem T] (q : QueueState N B) (item : T) :
    QueueState N B × Bool :=
  let len := queuedLen item
  if len = 0 ∨ B < len ∨ N = 0 then (q, false)
  else
    -- Each round discards one item, so the number of items bounds the loop.
    let room := discardUntilFits len q.lengths.length q
    if room.2 then (room.1.insert item, true) else (room.1, true)

def tryPop [QueueItem T] (q : QueueState N B) : QueueState N B × Option T :=
  match q.lengths with
  | [] => (q, none)
  | len :: _ =>
      let first := min len (B - q.head)
      let item :=
        fromQueuedSlices (slice q.bytes q.head (q.head + first))
          (slice q.bytes 0 (len - first))
      (q.discardFront.getD q, item)

/-! ## What the ring holds -/

def segments (q : QueueState N B) : List (List UInt8) :=
  q.lengths.splitLengths (Ring.window q.bytes q.head q.used)

/-- The ring state holds exactly these encodings. -/
structure Represents (q : QueueState N B) (encodings : List (List UInt8)) :
    Prop where
  head_lt : q.head < B
  bytes_length : q.bytes.length = B
  lengths_eq : q.lengths = encodings.map List.length
  used_eq : q.used = Fifo.load List.length encodings
  bounded : Fifo.Bounded List.length ⟨N, B⟩ encodings
  window_eq : Ring.window q.bytes q.head q.used = encodings.flatten

variable {q : QueueState N B} {encodings : List (List UInt8)}

theorem represents_new (hB : 0 < B) : (new N B).Represents [] := by
  constructor <;> simp [new, hB, Fifo.bounded_nil]

theorem splitLengths_flatten (encodings : List (List UInt8)) :
    (encodings.map List.length).splitLengths encodings.flatten = encodings := by
  induction encodings with
  | nil => rfl
  | cons encoding encodings ih => simp [ih]

theorem Represents.segments_eq (hrep : q.Represents encodings) :
    q.segments = encodings := by
  rw [segments, hrep.lengths_eq, hrep.window_eq, splitLengths_flatten]

theorem Represents.used_le (hrep : q.Represents encodings) : q.used ≤ B := by
  have hload := hrep.bounded.load_le
  rw [hrep.used_eq]
  exact hload

theorem Represents.fits_iff (hrep : q.Represents encodings)
    (encoding : List UInt8) :
    q.Fits encoding.length ↔
      Fifo.Admits List.length ⟨N, B⟩ encodings encoding := by
  have hcount : q.lengths.length = encodings.length := by
    simp [hrep.lengths_eq]
  have hle : encodings.length ≤ N := hrep.bounded.count_le
  have hused := hrep.used_le
  have hload := hrep.used_eq
  unfold Fits Fifo.Admits
  simp only [hcount, ← hload]
  omega

theorem Represents.insert [QueueCodec T] (hrep : q.Represents encodings)
    {item : T} (hfits : q.Fits (queuedLen item)) :
    (q.insert item).Represents (encodings ++ [wire item]) := by
  have hlen : queuedLen item = (wire item).length := queuedLen_eq item
  have hused := hrep.used_le
  have hroom : q.used + (wire item).length ≤ B := by
    have := hfits.2.2
    omega
  have hB : 0 < B := lt_of_le_of_lt (Nat.zero_le _) hrep.head_lt
  have htail : (q.head + q.used) % B < B := Nat.mod_lt _ hB
  have hadmits : Fifo.Admits List.length ⟨N, B⟩ encodings (wire item) := by
    rw [← hrep.fits_iff, ← hlen]
    exact hfits
  -- The two copies into the ring are one wrapped write of the encoding.
  have hbytes : (q.insert item).bytes =
      Ring.write q.bytes ((q.head + q.used) % B) (wire item) := by
    simp only [QueueState.insert, Ring.write, Ring.beforeWrap, hrep.bytes_length,
      hlen]
    rw [copyQueuedSlice_eq item 0 _ (by omega),
      copyQueuedSlice_eq item _ _ (by omega), List.drop_zero]
    congr 1
    rw [List.take_of_length_le]
    simp
  have hbytesLength : (q.insert item).bytes.length = B := by
    rw [hbytes, Ring.length_write (by rw [hrep.bytes_length]; exact htail)
      (by rw [hrep.bytes_length]; omega), hrep.bytes_length]
  refine ⟨hrep.head_lt, hbytesLength, ?_, ?_, hrep.bounded.append hadmits, ?_⟩
  · simp [QueueState.insert, hrep.lengths_eq, hlen]
  · simp [QueueState.insert, hrep.used_eq, hlen]
  · have hwindow := Ring.window_write q.bytes (wire item) q.head q.used
      (by rw [hrep.bytes_length]; exact hrep.head_lt)
      (by rw [hrep.bytes_length]; exact hroom)
    rw [hrep.bytes_length] at hwindow
    rw [hbytes]
    simp only [QueueState.insert, hlen, List.flatten_append,
      List.flatten_cons, List.flatten_nil, List.append_nil]
    rw [hwindow, hrep.window_eq]

theorem Represents.discardFront {encoding : List UInt8}
    (hrep : q.Represents (encoding :: encodings)) :
    ∃ rest, q.discardFront = some rest ∧ rest.Represents encodings := by
  have hlengths : q.lengths = encoding.length :: encodings.map List.length := by
    simpa using hrep.lengths_eq
  have hused : q.used = encoding.length + Fifo.load List.length encodings := by
    simpa using hrep.used_eq
  have hle := hrep.used_le
  have hB : 0 < B := lt_of_le_of_lt (Nat.zero_le _) hrep.head_lt
  refine ⟨_, by simp only [QueueState.discardFront, hlengths]; rfl, ?_⟩
  refine ⟨Nat.mod_lt _ hB, hrep.bytes_length, rfl, ?_, hrep.bounded.tail, ?_⟩
  · simp only
    omega
  · have hadvance := Ring.window_advance q.bytes q.head encoding.length
      q.used (by omega)
      (by rw [hrep.bytes_length]; exact hle)
    rw [hrep.bytes_length, hrep.window_eq] at hadvance
    simpa using hadvance

/-- The eviction loop removes the shortest prefix that makes room. -/
theorem Represents.discardUntilFits (hrep : q.Represents encodings)
    {encoding : List UInt8}
    (hstorable : Fifo.Storable List.length ⟨N, B⟩ encoding) :
    ∃ room,
      discardUntilFits encoding.length encodings.length q = (room, true) ∧
        room.Represents
          (encodings.drop
            (Fifo.evictions List.length ⟨N, B⟩ encodings encoding
              hstorable)) := by
  induction encodings generalizing q with
  | nil =>
      have hadmits : Fifo.Admits List.length ⟨N, B⟩ [] encoding :=
        ⟨hstorable.1, hstorable.2.2, by simpa using hstorable.2.1⟩
      have hfits := (hrep.fits_iff encoding).mpr hadmits
      refine ⟨q, ?_, by simpa using hrep⟩
      simp [QueueState.discardUntilFits, hfits]
  | cons oldest encodings ih =>
      by_cases hadmits :
          Fifo.Admits List.length ⟨N, B⟩ (oldest :: encodings) encoding
      · have hfits := (hrep.fits_iff encoding).mpr hadmits
        have hzero := Fifo.evictions_eq (oldest :: encodings) (k := 0) hstorable
          (by simpa using hadmits) (by simp)
        refine ⟨q, ?_, ?_⟩
        · simp [QueueState.discardUntilFits, hfits]
        · rw [hzero]
          simpa using hrep
      · have hfits : ¬q.Fits encoding.length :=
          fun h => hadmits ((hrep.fits_iff encoding).mp h)
        obtain ⟨rest, hrest, hrestRep⟩ := hrep.discardFront
        obtain ⟨room, hroom, hroomRep⟩ := ih hrestRep
        have hsucc := Fifo.evictions_eq (oldest :: encodings)
          (k := Fifo.evictions List.length ⟨N, B⟩ encodings encoding
            hstorable + 1) hstorable
          (by simpa using Fifo.admits_evictions hstorable) (by
            intro j hj
            cases j with
            | zero => simpa using hadmits
            | succ j =>
                have hmin := Nat.find_min
                  (hstorable.exists_admits encodings) (m := j)
                  (by simpa [Fifo.evictions] using hj)
                simpa using hmin)
        refine ⟨room, ?_, ?_⟩
        · simp [QueueState.discardUntilFits, hfits, hrest, hroom]
        · rw [hsucc]
          simpa using hroomRep

/-! ## The queue operations against the bounded queue -/

theorem Represents.tryPushRef [QueueCodec T] (hrep : q.Represents encodings)
    (item : T) :
    (q.tryPushRef item).1.Represents
        (Fifo.push List.length ⟨N, B⟩ encodings (wire item)).1 ∧
      (q.tryPushRef item).2 =
        (Fifo.push List.length ⟨N, B⟩ encodings (wire item)).2 := by
  have hfitsIff := hrep.fits_iff (wire item)
  rw [← queuedLen_eq] at hfitsIff
  unfold QueueState.tryPushRef Fifo.push
  by_cases hfits : q.Fits (queuedLen item)
  · rw [if_pos hfits, if_pos (hfitsIff.mp hfits)]
    exact ⟨hrep.insert hfits, rfl⟩
  · rw [if_neg hfits, if_neg (fun h => hfits (hfitsIff.mpr h))]
    exact ⟨hrep, rfl⟩

theorem Represents.pushOverwrite [QueueCodec T] (hrep : q.Represents encodings)
    (item : T) :
    (q.pushOverwrite item).1.Represents
        (Fifo.overwrite List.length ⟨N, B⟩ encodings (wire item)).1 ∧
      (q.pushOverwrite item).2 =
        (Fifo.overwrite List.length ⟨N, B⟩ encodings (wire item)).2 := by
  have hlen : queuedLen item = (wire item).length := queuedLen_eq item
  unfold QueueState.pushOverwrite Fifo.overwrite
  simp only [hlen]
  by_cases hstorable : Fifo.Storable List.length ⟨N, B⟩ (wire item)
  · have hguard : ¬((wire item).length = 0 ∨ B < (wire item).length ∨ N = 0) := by
      obtain ⟨hpos, hle, hcount⟩ := hstorable
      simp only at hle hcount
      omega
    obtain ⟨room, hroom, hroomRep⟩ := hrep.discardUntilFits hstorable
    have hcount : q.lengths.length = encodings.length := by
      simp [hrep.lengths_eq]
    rw [if_neg hguard, dif_pos hstorable, hcount, hroom]
    refine ⟨hroomRep.insert ?_, rfl⟩
    rw [hlen, hroomRep.fits_iff]
    exact Fifo.admits_evictions hstorable
  · have hguard : (wire item).length = 0 ∨ B < (wire item).length ∨ N = 0 := by
      by_contra hnot
      apply hstorable
      refine ⟨?_, ?_, ?_⟩
      · omega
      · show (wire item).length ≤ B
        omega
      · show 0 < N
        omega
    rw [if_pos hguard, dif_neg hstorable]
    exact ⟨hrep, rfl⟩

theorem Represents.tryPop [QueueCodec T] {items : List T}
    (hrep : q.Represents (items.map wire)) :
    (q.tryPop (T := T)).1.Represents ((Fifo.pop items).1.map wire) ∧
      (q.tryPop (T := T)).2.map wire = (Fifo.pop items).2.map wire := by
  cases items with
  | nil =>
      have hlengths : q.lengths = [] := by simpa using hrep.lengths_eq
      simp only [QueueState.tryPop, hlengths, Fifo.pop]
      exact ⟨hrep, trivial⟩
  | cons item items =>
      have hlengths : q.lengths =
          (wire item).length :: (items.map wire).map List.length := by
        simpa using hrep.lengths_eq
      obtain ⟨rest, hrest, hrestRep⟩ := hrep.discardFront
      have hused : (wire item).length ≤ q.used := by
        have := hrep.used_eq
        simp only [List.map_cons, Fifo.load_cons] at this
        omega
      -- The two slices handed to the codec are the oldest encoding.
      have hpieces := Ring.window_eq_pieces q.bytes q.head
        (wire item).length
        (by rw [hrep.bytes_length]; exact hrep.head_lt)
        (by rw [hrep.bytes_length]; exact hused.trans hrep.used_le)
      have holdest :
          Ring.window q.bytes q.head (wire item).length = wire item := by
        have hfront : Ring.window q.bytes q.head (wire item).length =
            (Ring.window q.bytes q.head q.used).take (wire item).length := by
          rw [Ring.window, Ring.window, List.take_take, Nat.min_eq_left hused]
        rw [hfront, hrep.window_eq]
        simp
      rw [holdest, hrep.bytes_length] at hpieces
      obtain ⟨copy, hcopy, hwire⟩ :=
        fromQueuedSlices_wire item _ _ hpieces.symm
      simp only [Ring.beforeWrap] at hcopy
      simp only [QueueState.tryPop, hlengths, Fifo.pop, hcopy, hrest,
        Option.getD_some, Option.map_some, hwire]
      exact ⟨hrestRep, trivial⟩

end QueueState

/-! ## Whole runs -/

inductive QueueOp (T : Type)
  | tryPushRef (item : T)
  | pushOverwrite (item : T)
  | tryPop

inductive QueueReply (T : Type)
  | pushed (accepted : Bool)
  | popped (item : Option T)

def QueueState.apply {N B : ℕ} {T : Type} [QueueItem T] (q : QueueState N B) :
    QueueOp T → QueueState N B × QueueReply T
  | .tryPushRef item => ((q.tryPushRef item).1, .pushed (q.tryPushRef item).2)
  | .pushOverwrite item =>
      ((q.pushOverwrite item).1, .pushed (q.pushOverwrite item).2)
  | .tryPop => ((q.tryPop (T := T)).1, .popped q.tryPop.2)

def itemWeight {T : Type} [QueueCodec T] (item : T) : ℕ :=
  (wire item).length

/-- The same operations on the abstract bounded queue of items. -/
def fifoApply {T : Type} [QueueCodec T] (N B : ℕ) (items : List T) :
    QueueOp T → List T × QueueReply T
  | .tryPushRef item =>
      let next := Fifo.push itemWeight ⟨N, B⟩ items item
      (next.1, .pushed next.2)
  | .pushOverwrite item =>
      let next := Fifo.overwrite itemWeight ⟨N, B⟩ items item
      (next.1, .pushed next.2)
  | .tryPop =>
      let next := Fifo.pop items
      (next.1, .popped next.2)

/-- Equal replies, where popped items are compared by their encoding. -/
def QueueReply.Matches {T : Type} [QueueCodec T] :
    QueueReply T → QueueReply T → Prop
  | .pushed a, .pushed b => a = b
  | .popped a, .popped b => a.map wire = b.map wire
  | _, _ => False

theorem QueueState.Represents.apply {N B : ℕ} {T : Type} [QueueCodec T]
    {q : QueueState N B} {items : List T}
    (hrep : q.Represents (items.map wire)) (op : QueueOp T) :
    (q.apply op).1.Represents ((fifoApply N B items op).1.map wire) ∧
      (q.apply op).2.Matches (fifoApply N B items op).2 := by
  cases op with
  | tryPushRef item =>
      have h := hrep.tryPushRef item
      rw [Fifo.push_map] at h
      exact h
  | pushOverwrite item =>
      have h := hrep.pushOverwrite item
      rw [Fifo.overwrite_map] at h
      exact h
  | tryPop => exact hrep.tryPop

/-- A refused item leaves the ring itself untouched, not only its contents. -/
theorem QueueState.tryPushRef_refused {N B : ℕ} {T : Type} [QueueItem T]
    {q : QueueState N B} {item : T} (hrefused : (q.tryPushRef item).2 = false) :
    (q.tryPushRef item).1 = q := by
  unfold QueueState.tryPushRef at hrefused ⊢
  split
  next hfits => simp [hfits] at hrefused
  next => rfl

theorem QueueState.pushOverwrite_refused {N B : ℕ} {T : Type} [QueueItem T]
    {q : QueueState N B} {item : T}
    (hrefused : (q.pushOverwrite item).2 = false) :
    (q.pushOverwrite item).1 = q := by
  unfold QueueState.pushOverwrite at hrefused ⊢
  simp only at hrefused ⊢
  split
  next => rfl
  next hguard =>
    rw [if_neg hguard] at hrefused
    split at hrefused <;> simp at hrefused

/-- The bounds every ring state keeps. -/
structure QueueState.WithinBounds {N B : ℕ} (q : QueueState N B) : Prop where
  head_lt : q.head < B
  lengths_pos : ∀ len ∈ q.lengths, 0 < len
  count_le : q.lengths.length ≤ N
  lengths_sum : q.lengths.sum = q.used
  used_le : q.used ≤ B

theorem QueueState.Represents.withinBounds {N B : ℕ} {q : QueueState N B}
    {encodings : List (List UInt8)} (hrep : q.Represents encodings) :
    q.WithinBounds := by
  refine ⟨hrep.head_lt, ?_, ?_, ?_, hrep.used_le⟩
  · intro len hmem
    rw [hrep.lengths_eq] at hmem
    obtain ⟨encoding, hencoding, rfl⟩ := List.mem_map.mp hmem
    exact hrep.bounded.positive encoding hencoding
  · rw [hrep.lengths_eq, List.length_map]
    exact hrep.bounded.count_le
  · rw [hrep.lengths_eq, hrep.used_eq, Fifo.load]

/-! ## The queue as a value -/

/-- A mailbox together with the proof that its ring holds encoded items. -/
structure OverwriteQueue (T : Type) [QueueCodec T] (N B : ℕ) where
  state : QueueState N B
  represents : ∃ items : List T, state.Represents (items.map wire)

namespace OverwriteQueue

variable {T : Type} [QueueCodec T] {N B : ℕ}

def empty (hB : 0 < B) : OverwriteQueue T N B where
  state := QueueState.new N B
  represents := ⟨[], QueueState.represents_new hB⟩

def contents (q : OverwriteQueue T N B) : List (List UInt8) :=
  q.state.segments

def HasSpaceFor (q : OverwriteQueue T N B) (len : ℕ) : Prop :=
  q.state.Fits len

instance (q : OverwriteQueue T N B) (len : ℕ) : Decidable (q.HasSpaceFor len) :=
  inferInstanceAs (Decidable (q.state.Fits len))

private theorem represents_apply (q : OverwriteQueue T N B) (op : QueueOp T) :
    ∃ items : List T, (q.state.apply op).1.Represents (items.map wire) := by
  obtain ⟨items, hrep⟩ := q.represents
  exact ⟨_, (hrep.apply op).1⟩

def tryPushRef (q : OverwriteQueue T N B) (item : T) :
    OverwriteQueue T N B × Bool :=
  (⟨(q.state.tryPushRef item).1, q.represents_apply (.tryPushRef item)⟩,
    (q.state.tryPushRef item).2)

def pushOverwrite (q : OverwriteQueue T N B) (item : T) :
    OverwriteQueue T N B × Bool :=
  (⟨(q.state.pushOverwrite item).1, q.represents_apply (.pushOverwrite item)⟩,
    (q.state.pushOverwrite item).2)

def tryPop (q : OverwriteQueue T N B) : OverwriteQueue T N B × Option T :=
  (⟨(q.state.tryPop (T := T)).1, q.represents_apply .tryPop⟩, q.state.tryPop.2)

theorem state_represents (q : OverwriteQueue T N B) :
    q.state.Represents q.contents := by
  obtain ⟨items, hrep⟩ := q.represents
  rw [contents, hrep.segments_eq]
  exact hrep

@[simp] theorem contents_empty (hB : 0 < B) :
    (empty hB : OverwriteQueue T N B).contents = [] :=
  (QueueState.represents_new hB).segments_eq

theorem hasSpaceFor_iff (q : OverwriteQueue T N B) (encoding : List UInt8) :
    q.HasSpaceFor encoding.length ↔
      Fifo.Admits List.length ⟨N, B⟩ q.contents encoding :=
  q.state_represents.fits_iff encoding

theorem HasSpaceFor.of_le {q : OverwriteQueue T N B} {len large : ℕ}
    (hspace : q.HasSpaceFor large) (hpos : 0 < len) (hle : len ≤ large) :
    q.HasSpaceFor len :=
  ⟨hpos, hspace.2.1, hle.trans hspace.2.2⟩

theorem contents_tryPushRef (q : OverwriteQueue T N B) (item : T) :
    (q.tryPushRef item).1.contents =
        (Fifo.push List.length ⟨N, B⟩ q.contents (wire item)).1 ∧
      (q.tryPushRef item).2 =
        (Fifo.push List.length ⟨N, B⟩ q.contents (wire item)).2 := by
  have h := q.state_represents.tryPushRef item
  exact ⟨h.1.segments_eq, h.2⟩

theorem tryPushRef_accepted (q : OverwriteQueue T N B) (item : T) :
    (q.tryPushRef item).2 = true ↔ q.HasSpaceFor (wire item).length := by
  have hlen : queuedLen item = (wire item).length := queuedLen_eq item
  show (q.state.tryPushRef item).2 = true ↔ q.state.Fits (wire item).length
  unfold QueueState.tryPushRef
  rw [hlen]
  split
  next hfits => simp [hfits]
  next hfits => simp [hfits]

theorem contents_of_accepted {q : OverwriteQueue T N B} {item : T}
    (haccepted : (q.tryPushRef item).2 = true) :
    (q.tryPushRef item).1.contents = q.contents ++ [wire item] := by
  have hadmits := (q.hasSpaceFor_iff (wire item)).mp
    ((q.tryPushRef_accepted item).mp haccepted)
  rw [(q.contents_tryPushRef item).1, Fifo.push, if_pos hadmits]

theorem contents_pushOverwrite (q : OverwriteQueue T N B) (item : T) :
    (q.pushOverwrite item).1.contents =
        (Fifo.overwrite List.length ⟨N, B⟩ q.contents (wire item)).1 ∧
      (q.pushOverwrite item).2 =
        (Fifo.overwrite List.length ⟨N, B⟩ q.contents (wire item)).2 := by
  have h := q.state_represents.pushOverwrite item
  exact ⟨h.1.segments_eq, h.2⟩

theorem contents_tryPop (q : OverwriteQueue T N B) :
    (q.tryPop.1.contents = q.contents.tail) ∧
      q.tryPop.2.map wire = q.contents.head? := by
  obtain ⟨items, hrep⟩ := q.represents
  have h := hrep.tryPop
  have hcontents : q.contents = items.map wire := hrep.segments_eq
  have hnext : q.tryPop.1.contents = (Fifo.pop items).1.map wire :=
    h.1.segments_eq
  have hitem : q.tryPop.2.map wire = (Fifo.pop items).2.map wire := h.2
  rw [hnext, hitem, hcontents]
  cases items <;> simp [Fifo.pop]

theorem HasSpaceFor.afterPop {q : OverwriteQueue T N B} {len : ℕ}
    (hspace : q.HasSpaceFor len) : q.tryPop.1.HasSpaceFor len := by
  have hlen : (List.replicate len (0 : UInt8)).length = len :=
    List.length_replicate
  rw [← hlen, hasSpaceFor_iff] at hspace ⊢
  rw [q.contents_tryPop.1]
  exact hspace.tail

theorem tryPop_eq_none {q : OverwriteQueue T N B} :
    q.tryPop.2 = none ↔ q.contents = [] := by
  have h := q.contents_tryPop.2
  rw [← List.head?_eq_none_iff, ← h]
  simp

/-- With a codec that keeps items apart the oldest item itself is popped. -/
theorem tryPop_eq_some {q : OverwriteQueue T N B} {item : T}
    {encodings : List (List UInt8)}
    (hinj : Function.Injective (wire : T → List UInt8))
    (hcontents : q.contents = wire item :: encodings) :
    q.tryPop.2 = some item := by
  have hpop := q.contents_tryPop.2
  rw [hcontents, List.head?_cons] at hpop
  obtain ⟨other, hother, hwire⟩ := Option.map_eq_some_iff.mp hpop
  rw [hother, hinj hwire]

theorem contents_of_tryPop {q : OverwriteQueue T N B} {item : T}
    (hpop : q.tryPop.2 = some item) :
    q.contents = wire item :: q.tryPop.1.contents := by
  obtain ⟨htail, hhead⟩ := q.contents_tryPop
  rw [hpop, Option.map_some] at hhead
  rw [htail]
  exact (List.cons_head?_tail hhead.symm).symm

theorem contents_push (q : OverwriteQueue T N B) (item : T) :
    (q.tryPushRef item).1.contents =
      q.contents ++ if (q.tryPushRef item).2 then [wire item] else [] := by
  cases haccepted : (q.tryPushRef item).2 with
  | true => simpa using contents_of_accepted haccepted
  | false =>
      have hsame := QueueState.tryPushRef_refused haccepted
      have hstate : (q.tryPushRef item).1.state = q.state := hsame
      simp [contents, hstate]

theorem contents_pop (q : OverwriteQueue T N B) :
    q.contents = q.tryPop.2.toList.map wire ++ q.tryPop.1.contents := by
  cases hpop : q.tryPop.2 with
  | none =>
      have hempty := tryPop_eq_none.mp hpop
      rw [q.contents_tryPop.1, hempty]
      rfl
  | some item => simpa using contents_of_tryPop hpop

end OverwriteQueue
end Mailbox
end PicoFi
