import PicoFi.I2cHost

/-!
# What the Python reader returns

`read_packet` returns from two places.  A continuation slot returns through
`RxAssembly.push`, which compares the bytes received with the declared total.
A slot with START and END returns at once, after the constructor has only
refused more data than declared.
-/

namespace PicoFi
namespace I2cHost
namespace Python

/-! ## One turn of the loop -/

/-- A turn goes on with an assembly, or the call ends with the polls left. -/
inductive Turn
  | again (assembly : Option RxAssembly)
  | done (result : List Poll → PacketResult)

def turn (deadline : ℕ) (assembly : Option RxAssembly) (poll : Poll) : Turn :=
  if poll.now < deadline then
    match decodeSlot poll.raw with
    | .error e => .done fun _ => .raised e
    | .ok none => .again assembly
    | .ok (some slot) =>
        if slot.flags &&& flagStart ≠ 0 then
          match RxAssembly.init slot with
          | .error e => .done fun _ => .raised e
          | .ok assembly =>
              if slot.flags &&& flagEnd ≠ 0 then .done (.packet slot.kind slot.data)
              else .again (some assembly)
        else
          match assembly with
          | none => .done fun _ => .raised .noActiveTransfer
          | some assembly =>
              match assembly.push slot with
              | .error e => .done fun _ => .raised e
              | .ok (_, some payload) => .done (.packet slot.kind payload)
              | .ok (assembly, none) => .again (some assembly)
  else .done fun _ => .timedOut

theorem readFrom_cons (deadline : ℕ) (assembly : Option RxAssembly) (poll : Poll)
    (polls : List Poll) :
    readFrom deadline assembly (poll :: polls) =
      match turn deadline assembly poll with
      | .again assembly => readFrom deadline assembly polls
      | .done result => result polls := by
  by_cases htime : poll.now < deadline
  · cases hraw : decodeSlot poll.raw with
    | error e => simp only [readFrom, turn, if_pos htime, hraw]
    | ok read =>
        cases read with
        | none => simp only [readFrom, turn, if_pos htime, hraw]
        | some slot =>
            by_cases hstart : slot.flags &&& flagStart ≠ 0
            · cases hinit : RxAssembly.init slot with
              | error e =>
                  simp only [readFrom, turn, if_pos htime, hraw, if_pos hstart, hinit]
              | ok started =>
                  simp only [readFrom, turn, if_pos htime, hraw, if_pos hstart, hinit]
                  split <;> rfl
            · cases assembly with
              | none => simp only [readFrom, turn, if_pos htime, hraw, if_neg hstart]
              | some assembly =>
                  simp only [readFrom, turn, if_pos htime, hraw, if_neg hstart]
                  cases assembly.push slot with
                  | error e => rfl
                  | ok pushed =>
                      obtain ⟨next, done⟩ := pushed
                      cases done <;> rfl
  · simp only [readFrom, turn, if_neg htime]

/-- A decoded slot, for a turn within the deadline. -/
structure Reads (deadline : ℕ) (poll : Poll) (slot : Slot) : Prop where
  in_time : poll.now < deadline
  decoded : decodeSlot poll.raw = .ok (some slot)

def HasStart (slot : Slot) : Prop := slot.flags &&& flagStart ≠ 0

def HasEnd (slot : Slot) : Prop := slot.flags &&& flagEnd ≠ 0

instance (slot : Slot) : Decidable (HasStart slot) :=
  inferInstanceAs (Decidable (_ ≠ _))

instance (slot : Slot) : Decidable (HasEnd slot) :=
  inferInstanceAs (Decidable (_ ≠ _))

/-! ## The two constructors of an assembly -/

theorem RxAssembly.init_eq_ok {slot : Slot} {assembly : RxAssembly}
    (h : RxAssembly.init slot = .ok assembly) :
    HasStart slot ∧ slot.offset = 0 ∧ slot.data.length ≤ slot.totalLen ∧
      assembly =
        { kind := slot.kind
          transferId := slot.transferId
          totalLen := slot.totalLen
          nextOffset := slot.data.length
          payload := slot.data } := by
  unfold RxAssembly.init at h
  split at h
  next => contradiction
  next hstart =>
    split at h
    next => contradiction
    next hoffset =>
      split at h
      next => contradiction
      next hlength =>
        cases h
        exact ⟨hstart, not_not.mp hoffset, not_lt.mp hlength, rfl⟩

theorem RxAssembly.init_of_fits {slot : Slot} (hstart : HasStart slot)
    (hoffset : slot.offset = 0) (hlength : slot.data.length ≤ slot.totalLen) :
    ∃ assembly, RxAssembly.init slot = .ok assembly := by
  rw [RxAssembly.init, if_neg hstart, if_neg (not_not.mpr hoffset),
    if_neg (not_lt.mpr hlength)]
  exact ⟨_, rfl⟩

/-- The data of a continuation slot; none of a slot at offset 0. -/
def RxAssembly.taken (slot : Slot) : List UInt8 :=
  if slot.offset ≠ 0 then slot.data else []

theorem RxAssembly.push_eq_ok {assembly next : RxAssembly} {slot : Slot}
    {done : Option (List UInt8)} (h : assembly.push slot = .ok (next, done)) :
    slot.kind = assembly.kind ∧ slot.transferId = assembly.transferId ∧
      slot.offset = assembly.nextOffset ∧
      assembly.payload.length + slot.data.length ≤ assembly.totalLen ∧
      next =
        { assembly with
          payload := assembly.payload ++ taken slot
          nextOffset := assembly.nextOffset + (taken slot).length } ∧
      ((¬HasEnd slot ∧ done = none) ∨
        HasEnd slot ∧ next.payload.length = assembly.totalLen ∧
          done = some next.payload) := by
  unfold RxAssembly.push at h
  split at h
  next => contradiction
  next hkind =>
    split at h
    next => contradiction
    next hid =>
      split at h
      next => contradiction
      next hoffset =>
        split at h
        next => contradiction
        next htotal =>
          rw [not_not] at hkind hid hoffset
          have hnext : (if slot.offset ≠ 0 then
              { assembly with
                payload := assembly.payload ++ slot.data
                nextOffset := assembly.nextOffset + slot.data.length }
              else assembly) =
              { assembly with
                payload := assembly.payload ++ taken slot
                nextOffset := assembly.nextOffset + (taken slot).length } := by
            rw [taken]
            split
            · rfl
            · simp
          simp only [hnext] at h
          split at h
          next hend =>
            split at h
            next => contradiction
            next hlength =>
              cases h
              exact ⟨hkind, hid, hoffset, not_lt.mp htotal, rfl,
                .inr ⟨hend, not_not.mp hlength, rfl⟩⟩
          next hmore =>
            cases h
            exact ⟨hkind, hid, hoffset, not_lt.mp htotal, rfl, .inl ⟨hmore, rfl⟩⟩

theorem turn_eq_again {deadline : ℕ} {assembly next : Option RxAssembly} {poll : Poll}
    (h : turn deadline assembly poll = .again next) :
    (decodeSlot poll.raw = .ok none ∧ next = assembly) ∨
      ∃ slot, Reads deadline poll slot ∧ ¬HasEnd slot ∧
        ((∃ started, RxAssembly.init slot = .ok started ∧ next = some started) ∨
          ¬HasStart slot ∧ ∃ old pushed, assembly = some old ∧
            old.push slot = .ok (pushed, none) ∧ next = some pushed) := by
  unfold turn at h
  split at h
  next htime =>
    split at h
    next => contradiction
    next hidle =>
      cases h
      exact .inl ⟨hidle, rfl⟩
    next slot hraw =>
      refine .inr ⟨slot, ⟨htime, hraw⟩, ?_⟩
      split at h
      next hstart =>
        split at h
        next => contradiction
        next started hinit =>
          split at h
          next => contradiction
          next hmore =>
            cases h
            exact ⟨hmore, .inl ⟨started, hinit, rfl⟩⟩
      next hstart =>
        split at h
        next => contradiction
        next old =>
          split at h
          next => contradiction
          next => contradiction
          next pushed hpush =>
            cases h
            obtain ⟨-, -, -, -, -, hdone⟩ := RxAssembly.push_eq_ok hpush
            rcases hdone with hmore | hlast
            · exact ⟨hmore.1, .inr ⟨hstart, old, pushed, rfl, hpush, rfl⟩⟩
            · exact nomatch hlast.2.2
  next => contradiction

/-- A turn that ends the call fails, or returns the packet of a slot with END. -/
theorem turn_eq_done {deadline : ℕ} {assembly : Option RxAssembly} {poll : Poll}
    {result : List Poll → PacketResult} (h : turn deadline assembly poll = .done result) :
    (∀ polls, (∃ e, result polls = .raised e) ∨ result polls = .timedOut) ∨
      ∃ slot payload, result = .packet slot.kind payload ∧ Reads deadline poll slot ∧
        HasEnd slot ∧
        ((slot.data = payload ∧ ∃ started, RxAssembly.init slot = .ok started) ∨
          ¬HasStart slot ∧ ∃ old pushed, assembly = some old ∧
            old.push slot = .ok (pushed, some payload)) := by
  unfold turn at h
  split at h
  next htime =>
    split at h
    next e _ =>
      cases h
      exact .inl fun _ => .inl ⟨e, rfl⟩
    next => contradiction
    next slot hraw =>
      split at h
      next hstart =>
        split at h
        next e _ =>
          cases h
          exact .inl fun _ => .inl ⟨e, rfl⟩
        next started hinit =>
          split at h
          next hend =>
            cases h
            exact .inr ⟨slot, slot.data, rfl, ⟨htime, hraw⟩, hend, .inl ⟨rfl, started, hinit⟩⟩
          next => contradiction
      next hstart =>
        split at h
        next =>
          cases h
          exact .inl fun _ => .inl ⟨.noActiveTransfer, rfl⟩
        next old =>
          split at h
          next e _ =>
            cases h
            exact .inl fun _ => .inl ⟨e, rfl⟩
          next pushed payload hpush =>
            cases h
            obtain ⟨-, -, -, -, -, hdone⟩ := RxAssembly.push_eq_ok hpush
            rcases hdone with hmore | hlast
            · exact nomatch hmore.2
            · exact .inr ⟨slot, payload, rfl, ⟨htime, hraw⟩, hlast.1,
                .inr ⟨hstart, old, pushed, rfl, hpush⟩⟩
          next => contradiction
  next =>
    cases h
    exact .inl fun _ => .inr rfl

theorem turn_done_ne_reading {deadline : ℕ} {assembly : Option RxAssembly} {poll : Poll}
    {result : List Poll → PacketResult} (h : turn deadline assembly poll = .done result)
    (polls : List Poll) : result polls ≠ .reading := by
  intro hreading
  obtain hfails | ⟨slot, payload, rfl, -⟩ := turn_eq_done h
  · rcases hfails polls with ⟨e, hraised⟩ | htimedOut
    · exact nomatch hreading.symm.trans hraised
    · exact nomatch hreading.symm.trans htimedOut
  · exact nomatch hreading

/-! ## Bursts -/

/-- The slots of some polls without the idle ones. -/
def slotsRead : List Poll → Except ValueError (List Slot)
  | [] => .ok []
  | poll :: polls => do
      let slot ← decodeSlot poll.raw
      let slots ← slotsRead polls
      return slot.toList ++ slots

/-- The slots cover the bytes from `offset` on without a gap. -/
def Contiguous : ℕ → List Slot → Prop
  | _, [] => True
  | offset, slot :: slots =>
      slot.offset = offset ∧ Contiguous (offset + slot.data.length) slots

theorem contiguous_concat {offset : ℕ} {slots : List Slot} {slot : Slot}
    (hslots : Contiguous offset slots)
    (hslot : slot.offset = offset + (slots.flatMap Slot.data).length) :
    Contiguous offset (slots ++ [slot]) := by
  induction slots generalizing offset with
  | nil => exact ⟨hslot, trivial⟩
  | cons first slots ih =>
      refine ⟨hslots.1, ih hslots.2 ?_⟩
      rw [List.flatMap_cons, List.length_append, ← Nat.add_assoc] at hslot
      exact hslot

/-- A START slot at offset 0 and continuations of the same transfer. -/
structure Burst (slots : List Slot) (kind : UInt8) (transferId totalLen : ℕ)
    (data : List UInt8) : Prop where
  opened : ∃ first rest, slots = first :: rest ∧ HasStart first ∧ first.offset = 0 ∧
    first.totalLen = totalLen ∧ ∀ slot ∈ rest, ¬HasStart slot
  same : ∀ slot ∈ slots, slot.kind = kind ∧ slot.transferId = transferId
  contiguous : Contiguous 0 slots
  data_eq : slots.flatMap Slot.data = data

theorem burst_start {slot : Slot} (hstart : HasStart slot) (hoffset : slot.offset = 0) :
    Burst [slot] slot.kind slot.transferId slot.totalLen slot.data where
  opened := ⟨slot, [], rfl, hstart, hoffset, rfl, by simp⟩
  same := by simp
  contiguous := ⟨hoffset, trivial⟩
  data_eq := by simp

theorem Burst.concat {slots : List Slot} {kind : UInt8} {transferId totalLen : ℕ}
    {data : List UInt8} (h : Burst slots kind transferId totalLen data) {slot : Slot}
    (hstart : ¬HasStart slot) (hkind : slot.kind = kind)
    (hid : slot.transferId = transferId) (hoffset : slot.offset = data.length) :
    Burst (slots ++ [slot]) kind transferId totalLen (data ++ slot.data) where
  opened := by
    obtain ⟨first, rest, rfl, hfirst, hzero, htotal, hrest⟩ := h.opened
    refine ⟨first, rest ++ [slot], rfl, hfirst, hzero, htotal, ?_⟩
    simpa [or_imp, forall_and, hstart] using hrest
  same := by
    intro other hother
    rcases List.mem_append.mp hother with hold | hnew
    · exact h.same other hold
    · rw [List.mem_singleton.mp hnew]
      exact ⟨hkind, hid⟩
  contiguous := contiguous_concat h.contiguous (by rw [h.data_eq, hoffset, Nat.zero_add])
  data_eq := by
    rw [List.flatMap_append, h.data_eq]
    simp

/-- The slots of a returned packet; only the last one carries END. -/
structure Packet (slots : List Slot) (kind : UInt8) (payload : List UInt8) : Prop where
  burst : ∃ transferId, Burst slots kind transferId payload.length payload
  ended : ∃ front last, slots = front ++ [last] ∧ HasEnd last ∧
    ∀ slot ∈ front, ¬HasEnd slot

/-! ## What an assembly holds -/

/-- An assembly without data whose transfer is not empty takes no data any
more, and it cannot complete. -/
structure Follows (slots : List Slot) (assembly : RxAssembly) : Prop where
  next_eq : assembly.nextOffset = assembly.payload.length
  unended : ∀ slot ∈ slots, ¬HasEnd slot
  burst : assembly.payload ≠ [] ∨ assembly.totalLen = 0 →
    Burst slots assembly.kind assembly.transferId assembly.totalLen assembly.payload

theorem follows_init {slot : Slot} {assembly : RxAssembly} (hend : ¬HasEnd slot)
    (h : RxAssembly.init slot = .ok assembly) : Follows [slot] assembly := by
  obtain ⟨hstart, hoffset, -, rfl⟩ := RxAssembly.init_eq_ok h
  constructor
  · rfl
  · simpa using hend
  · exact fun _ => burst_start hstart hoffset

/-- The burst of an assembly takes the slot, when it is one. -/
theorem Follows.burst_push {slots : List Slot} {assembly next : RxAssembly} {slot : Slot}
    {done : Option (List UInt8)} (h : Follows slots assembly) (hstart : ¬HasStart slot)
    (hpush : assembly.push slot = .ok (next, done)) :
    next.nextOffset = next.payload.length ∧
      (next.payload ≠ [] ∨ next.totalLen = 0 →
        Burst (slots ++ [slot]) next.kind next.transferId next.totalLen next.payload) := by
  obtain ⟨hkind, hid, hoffset, htotal, rfl, -⟩ := RxAssembly.push_eq_ok hpush
  constructor
  · rw [List.length_append, h.next_eq]
  · intro hholds
    dsimp only at hholds ⊢
    by_cases hzero : slot.offset = 0
    · have hempty : assembly.payload = [] := by
        rw [← List.length_eq_zero_iff, ← h.next_eq, ← hoffset, hzero]
      have htaken : RxAssembly.taken slot = [] := by
        rw [RxAssembly.taken, if_neg (not_not.mpr hzero)]
      have hnothing : assembly.totalLen = 0 := by
        rw [hempty, htaken] at hholds
        exact hholds.resolve_left (by simp)
      have hdata : slot.data = [] := by
        rw [← List.length_eq_zero_iff]
        omega
      have hburst := (h.burst (.inr hnothing)).concat hstart hkind hid
        (hoffset.trans h.next_eq)
      rwa [hdata, ← htaken] at hburst
    · have hfull : assembly.payload ≠ [] := by
        rw [ne_eq, ← List.length_eq_zero_iff, ← h.next_eq, ← hoffset]
        exact hzero
      have hburst := (h.burst (.inl hfull)).concat hstart hkind hid
        (hoffset.trans h.next_eq)
      rwa [RxAssembly.taken, if_pos hzero]

theorem Follows.push {slots : List Slot} {assembly next : RxAssembly} {slot : Slot}
    {done : Option (List UInt8)} (h : Follows slots assembly) (hstart : ¬HasStart slot)
    (hend : ¬HasEnd slot) (hpush : assembly.push slot = .ok (next, done)) :
    Follows (slots ++ [slot]) next := by
  obtain ⟨hnext, hburst⟩ := h.burst_push hstart hpush
  constructor
  · exact hnext
  · simpa [or_imp, forall_and, hend] using h.unended
  · exact hburst

theorem Follows.packet {slots : List Slot} {assembly next : RxAssembly} {slot : Slot}
    {payload : List UInt8} (h : Follows slots assembly) (hstart : ¬HasStart slot)
    (hpush : assembly.push slot = .ok (next, some payload)) :
    Packet (slots ++ [slot]) slot.kind payload := by
  have hburst := (h.burst_push hstart hpush).2
  obtain ⟨hkind, -, -, -, hnext, hdone⟩ := RxAssembly.push_eq_ok hpush
  obtain hmore | ⟨hend, hlength, hpayload⟩ := hdone
  · exact nomatch hmore.2
  · obtain rfl := Option.some.inj hpayload
    have htotal : next.totalLen = next.payload.length := by rw [hlength, hnext]
    have hholds : next.payload ≠ [] ∨ next.totalLen = 0 := by
      rw [htotal, List.length_eq_zero_iff]
      exact (em _).symm
    constructor
    · refine ⟨next.transferId, ?_⟩
      rw [← htotal, hkind, ← show next.kind = assembly.kind by rw [hnext]]
      exact hburst hholds
    · exact ⟨slots, slot, rfl, hend, h.unended⟩

/-! ## Runs -/

/-- The last slots of the past are the ones the assembly is made of. -/
def Tracks (past : List Slot) (assembly : Option RxAssembly) : Prop :=
  ∀ current, assembly = some current → ∃ slots, slots <:+ past ∧ Follows slots current

theorem Tracks.turn {past : List Slot} {deadline : ℕ} {assembly next : Option RxAssembly}
    {poll : Poll} (h : Tracks past assembly)
    (hturn : turn deadline assembly poll = .again next) :
    ∃ slot, decodeSlot poll.raw = .ok slot ∧ Tracks (past ++ slot.toList) next := by
  rcases turn_eq_again hturn with ⟨hidle, rfl⟩ | ⟨slot, hreads, hend, hnext⟩
  · refine ⟨none, hidle, ?_⟩
    rw [Option.toList_none, List.append_nil]
    exact h
  · refine ⟨some slot, hreads.decoded, ?_⟩
    rcases hnext with ⟨started, hinit, rfl⟩ | ⟨hstart, old, pushed, rfl, hpush, rfl⟩
    · rintro current ⟨⟩
      exact ⟨[slot], List.suffix_append past [slot], follows_init hend hinit⟩
    · rintro current ⟨⟩
      obtain ⟨slots, ⟨front, hfront⟩, hfollows⟩ := h old rfl
      refine ⟨slots ++ [slot], ⟨front, ?_⟩, hfollows.push hstart hend hpush⟩
      rw [Option.toList_some, ← hfront, List.append_assoc]

theorem slotsRead_cons {poll : Poll} {polls : List Poll} {slot : Option Slot}
    {slots : List Slot} (hpoll : decodeSlot poll.raw = .ok slot)
    (hpolls : slotsRead polls = .ok slots) :
    slotsRead (poll :: polls) = .ok (slot.toList ++ slots) := by
  rw [slotsRead, hpoll, hpolls]
  rfl

/-- How a call ends that returns a packet: after polls the reader went on from,
by a slot of its own or by the last slot of a burst. -/
theorem readFrom_eq_packet {past : List Slot} {deadline : ℕ}
    {assembly : Option RxAssembly} {polls rest : List Poll} {kind : UInt8}
    {payload : List UInt8} (htracks : Tracks past assembly)
    (h : readFrom deadline assembly polls = .packet kind payload rest) :
    ∃ before poll slots slot, polls = before ++ poll :: rest ∧
      readFrom deadline assembly before = .reading ∧ slotsRead before = .ok slots ∧
      Reads deadline poll slot ∧ slot.kind = kind ∧ HasEnd slot ∧
      ((slot.data = payload ∧ ∃ started, RxAssembly.init slot = .ok started) ∨
        ∃ burst, burst <:+ past ++ slots ∧ Packet (burst ++ [slot]) kind payload) := by
  induction polls generalizing assembly past with
  | nil => contradiction
  | cons poll polls ih =>
      rw [readFrom_cons] at h
      cases hturn : turn deadline assembly poll with
      | again next =>
          rw [hturn] at h
          obtain ⟨first, hfirst, hnext⟩ := htracks.turn hturn
          obtain ⟨before, last, slots, slot, rfl, hbefore, hslots, hlast⟩ := ih hnext h
          refine ⟨poll :: before, last, first.toList ++ slots, slot, rfl, ?_,
            slotsRead_cons hfirst hslots, ?_⟩
          · rw [readFrom_cons, hturn]
            exact hbefore
          · rw [← List.append_assoc]
            exact hlast
      | done result =>
          rw [hturn] at h
          dsimp only at h
          obtain hfails | ⟨slot, data, rfl, hreads, hend, hlast⟩ := turn_eq_done hturn
          · rcases hfails polls with ⟨e, hraised⟩ | htimedOut
            · exact nomatch h.symm.trans hraised
            · exact nomatch h.symm.trans htimedOut
          · cases h
            refine ⟨[], poll, [], slot, rfl, rfl, rfl, hreads, rfl, hend, ?_⟩
            rcases hlast with hstart | ⟨hstart, old, pushed, rfl, hpush⟩
            · exact .inl hstart
            · obtain ⟨slots, hsuffix, hfollows⟩ := htracks old rfl
              refine .inr ⟨slots, ?_, hfollows.packet hstart hpush⟩
              rwa [List.append_nil]

/-- A reader that still waits returns the data of a slot with START and END. -/
theorem readFrom_startEnd {deadline : ℕ} {assembly : Option RxAssembly}
    {before after : List Poll} {poll : Poll} {slot : Slot} {started : RxAssembly}
    (hbefore : readFrom deadline assembly before = .reading)
    (hreads : Reads deadline poll slot) (hend : HasEnd slot)
    (hinit : RxAssembly.init slot = .ok started) :
    readFrom deadline assembly (before ++ poll :: after) =
      .packet slot.kind slot.data after := by
  induction before generalizing assembly with
  | nil =>
      have hstart : slot.flags &&& flagStart ≠ 0 := (RxAssembly.init_eq_ok hinit).1
      rw [List.nil_append, readFrom, if_pos hreads.in_time, hreads.decoded]
      dsimp only
      rw [if_pos hstart, hinit]
      exact if_pos hend
  | cons first before ih =>
      rw [readFrom_cons] at hbefore
      rw [List.cons_append, readFrom_cons]
      cases hturn : turn deadline assembly first with
      | again next =>
          rw [hturn] at hbefore
          exact ih hbefore
      | done result =>
          rw [hturn] at hbefore
          exact absurd hbefore (turn_done_ne_reading hturn before)

/-! ## When the reader is sound -/

/-- A returned packet is the burst of slots read last. -/
def ReturnsBursts (start timeout : ℕ) (polls : List Poll) : Prop :=
  ∀ kind payload rest, readPacket start timeout polls = .packet kind payload rest →
    ∃ read front burst, polls = read ++ rest ∧ slotsRead read = .ok (front ++ burst) ∧
      Packet burst kind payload

/-- A transfer of a single slot with less data than it declares. -/
structure CutShort (slot : Slot) : Prop where
  hasStart : HasStart slot
  hasEnd : HasEnd slot
  offset_eq : slot.offset = 0
  short : slot.data.length < slot.totalLen

/-- A reader that still waits is not sent such a transfer. -/
def NoneCutShort (start timeout : ℕ) (polls : List Poll) : Prop :=
  ∀ before poll after slot, polls = before ++ poll :: after →
    readPacket start timeout before = .reading → Reads (start + timeout) poll slot →
      ¬CutShort slot

theorem slotsRead_concat {polls : List Poll} {poll : Poll} {slots : List Slot}
    {slot : Slot} (hpolls : slotsRead polls = .ok slots)
    (hpoll : decodeSlot poll.raw = .ok (some slot)) :
    slotsRead (polls ++ [poll]) = .ok (slots ++ [slot]) := by
  induction polls generalizing slots with
  | nil =>
      cases hpolls
      exact slotsRead_cons hpoll rfl
  | cons first polls ih =>
      rw [slotsRead] at hpolls
      cases hfirst : decodeSlot first.raw with
      | error e =>
          rw [hfirst] at hpolls
          contradiction
      | ok read =>
          cases hrest : slotsRead polls with
          | error e =>
              rw [hfirst, hrest] at hpolls
              contradiction
          | ok others =>
              rw [hfirst, hrest] at hpolls
              cases hpolls
              rw [List.append_assoc]
              exact slotsRead_cons hfirst (ih hrest)

theorem returnsBursts_of_noneCutShort {start timeout : ℕ} {polls : List Poll}
    (h : NoneCutShort start timeout polls) : ReturnsBursts start timeout polls := by
  intro kind payload rest hpacket
  have htracks : Tracks [] none := fun _ hnone => nomatch hnone
  obtain ⟨before, poll, slots, slot, rfl, hbefore, hslots, hreads, rfl, hend, hlast⟩ :=
    readFrom_eq_packet htracks hpacket
  have hread := slotsRead_concat hslots hreads.decoded
  have hpolls : before ++ poll :: rest = (before ++ [poll]) ++ rest := by
    rw [List.append_assoc, List.singleton_append]
  rcases hlast with ⟨rfl, started, hinit⟩ | ⟨burst, ⟨front, hfront⟩, hburst⟩
  · obtain ⟨hstart, hoffset, hlength, -⟩ := RxAssembly.init_eq_ok hinit
    have hnot := h before poll rest slot rfl hbefore hreads
    have htotal : slot.totalLen = slot.data.length := by
      by_contra hne
      exact hnot ⟨hstart, hend, hoffset, by omega⟩
    refine ⟨before ++ [poll], slots, [slot], hpolls, hread, ?_, ?_⟩
    · refine ⟨slot.transferId, ?_⟩
      rw [← htotal]
      exact burst_start hstart hoffset
    · exact ⟨[], slot, rfl, hend, by simp⟩
  · refine ⟨before ++ [poll], front, burst ++ [slot], hpolls, ?_, hburst⟩
    rw [hread, ← List.append_assoc, hfront, List.nil_append]

/-- A packet whose last slot carries START has no other slot. -/
theorem Packet.totalLen_eq {front : List Slot} {last : Slot} {kind : UInt8}
    {payload : List UInt8} (h : Packet (front ++ [last]) kind payload)
    (hstart : HasStart last) : last.totalLen = payload.length := by
  obtain ⟨transferId, hburst⟩ := h.burst
  obtain ⟨first, rest, hslots, -, -, htotal, hrest⟩ := hburst.opened
  cases front with
  | nil =>
      cases hslots
      exact htotal
  | cons other front =>
      have hmem : last ∈ rest := by
        rw [← (List.cons.inj hslots).2]
        simp
      exact absurd hstart (hrest last hmem)

theorem noneCutShort_of_returnsBursts {start timeout : ℕ} {polls : List Poll}
    (h : ReturnsBursts start timeout polls) : NoneCutShort start timeout polls := by
  rintro before poll after slot rfl hbefore hreads hshort
  obtain ⟨started, hinit⟩ :=
    RxAssembly.init_of_fits hshort.hasStart hshort.offset_eq hshort.short.le
  have hpacket := @readFrom_startEnd _ _ before after poll slot started hbefore hreads
    hshort.hasEnd hinit
  obtain ⟨read, front, burst, hpolls, hread, hburst⟩ := h slot.kind slot.data after hpacket
  have htracks : Tracks [] none := fun _ hnone => nomatch hnone
  obtain ⟨past, last, slots, -, hpast, -, hslots, -⟩ := readFrom_eq_packet htracks hpacket
  -- The polls before the last one are known from the rest, and so are their slots.
  obtain ⟨rfl, hlast⟩ := List.append_inj' hpast rfl
  obtain rfl : read = before ++ [poll] := by
    have hcut : (before ++ [poll]) ++ after = read ++ after := by
      rw [← hpolls, List.append_assoc, List.singleton_append]
    exact (List.append_cancel_right hcut).symm
  have hall := slotsRead_concat hslots hreads.decoded
  rw [hread] at hall
  obtain ⟨others, final, rfl, -, -⟩ := hburst.ended
  have hend : (front ++ others) ++ [final] = slots ++ [slot] := by
    rw [List.append_assoc]
    exact Except.ok.inj hall
  obtain rfl : final = slot := List.singleton_inj.mp (List.append_inj' hend rfl).2
  have htotal := hburst.totalLen_eq hshort.hasStart
  have hshorter := hshort.short
  omega

/-- The reader is sound exactly when no transfer of a single slot has less
data than it declares; longer transfers are compared with their total. -/
theorem returnsBursts_iff (start timeout : ℕ) (polls : List Poll) :
    ReturnsBursts start timeout polls ↔ NoneCutShort start timeout polls :=
  ⟨noneCutShort_of_returnsBursts, returnsBursts_of_noneCutShort⟩

/-- Three bytes of ten declared. -/
def shortSlot : List UInt8 :=
  encodeSlot kindData (flagStart ||| flagEnd) 7 0 10 [1, 2, 3]

theorem shortSlot_returned :
    readPacket 0 1 [⟨0, shortSlot⟩] = .packet kindData [1, 2, 3] [] ∧
      ¬∀ start timeout polls, ReturnsBursts start timeout polls := by
  have hdecode : decodeSlot shortSlot =
      .ok (some ⟨kindData, flagStart ||| flagEnd, 7, 0, 10, [1, 2, 3]⟩) := by
    decide +kernel
  constructor
  · rw [readPacket, readFrom, if_pos (by decide), hdecode]
    rfl
  · intro hall
    have hnone := noneCutShort_of_returnsBursts (hall 0 1 [⟨0, shortSlot⟩])
    apply hnone [] ⟨0, shortSlot⟩ [] _ rfl rfl ⟨by decide, hdecode⟩
    exact ⟨by decide, by decide, rfl, by decide⟩

end Python
end I2cHost
end PicoFi
