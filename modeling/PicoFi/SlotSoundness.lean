import PicoFi.I2cSlots
import PicoFi.StepRuns

/-!
# What a reassembled packet is made of

Slots come from the bus with any fields.  Over any calls, a packet that the
reassembly reports is the data of the calls since the last START, which carry
one kind and one id, have contiguous offsets and follow each other within the
timeout.  An open packet is such a burst that is not complete yet.
-/

namespace PicoFi
namespace I2c

open Buffer Mailbox

/-! ## Bursts -/

/-- A call of `push_slot`: the time and the slot. -/
abbrev SlotCall := ℕ × Slot

/-- The calls since the last START, including it. -/
def sinceStart (calls : List SlotCall) : List SlotCall :=
  calls.foldl (fun burst call => if call.2.isStart then [call] else burst ++ [call]) []

theorem sinceStart_concat (calls : List SlotCall) (call : SlotCall) :
    sinceStart (calls ++ [call]) =
      if call.2.isStart then [call] else sinceStart calls ++ [call] := by
  rw [sinceStart, List.foldl_append]
  rfl

theorem sinceStart_suffix (calls : List SlotCall) : sinceStart calls <:+ calls := by
  induction calls using List.reverseRecOn with
  | nil => exact List.suffix_refl []
  | append_singleton calls call ih =>
      rw [sinceStart_concat]
      split
      · exact List.suffix_append calls [call]
      · obtain ⟨front, hfront⟩ := ih
        exact ⟨front, by rw [← List.append_assoc, hfront]⟩

/-- The slots cover the bytes from `offset` on without a gap. -/
def Contiguous : ℕ → List Slot → Prop
  | _, [] => True
  | offset, slot :: slots =>
      slot.offset = offset ∧ Contiguous (offset + slot.dataLen) slots

def slotBytes (calls : List SlotCall) : List UInt8 :=
  calls.flatMap fun call => call.2.bytes

theorem contiguous_concat {offset : ℕ} {calls : List SlotCall} {call : SlotCall}
    (hcalls : Contiguous offset (calls.map Prod.snd))
    (hcall : call.2.offset = offset + (slotBytes calls).length) :
    Contiguous offset ((calls ++ [call]).map Prod.snd) := by
  induction calls generalizing offset with
  | nil => exact ⟨hcall, trivial⟩
  | cons first calls ih =>
      refine ⟨hcalls.1, ih hcalls.2 ?_⟩
      rw [slotBytes, List.flatMap_cons, List.length_append, Slot.length_bytes,
        ← Nat.add_assoc] at hcall
      exact hcall

/-- The calls carry the data of one packet from its START on. -/
structure Burst (calls : List SlotCall) (kind : UInt8) (id : UInt16) (total : ℕ)
    (data : List UInt8) : Prop where
  opened : ∃ first rest, calls = first :: rest ∧ first.2.isStart = true ∧
    first.2.offset = 0 ∧ first.2.totalLen = total ∧
    ∀ call ∈ rest, call.2.isStart = false
  same : ∀ call ∈ calls, call.2.kind = kind ∧ call.2.transferId = id
  contiguous : Contiguous 0 (calls.map Prod.snd)
  prompt : (calls.map Prod.fst).IsChain fun earlier later =>
    later < earlier + partialPacketTimeout
  data_eq : slotBytes calls = data

theorem burst_start {now : ℕ} {slot : Slot} (hstart : slot.isStart = true)
    (hoffset : slot.offset = 0) :
    Burst [(now, slot)] slot.kind slot.transferId slot.totalLen slot.bytes where
  opened := ⟨(now, slot), [], rfl, hstart, hoffset, rfl, by simp⟩
  same := by simp
  contiguous := ⟨hoffset, trivial⟩
  prompt := by simp
  data_eq := by simp [slotBytes]

theorem Burst.concat {calls : List SlotCall} {kind : UInt8} {id : UInt16} {total : ℕ}
    {data : List UInt8} (h : Burst calls kind id total data) {now : ℕ} {slot : Slot}
    (hstart : slot.isStart = false) (hkind : slot.kind = kind)
    (hid : slot.transferId = id) (hoffset : slot.offset = data.length)
    (hprompt : ∀ last ∈ (calls.map Prod.fst).getLast?, now < last + partialPacketTimeout) :
    Burst (calls ++ [(now, slot)]) kind id total (data ++ slot.bytes) where
  opened := by
    obtain ⟨first, rest, rfl, hfirst, hzero, htotal, hrest⟩ := h.opened
    refine ⟨first, rest ++ [(now, slot)], rfl, hfirst, hzero, htotal, ?_⟩
    simpa [or_imp, forall_and, hstart] using hrest
  same := by
    intro call hcall
    rcases List.mem_append.mp hcall with hold | hnew
    · exact h.same call hold
    · rw [List.mem_singleton.mp hnew]
      exact ⟨hkind, hid⟩
  contiguous := contiguous_concat h.contiguous (by rw [h.data_eq, hoffset, Nat.zero_add])
  prompt := by
    rw [List.map_append, List.isChain_append]
    refine ⟨h.prompt, by simp, ?_⟩
    intro last hlast later hlater
    obtain rfl : now = later := by simpa using hlater
    exact hprompt last hlast
  data_eq := by
    rw [slotBytes, List.flatMap_append, ← slotBytes, h.data_eq]
    simp

/-! ## An open packet -/

namespace RxPacketState

/-- What an open packet holds after some calls. -/
structure Open (calls : List SlotCall) (s : RxPacketState) : Prop where
  burst : Burst (sinceStart calls) s.kind s.transferId s.totalLen
    (s.payload.toList.take s.nextOffset)
  started : s.startedAt = ((sinceStart calls).map Prod.fst).getLast?

def Sound (calls : List SlotCall) (s : RxPacketState) : Prop :=
  s.Bounded ∧ (s.active = true → s.Open calls)

theorem sound_new (calls : List SlotCall) : new.Sound calls :=
  ⟨new_bounded, fun hactive => nomatch hactive⟩

/-- A packet that is still open is not stale. -/
theorem Sound.resetIfStale {calls : List SlotCall} {s : RxPacketState} (h : s.Sound calls)
    (now : ℕ) :
    (s.resetIfStale now).Sound calls ∧
      ((s.resetIfStale now).active = true →
        ∀ last ∈ ((sinceStart calls).map Prod.fst).getLast?,
          now < last + partialPacketTimeout) := by
  unfold RxPacketState.resetIfStale
  split
  next hactive =>
    obtain ⟨hburst, hstarted⟩ := h.2 hactive
    cases hlast : s.startedAt with
    | none =>
        refine ⟨h, fun _ last hmem => ?_⟩
        rw [← hstarted, hlast] at hmem
        contradiction
    | some started =>
        dsimp only
        split
        next => exact ⟨sound_new calls, fun hactive => nomatch hactive⟩
        next hfresh =>
          refine ⟨h, fun _ last hmem => ?_⟩
          rw [← hstarted, hlast, Option.mem_some] at hmem
          omega
  next hinactive => exact ⟨h, fun hactive => absurd hactive hinactive⟩

theorem bytes_eq_nil {slot : Slot} (hdata : ¬slot.dataLen ≠ 0) : slot.bytes = [] := by
  apply List.eq_nil_of_length_eq_zero
  rw [slot.length_bytes]
  exact not_not.mp hdata

theorem startPacket_burst {calls : List SlotCall} {s t : RxPacketState} {now : ℕ}
    {slot : Slot} {reply : Except (List UInt8) Unit} (hstart : slot.isStart = true)
    (h : s.startPacket now slot = some (t, reply)) (hactive : t.active = true) :
    t.Open (calls ++ [(now, slot)]) := by
  have hsince : sinceStart (calls ++ [(now, slot)]) = [(now, slot)] := by
    rw [sinceStart_concat, if_pos hstart]
  unfold startPacket at h
  simp only at h
  split at h
  next =>
    cases h
    contradiction
  next hgood =>
    have hoffset : slot.offset = 0 := by
      by_contra hne
      exact hgood (.inl hne)
    have hburst := @burst_start now slot hstart hoffset
    split at h
    next hdata =>
      obtain ⟨payload, hwrite, h⟩ := Option.map_eq_some_iff.mp h
      cases h
      have htake := FixedBytes.take_of_write? hwrite
      rw [slot.length_bytes, List.take_zero, List.nil_append, Nat.zero_add] at htake
      rw [← hsince, ← htake] at hburst
      exact ⟨hburst, by rw [hsince]; rfl⟩
    next hdata =>
      cases h
      rw [bytes_eq_nil hdata, ← hsince] at hburst
      rw [not_not] at hdata
      refine ⟨?_, by rw [hsince]; rfl⟩
      dsimp only
      rw [hdata, List.take_zero]
      exact hburst

theorem continuePacket_burst {calls : List SlotCall} {s t : RxPacketState}
    (hs : s.Sound calls) {now : ℕ} {slot : Slot}
    (hprompt : s.active = true → ∀ last ∈ ((sinceStart calls).map Prod.fst).getLast?,
      now < last + partialPacketTimeout)
    {reply : Except (List UInt8) Unit} (hstart : slot.isStart = false)
    (h : s.continuePacket now slot = some (t, reply)) (hactive : t.active = true) :
    t.Open (calls ++ [(now, slot)]) := by
  have hsince : sinceStart (calls ++ [(now, slot)]) = sinceStart calls ++ [(now, slot)] := by
    rw [sinceStart_concat, if_neg (by simp [hstart])]
  unfold continuePacket at h
  split at h
  next hinactive =>
    cases h
    contradiction
  next hwas =>
    rw [not_not] at hwas
    split at h
    next =>
      cases h
      contradiction
    next hgood =>
      simp only [not_or, not_not, not_lt] at hgood
      obtain ⟨hkind, hid, hoffset, htotal⟩ := hgood
      obtain ⟨hopen, hstarted⟩ := hs.2 hwas
      obtain ⟨hnext, hfits⟩ := hs.1 hwas
      have hlength : (s.payload.toList.take s.nextOffset).length = s.nextOffset := by
        rw [List.length_take, s.payload.length_toList]
        omega
      have hburst := hopen.concat hstart hkind hid (hoffset.trans hlength.symm)
        (hprompt hwas)
      have hlast : ((sinceStart (calls ++ [(now, slot)])).map Prod.fst).getLast? =
          some now := by
        rw [hsince, List.map_append]
        simp
      rw [← hsince] at hburst
      split at h
      next hdata =>
        obtain ⟨payload, hwrite, h⟩ := Option.map_eq_some_iff.mp h
        cases h
        have htake := FixedBytes.take_of_write? hwrite
        rw [slot.length_bytes] at htake
        rw [← htake] at hburst
        exact ⟨hburst, hlast.symm⟩
      next hdata =>
        cases h
        rw [bytes_eq_nil hdata, List.append_nil] at hburst
        exact ⟨hburst, hlast.symm⟩

/-- A reported packet is the open one, and the end of a packet leaves its
bytes in the buffer. -/
theorem endPacket_burst {calls : List SlotCall} {s : RxPacketState}
    (hs : s.active = true → s.Open calls) (slot : Slot) :
    ((s.endPacket slot).1.active = true → (s.endPacket slot).1.Open calls) ∧
      ∀ kind id n, (s.endPacket slot).2 = .ok (some (kind, id, n)) →
        Burst (sinceStart calls) kind id n ((s.endPacket slot).1.payload.toList.take n) := by
  unfold endPacket
  split
  next =>
    split
    next =>
      exact ⟨fun hactive => (nomatch hactive), fun _ _ _ hreply => nomatch hreply⟩
    next hdone =>
      simp only [not_or, not_not] at hdone
      refine ⟨fun hactive => (nomatch hactive), ?_⟩
      intro kind id n hreply
      cases hreply
      have hburst := (hs hdone.1).burst
      rw [hdone.2] at hburst
      exact hburst
  next => exact ⟨hs, fun _ _ _ hreply => nomatch hreply⟩

/-- One call: the state stays sound, and a packet it reports is a burst. -/
theorem pushSlot_sound {calls : List SlotCall} {s : RxPacketState} (hs : s.Sound calls)
    (now : ℕ) (slot : Slot) :
    ∃ t reply, s.pushSlot now slot = some (t, reply) ∧ t.Sound (calls ++ [(now, slot)]) ∧
      ∀ kind id n, reply = .ok (some (kind, id, n)) →
        n ≤ i2cPacketMax ∧
          Burst (sinceStart (calls ++ [(now, slot)])) kind id n (t.payload.toList.take n) := by
  obtain ⟨t, reply, hpush, hbounded, hmax⟩ := hs.1.pushSlot now slot
  obtain ⟨hfresh, hprompt⟩ := hs.resetIfStale now
  refine ⟨t, reply, hpush, ?_⟩
  unfold pushSlot at hpush
  simp only at hpush
  split at hpush
  next =>
    cases hpush
    exact ⟨sound_new _, fun _ _ _ hreply => nomatch hreply⟩
  next =>
    have htaken : ∀ {u : RxPacketState} {answer : Except (List UInt8) Unit},
        (if slot.isStart = true then (s.resetIfStale now).startPacket now slot
          else (s.resetIfStale now).continuePacket now slot) = some (u, answer) →
        u.active = true → u.Open (calls ++ [(now, slot)]) := by
      intro u answer h hactive
      cases hstart : slot.isStart with
      | true =>
          rw [hstart] at h
          exact startPacket_burst hstart h hactive
      | false =>
          rw [hstart] at h
          exact continuePacket_burst hfresh hprompt hstart h hactive
    split at hpush
    next => contradiction
    next u msg heq =>
      cases hpush
      exact ⟨⟨hbounded, htaken heq⟩, fun _ _ _ hreply => nomatch hreply⟩
    next u heq =>
      obtain ⟨hopen, hburst⟩ := endPacket_burst (htaken heq) slot
      rw [Option.some.inj hpush] at hopen hburst
      exact ⟨⟨hbounded, hopen⟩, fun kind id n hreply =>
        ⟨hmax kind id n hreply, hburst kind id n hreply⟩⟩

/-! ## Runs -/

def pushStep (s : RxPacketState) (call : SlotCall) : Option RxPacketState :=
  (s.pushSlot call.1 call.2).map Prod.fst

theorem sound_run (calls : List SlotCall) :
    ∃ s, Runs.Reaches pushStep new calls s ∧ s.Sound calls := by
  induction calls using List.reverseRecOn with
  | nil => exact ⟨new, Runs.reaches_nil.mpr rfl, sound_new []⟩
  | append_singleton calls call ih =>
      obtain ⟨s, hreach, hsound⟩ := ih
      obtain ⟨t, reply, hpush, ht, -⟩ := pushSlot_sound hsound call.1 call.2
      refine ⟨t, Runs.reaches_append.mpr ⟨s, hreach, ?_⟩, ht⟩
      rw [Runs.reaches_cons]
      exact ⟨t, by rw [pushStep, hpush]; rfl, Runs.reaches_nil.mpr rfl⟩

/-- After any calls the state is within bounds, and a packet reported by the
next call consists of the calls since the last START. -/
theorem reassembly_sound (calls : List SlotCall) :
    ∃ s, Runs.Reaches pushStep new calls s ∧
      (s.active = true → s.nextOffset ≤ s.totalLen ∧ s.totalLen ≤ 4096) ∧
      ∀ now slot, ∃ t reply, s.pushSlot now slot = some (t, reply) ∧
        ∀ kind id n, reply = .ok (some (kind, id, n)) →
          let burst := sinceStart (calls ++ [(now, slot)])
          burst <:+ calls ++ [(now, slot)] ∧
            Burst burst kind id n (t.payload.toList.take n) ∧
            (slotBytes burst).length = n := by
  obtain ⟨s, hreach, hsound⟩ := sound_run calls
  refine ⟨s, hreach, hsound.1, ?_⟩
  intro now slot
  obtain ⟨t, reply, hpush, -, hpacket⟩ := pushSlot_sound hsound now slot
  refine ⟨t, reply, hpush, ?_⟩
  intro kind id n hreply burst
  obtain ⟨hmax, hburst⟩ := hpacket kind id n hreply
  refine ⟨sinceStart_suffix _, hburst, ?_⟩
  rw [hburst.data_eq, List.length_take, t.payload.length_toList]
  exact Nat.min_eq_left hmax

end RxPacketState

end I2c
end PicoFi
