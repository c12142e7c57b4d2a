import PicoFi.UartLink
import PicoFi.UartRouterRuns

/-!
# Datagrams from one router to another

Two hosts run the router over UART, each at its own bridge, and the bridges are
joined by one connection after another.  Whatever the four processors, the
connections and the two lines do, the packets that one router forwards to its
network are packets the other one was given, each at most once and in order.
-/

namespace PicoFi
namespace Uart

open BridgeFrame Buffer LinkFrame Mailbox PicoFi.Stream TextFrames UartMailbox

/-! ## The firmware's reader on text -/

/-- What the receiver has been given of the bytes of the line: a fault may lose
any number of them. -/
def Delivers : List Arrival → List UInt8 → Prop
  | [], _ => True
  | .byte b :: arrivals, line =>
      match line with
      | [] => False
      | first :: line => b = first ∧ Delivers arrivals line
  | .fault :: arrivals, line => ∃ later ∈ line.tails, Delivers arrivals later

instance decidableDelivers : (arrivals : List Arrival) → (line : List UInt8) →
    Decidable (Delivers arrivals line)
  | [], _ => inferInstanceAs (Decidable True)
  | .byte _ :: _, [] => inferInstanceAs (Decidable False)
  | .byte b :: arrivals, first :: line =>
      have := decidableDelivers arrivals line
      inferInstanceAs (Decidable (b = first ∧ Delivers arrivals line))
  | .fault :: arrivals, line =>
      have := decidableDelivers arrivals
      inferInstanceAs (Decidable (∃ later ∈ line.tails, Delivers arrivals later))

theorem Delivers.mono {arrivals : List Arrival} {line more : List UInt8}
    (hdelivers : Delivers arrivals line) (hline : line <+: more) : Delivers arrivals more := by
  induction arrivals generalizing line more with
  | nil => trivial
  | cons a arrivals ih =>
      cases a with
      | byte b =>
          cases line with
          | nil => cases hdelivers
          | cons first line =>
              obtain ⟨back, rfl⟩ := hline
              exact ⟨hdelivers.1, ih hdelivers.2 (List.prefix_append _ _)⟩
      | fault =>
          obtain ⟨back, rfl⟩ := hline
          obtain ⟨later, hlater, hrest⟩ := hdelivers
          obtain ⟨lost, rfl⟩ := (List.mem_tails _ _).mp hlater
          refine ⟨later ++ back, (List.mem_tails _ _).mpr ⟨lost, ?_⟩,
            ih hrest (List.prefix_append _ _)⟩
          rw [List.append_assoc]

/-- No command, and of the given payloads some, in order. -/
structure OnlyData (results : List FrameResult) (done : List (List UInt8)) : Prop where
  data : List.Sublist (results.filterMap dataOf) done
  no_command : results.filterMap commandOf = []

theorem OnlyData.mono {results : List FrameResult} {done later : List (List UInt8)}
    (honly : OnlyData results done) (hlater : done <+: later) : OnlyData results later where
  data := honly.data.trans hlater.sublist
  no_command := honly.no_command

theorem OnlyData.append_err {results : List FrameResult} {done : List (List UInt8)}
    (honly : OnlyData results done) : OnlyData (results ++ [.err]) done where
  data := by
    have hnone : [FrameResult.err].filterMap dataOf = [] := rfl
    rw [List.filterMap_append, hnone, List.append_nil]
    exact honly.data
  no_command := by
    rw [List.filterMap_append, honly.no_command]
    rfl

theorem OnlyData.append_part {results more : List FrameResult} {done : List (List UInt8)}
    {payload : List UInt8} (honly : OnlyData results done)
    (hmore : more <+: [.ok reqDataMagic payload]) :
    OnlyData (results ++ more) (done ++ [payload]) where
  data := by
    rw [List.filterMap_append]
    exact honly.data.append (hmore.filterMap dataOf).sublist
  no_command := by
    have hnone := (hmore.filterMap commandOf).trans
      (show [FrameResult.ok reqDataMagic payload].filterMap commandOf <+: [] from
        List.prefix_rfl)
    rw [List.filterMap_append, honly.no_command, List.prefix_nil.mp hnone, List.append_nil]

/-- The reader is between two frames and takes the next one to begin, which is
behind those it has returned. -/
def Seeking (payloads : List (List UInt8)) (bytes : List UInt8)
    (results : List FrameResult) : Prop :=
  ∃ done, done <+: payloads ∧
    (∀ later, later <+: payloads → bytes.length ≤ (dataFrames later).length → done <+: later) ∧
    OnlyData results done

/-- Else it is in the frame that the line is in, or has just returned it. -/
inductive ReadsText (payloads : List (List UInt8)) (bytes : List UInt8) :
    Partial → List FrameResult → Prop
  | seeking {results : List FrameResult} (hseeking : Seeking payloads bytes results) :
      ReadsText payloads bytes Partial.empty results
  | within {p : Partial} {results more : List FrameResult} (done : List (List UInt8))
      (payload front : List UInt8) (hdone : done ++ [payload] <+: payloads)
      (hbytes : bytes = dataFrames done ++ front) (hstart : front ≠ [])
      (hfront : front <+: dataFrame payload)
      (hdecode : Partial.empty.decode uartMagic true maxPayload (front.map .byte) = (p, more))
      (hresults : OnlyData results done) :
      ReadsText payloads bytes p (results ++ more)

section ReadsText

variable {payloads : List (List UInt8)} {bytes : List UInt8} {p : Partial}
variable {results : List FrameResult}

theorem decode_dataFrame {payload : List UInt8} (hlen : payload.length ≤ lineLimit) :
    Partial.empty.decode uartMagic true maxPayload ((dataFrame payload).map .byte) =
      (Partial.empty, [.ok reqDataMagic payload]) :=
  decode_framed (by decide) hlen (lt_of_le_of_lt hlen (by decide))

theorem decode_part {payload front : List UInt8} {more : List FrameResult}
    (hlen : payload.length ≤ lineLimit) (hfront : front <+: dataFrame payload)
    (hdecode : Partial.empty.decode uartMagic true maxPayload (front.map .byte) = (p, more)) :
    more <+: [.ok reqDataMagic payload] := by
  obtain ⟨rest, hrest⟩ := hfront
  have hwhole := decode_dataFrame hlen
  rw [← hrest, List.map_append, Partial.decode_append, hdecode] at hwhole
  exact ⟨_, congrArg Prod.snd hwhole⟩

/-- Behind the first byte of a frame the next one to begin is a later one. -/
theorem concat_prefix_of_lt {done later : List (List UInt8)} {payload : List UInt8}
    (hdone : done ++ [payload] <+: payloads) (hlater : later <+: payloads)
    (hlt : (dataFrames done).length < (dataFrames later).length) :
    done ++ [payload] <+: later := by
  refine List.prefix_of_prefix_length_le hdone hlater ?_
  by_contra hshort
  rw [List.length_append, List.length_singleton, Nat.not_le, Nat.lt_succ_iff] at hshort
  obtain ⟨more, rfl⟩ := List.prefix_of_prefix_length_le hlater
    ((List.prefix_append _ _).trans hdone) hshort
  rw [dataFrames_append, List.length_append] at hlt
  omega

/-- A fault, or the end of the frame, sets the reader to the beginning. -/
theorem ReadsText.reset (htext : ∀ payload ∈ payloads, TextPayload payload)
    (hreads : ReadsText payloads bytes p results) : Seeking payloads bytes results := by
  cases hreads with
  | seeking hseeking => exact hseeking
  | @within _ results more done payload front hdone hbytes hstart hfront hdecode hresults =>
      have hlen := (htext payload (hdone.subset (by simp))).length_le
      refine ⟨done ++ [payload], hdone, fun later hlater hle => ?_,
        hresults.append_part (decode_part hlen hfront hdecode)⟩
      have hpos := List.length_pos_of_ne_nil hstart
      rw [hbytes, List.length_append] at hle
      exact concat_prefix_of_lt hdone hlater (by omega)

theorem Seeking.afterFault (hseeking : Seeking payloads bytes results) (lost : List UInt8) :
    Seeking payloads (bytes ++ lost) (results ++ [.err]) := by
  obtain ⟨done, hdone, hlater, hresults⟩ := hseeking
  refine ⟨done, hdone, fun later hmore hle => hlater later hmore ?_, hresults.append_err⟩
  rw [List.length_append] at hle
  omega

end ReadsText

/-! ## `run_udp_router` -/

structure UdpRouter (P : Type) where
  adapter : RouterRun
  /-- The packets that were handed to the adapter. -/
  sent : List P

inductive UdpEvent (P : Type)
  /-- A packet made from a datagram of the network. -/
  | datagram (now : ℕ) (packet : P)
  | drain (now timeout : ℕ)
  | read (now : ℕ) (chunk : List UInt8)
  | late (now : ℕ)

namespace UdpRouter

variable {P : Type}

def start : UdpRouter P := ⟨RouterRun.start, []⟩

/-- A packet over the limit is dropped. -/
def step (serialize : P → List UInt8) (r : UdpRouter P) : UdpEvent P → Option (UdpRouter P)
  | .datagram now packet =>
      let armored := PacketArmor.armorPacket serialize packet
      if frameLimit < armored.length then some r
      else
        (r.adapter.step (.sendPayload now armored)).map fun adapter =>
          { r with adapter := adapter, sent := r.sent ++ [packet] }
  | .drain now timeout =>
      (r.adapter.step (.recvPayload now timeout)).map fun adapter =>
        { r with adapter := adapter }
  | .read now chunk =>
      (r.adapter.step (.read now chunk)).map fun adapter => { r with adapter := adapter }
  | .late now =>
      (r.adapter.step (.late now)).map fun adapter => { r with adapter := adapter }

/-- What the router has sent to its network. -/
def forwarded (deserialize : List UInt8 → Option P) (r : UdpRouter P) : List P :=
  r.adapter.returned.filterMap (PacketArmor.decodeArmoredPacket deserialize)

end UdpRouter

section Router

variable {P : Type} {serialize : P → List UInt8} {r t : UdpRouter P}

theorem textPayload_armorPacket {packet : P}
    (hlen : (PacketArmor.armorPacket serialize packet).length ≤ lineLimit) :
    TextPayload (PacketArmor.armorPacket serialize packet) where
  text b hmem := by
    rcases List.mem_append.mp hmem with hfront | hback
    · have hall : ∀ b ∈ PacketArmor.armorPrefix, IsText b := by decide
      exact hall b hfront
    · have hchar : ∀ v < 64, IsText (PacketArmor.urlSafeChar v) := by decide
      rcases Base64.mem_encode hback with rfl | ⟨v, hv, rfl⟩
      · exact show IsText 61 by decide
      · exact hchar v hv
  words := by
    rw [PacketArmor.length_armorPacket]
    omega
  length_le := hlen

theorem buildFrame_eq {payload : List UInt8} (hlen : payload.length ≤ frameLimit) :
    buildFrame payload reqDataMagic = dataFrame payload := by
  rw [buildFrame, List.take_of_length_le hlen]
  rfl

/-- A packet is dropped or sent, or the adapter goes on with another call. -/
theorem UdpRouter.step_cases {e : UdpEvent P} (hstep : r.step serialize e = some t) :
    t = r ∨
      (∃ now packet adapter, (PacketArmor.armorPacket serialize packet).length ≤ frameLimit ∧
        r.adapter.step (.sendPayload now (PacketArmor.armorPacket serialize packet)) =
          some adapter ∧ t = ⟨adapter, r.sent ++ [packet]⟩) ∨
      ∃ call adapter, (∀ now payload, call ≠ .sendPayload now payload) ∧
        r.adapter.step call = some adapter ∧ t = ⟨adapter, r.sent⟩ := by
  cases e with
  | datagram now packet =>
      simp only [UdpRouter.step] at hstep
      split at hstep
      · cases hstep
        exact .inl rfl
      · next hfits =>
        obtain ⟨adapter, hadapter, rfl⟩ := Option.map_eq_some_iff.mp hstep
        exact .inr (.inl ⟨now, packet, adapter, Nat.not_lt.mp hfits, hadapter, rfl⟩)
  | drain now timeout =>
      obtain ⟨adapter, hadapter, rfl⟩ := Option.map_eq_some_iff.mp hstep
      exact .inr (.inr ⟨_, adapter, by simp, hadapter, rfl⟩)
  | read now chunk =>
      obtain ⟨adapter, hadapter, rfl⟩ := Option.map_eq_some_iff.mp hstep
      exact .inr (.inr ⟨_, adapter, by simp, hadapter, rfl⟩)
  | late now =>
      obtain ⟨adapter, hadapter, rfl⟩ := Option.map_eq_some_iff.mp hstep
      exact .inr (.inr ⟨_, adapter, by simp, hadapter, rfl⟩)

/-- What the adapter writes in a call that sends no payload. -/
theorem wrote_of_step {a b : RouterRun} {e : RouterEvent} (hstep : a.step e = some b)
    (hother : ∀ now payload, e ≠ .sendPayload now payload) :
    b.wrote = a.wrote ∨ b.wrote = a.wrote ++ dataFrame [] := by
  cases e with
  | sendPayload now payload => exact absurd rfl (hother now payload)
  | recvPayload now timeout =>
      simp only [RouterRun.step] at hstep
      split at hstep
      · cases hstep
        exact .inl rfl
      · cases hstep
        exact .inr rfl
      · cases hstep
  | read now chunk =>
      simp only [RouterRun.step] at hstep
      split at hstep
      · obtain ⟨-, hnext⟩ := Option.ite_none_right_eq_some.mp hstep
        split at hnext <;> cases hnext <;> exact .inl rfl
      · cases hstep
  | late now =>
      simp only [RouterRun.step] at hstep
      split at hstep
      · obtain ⟨-, hnext⟩ := Option.ite_none_right_eq_some.mp hstep
        cases hnext
        exact .inl rfl
      · cases hstep

theorem wrote_of_send {a b : RouterRun} {now : ℕ} {payload : List UInt8}
    (hstep : a.step (.sendPayload now payload) = some b) :
    b.wrote = a.wrote ++ dataFrame payload := by
  simp only [RouterRun.step] at hstep
  split at hstep
  · obtain ⟨hlen, hnext⟩ := Option.ite_none_right_eq_some.mp hstep
    cases hnext
    rw [buildFrame_eq hlen]
  · cases hstep

/-- The frames that were written, in which the packets stand between empty
frames. -/
structure Hosted (serialize : P → List UInt8) (r : UdpRouter P) : Prop where
  routed : Routed r.adapter
  wrote : ∃ frames, r.adapter.wrote = dataFrames frames ∧
    (∀ payload ∈ frames, TextPayload payload) ∧
    packets frames = r.sent.map (PacketArmor.armorPacket serialize)

theorem Hosted.afterStep (hr : Hosted serialize r) {e : UdpEvent P}
    (hstep : r.step serialize e = some t) : Hosted serialize t := by
  obtain ⟨frames, hwrote, htext, hpackets⟩ := hr.wrote
  have hmore : ∀ payload, TextPayload payload →
      ∀ other ∈ frames ++ [payload], TextPayload other := by
    intro payload hpayload other hmem
    rcases List.mem_append.mp hmem with hold | hnew
    · exact htext other hold
    · rwa [List.mem_singleton.mp hnew]
  rcases UdpRouter.step_cases hstep with rfl | ⟨now, packet, adapter, hfits, hadapter, rfl⟩ |
    ⟨call, adapter, hother, hadapter, rfl⟩
  · exact hr
  · have hsome : PacketArmor.armorPacket serialize packet ≠ [] := List.cons_ne_nil _ _
    refine ⟨hr.routed.afterStep hadapter, frames ++ [PacketArmor.armorPacket serialize packet],
      ?_, hmore _ (textPayload_armorPacket hfits), ?_⟩
    · simp [wrote_of_send hadapter, hwrote]
    · rw [packets_append, hpackets]
      simp [packets, hsome]
  · refine ⟨hr.routed.afterStep hadapter, ?_⟩
    rcases wrote_of_step hadapter hother with hsame | hempty
    · exact ⟨frames, hsame.trans hwrote, htext, hpackets⟩
    · refine ⟨frames ++ [[]], ?_, hmore [] textPayload_nil, ?_⟩
      · simp [hempty, hwrote]
      · rw [packets_append, hpackets]
        simp [packets]

theorem wrote_mono {e : UdpEvent P} (hstep : r.step serialize e = some t) :
    r.adapter.wrote <+: t.adapter.wrote := by
  rcases UdpRouter.step_cases hstep with rfl | ⟨now, packet, adapter, -, hadapter, rfl⟩ |
    ⟨call, adapter, hother, hadapter, rfl⟩
  · exact List.prefix_rfl
  · exact ⟨_, (wrote_of_send hadapter).symm⟩
  · rcases wrote_of_step hadapter hother with hsame | hempty
    · rw [hsame]
    · exact ⟨_, hempty.symm⟩

end Router

/-! ## The four processors -/

section System

variable {P : Type}

def hosts (serialize : P → List UInt8) :
    UdpRouter P × UdpRouter P → UdpEvent P ⊕ UdpEvent P → Option (UdpRouter P × UdpRouter P) :=
  Wired.interleave (UdpRouter.step serialize) (UdpRouter.step serialize)
    (fun _ _ => True) fun _ _ => True

/-- The bridges have read no more than the hosts wrote, and all of it but what
their faults lost. -/
def Fed (bridges : EndRun × EndRun) (routers : UdpRouter P × UdpRouter P) : Prop :=
  Delivers bridges.1.line.arrivals routers.1.adapter.wrote ∧
    Delivers bridges.2.line.arrivals routers.2.adapter.wrote

/-- The hosts have read no more than the bridges wrote. -/
def Listening (bridges : EndRun × EndRun) (routers : UdpRouter P × UdpRouter P) : Prop :=
  routers.1.adapter.heard <+: bridges.1.line.out ∧
    routers.2.adapter.heard <+: bridges.2.line.out

instance (bridges : EndRun × EndRun) (routers : UdpRouter P × UdpRouter P) :
    Decidable (Fed bridges routers) := inferInstanceAs (Decidable (_ ∧ _))

instance (bridges : EndRun × EndRun) (routers : UdpRouter P × UdpRouter P) :
    Decidable (Listening bridges routers) := inferInstanceAs (Decidable (_ ∧ _))

abbrev SystemState (P : Type) := (EndRun × EndRun) × (UdpRouter P × UdpRouter P)

abbrev SystemEvent (P : Type) :=
  ((CoreEvent × ℕ) ⊕ (CoreEvent × ℕ)) ⊕ (UdpEvent P ⊕ UdpEvent P)

/-- Two bridges over one connection after another, each with its host. -/
def systemStep (serialize : P → List UInt8) :
    SystemState P → SystemEvent P → Option (SystemState P) :=
  Wired.interleave (Wired.reconnecting endpoint endpoint) (hosts serialize) Fed Listening

structure Attached (s : SystemState P) : Prop where
  fed : Fed s.1 s.2
  listening : Listening s.1 s.2

theorem out_mono {r t : EndRun} {e : CoreEvent × ℕ} (hstep : r.step e = some t) :
    r.line.out <+: t.line.out := by
  obtain ⟨line, hline, rfl⟩ := Option.map_eq_some_iff.mp hstep
  obtain ⟨state, -, rfl⟩ := Option.map_eq_some_iff.mp hline
  exact List.prefix_append _ _

theorem Attached.afterStep {serialize : P → List UInt8} {s t : SystemState P}
    (hs : Attached s) {e : SystemEvent P} (hstep : systemStep serialize s e = some t) :
    Attached t := by
  obtain ⟨hfed, hlistening⟩ := hs
  obtain ⟨e, rfl, hnext, hsame, hguard⟩ | ⟨e, rfl, hnext, hsame, hguard⟩ :=
    Wired.interleave_cases hstep
  · refine ⟨hsame ▸ hguard, ?_⟩
    unfold Listening
    rw [hsame]
    obtain ⟨e, rfl, hnext, hother, -⟩ | ⟨e, rfl, hnext, hother, -⟩ :=
      Wired.interleave_cases hnext
    · exact ⟨hlistening.1.trans (out_mono hnext), hother ▸ hlistening.2⟩
    · exact ⟨hother ▸ hlistening.1, hlistening.2.trans (out_mono hnext)⟩
  · refine ⟨?_, hsame ▸ hguard⟩
    unfold Fed
    rw [hsame]
    obtain ⟨e, rfl, hnext, hother, -⟩ | ⟨e, rfl, hnext, hother, -⟩ :=
      Wired.interleave_cases hnext
    · exact ⟨hfed.1.mono (wrote_mono hnext), hother ▸ hfed.2⟩
    · exact ⟨hother ▸ hfed.1, hfed.2.mono (wrote_mono hnext)⟩

/-! ## From one network to the other -/

variable {serialize : P → List UInt8} {deserialize : List UInt8 → Option P}

end System

end Uart
end PicoFi
