import PicoFi.UartRouter

/-!
# Calls of the UART router that are cut off

A call that is cut off at a multiple of four leaves the next ones at the
beginning of words: they pass over the rest of its frame and are in step again.
A call that is cut off elsewhere leaves them inside words for good.
-/

namespace PicoFi
namespace Uart

open Buffer LinkFrame TextFrames

/-! ## Cuts at a multiple of four -/

/-- Where the next call begins: between two frames, or at a word inside one
whose packet is lost.  At least the given number of packets accounts for those
that have passed. -/
inductive Placed (payloads : List (List UInt8)) (before : List UInt8) (count : ℕ) : Prop
  | between (done : List (List UInt8)) (hdone : done <+: payloads)
      (hbefore : before = dataFrames done) (hcount : (packets done).length ≤ count)
  | within (done : List (List UInt8)) (payload front : List UInt8)
      (hdone : done ++ [payload] <+: payloads) (hbefore : before = dataFrames done ++ front)
      (hstart : front ≠ []) (hshort : front.length < (dataFrame payload).length)
      (hword : front.length % 4 = 0) (hcount : (packets done).length + 1 ≤ count)

section Placed

variable {payloads : List (List UInt8)} {before : List UInt8} {count : ℕ}

theorem Placed.mono {more : ℕ} (hplaced : Placed payloads before count) (hle : count ≤ more) :
    Placed payloads before more := by
  cases hplaced with
  | between done hdone hbefore hcount => exact .between done hdone hbefore (hcount.trans hle)
  | within done payload front hdone hbefore hstart hshort hword hcount =>
      exact .within done payload front hdone hbefore hstart hshort hword (hcount.trans hle)

/-- Behind the frames that have passed there is the next one. -/
theorem exists_next {done : List (List UInt8)} {bytes : List UInt8} (hbytes : bytes ≠ [])
    (hdone : done <+: payloads) (hline : dataFrames done ++ bytes <+: dataFrames payloads) :
    ∃ payload later, payloads = done ++ payload :: later ∧
      bytes <+: dataFrame payload ++ dataFrames later := by
  obtain ⟨rest, rfl⟩ := hdone
  rw [dataFrames_append] at hline
  have hrest := (List.prefix_append_right_inj _).mp hline
  cases rest with
  | nil => exact absurd (List.prefix_nil.mp hrest) hbytes
  | cons payload later => exact ⟨payload, later, rfl, hrest⟩

theorem Whole.ne_nil {frame : List UInt8} (hwhole : Whole frame) : frame ≠ [] := by
  obtain ⟨_, _, _, _, _, rfl, -⟩ := hwhole
  exact List.cons_ne_nil _ _

/-- A header that is read inside a frame, at a word, is over the limit. -/
theorem long_header_within (htext : ∀ payload ∈ payloads, TextPayload payload)
    {done : List (List UInt8)} {payload front bytes : List UInt8} {a b low high : UInt8}
    (hdone : done ++ [payload] <+: payloads) (hstart : front ≠ [])
    (hshort : front.length < (dataFrame payload).length) (hword : front.length % 4 = 0)
    (hline : dataFrames done ++ front ++ a :: b :: low :: high :: bytes <+:
      dataFrames payloads) : lineLimit < u16le low high := by
  have hplain : ∀ other ∈ done ++ [payload], TextPayload other :=
    fun other h => htext other (hdone.subset h)
  have hmod := length_dataFrames_mod fun other h => hplain other (List.mem_append_left _ h)
  obtain ⟨more, hmore⟩ := drop_line hline
  have haligned : (dataFrames done ++ front).length % 4 = 0 := by
    rw [List.length_append]
    omega
  refine (aligned_header (words_dataFrames htext) haligned
    (by simpa using hmore.symm)).resolve_left fun hsync => ?_
  -- the first sync byte would stand inside the frame
  obtain ⟨later, rfl⟩ := hdone
  have hget : (dataFrame payload)[front.length]? = some a := by
    have hfirst := congrArg List.head? hmore
    rw [List.cons_append, List.head?_cons, List.head?_drop, List.append_assoc,
      dataFrames_append, List.length_append, List.getElem?_append_right (Nat.le_add_right _ _),
      Nat.add_sub_cancel_left] at hfirst
    rw [List.singleton_append, dataFrames_cons, List.getElem?_append_left hshort] at hfirst
    exact hfirst.symm
  have hzero := eq_zero_of_starts (hplain payload (by simp)) hget
    (hsync ▸ ⟨_, List.mem_cons_self, rfl⟩)
  exact hstart (List.length_eq_zero_iff.mp hzero)

/-- A whole frame is the next one, or a word of the lost one. -/
theorem Placed.afterWhole (htext : ∀ payload ∈ payloads, TextPayload payload)
    (hplaced : Placed payloads before count) {frame : List UInt8} (hwhole : Whole frame)
    (hline : before ++ frame <+: dataFrames payloads) :
    Placed payloads (before ++ frame) (count + (capture frame).toList.length) := by
  cases hplaced with
  | between done hdone hbefore hcount =>
      subst hbefore
      obtain ⟨payload, later, rfl, hframe⟩ := exists_next hwhole.ne_nil hdone hline
      have hlen := (htext payload (by simp)).length_le
      obtain rfl := hwhole.eq_dataFrame hlen hframe
      refine .between (done ++ [payload]) (by simp) (by simp) ?_
      rw [packets_append, List.length_append, capture_toList hlen]
      omega
  | within done payload front hdone hbefore hstart hshort hword hcount =>
      subst hbefore
      obtain ⟨a, b, low, high, rest, rfl, hlength⟩ := hwhole
      have hlong := long_header_within htext hdone hstart hshort hword hline
      have hrest : rest = [] := by
        rcases hlength with ⟨-, hnil⟩ | ⟨hle, -⟩
        · exact hnil
        · exact absurd hle (Nat.not_le.mpr hlong)
      subst hrest
      have hplain := htext payload (hdone.subset (by simp))
      have hwords := hplain.words
      have hsum : (front ++ [a, b, low, high]).length = front.length + 4 := by simp
      rw [length_dataFrame] at hshort
      obtain ⟨later, rfl⟩ := hdone
      rcases Nat.lt_or_eq_of_le (show front.length + 4 ≤ 4 + payload.length by omega) with
        hlt | heq
      · refine .within done payload (front ++ [a, b, low, high]) (List.prefix_append _ _)
          (List.append_assoc _ _ _) (by simp) ?_ (by omega) (by omega)
        rw [length_dataFrame]
        omega
      · have hend : front ++ [a, b, low, high] = dataFrame payload := by
          rw [List.append_assoc, List.append_assoc, dataFrames_append,
            List.singleton_append, dataFrames_cons] at hline
          have hpart := (List.prefix_append_right_inj _).mp hline
          have hsame : (front ++ [a, b, low, high]).length = (dataFrame payload).length := by
            rw [length_dataFrame]
            omega
          exact (List.prefix_of_prefix_length_le hpart (List.prefix_append _ _)
            hsame.le).eq_of_length hsame
        refine .between (done ++ [payload]) (List.prefix_append _ _) ?_ ?_
        · rw [List.append_assoc, hend]
          simp
        · have hone := length_packets_le payload
          rw [packets_append, List.length_append]
          omega

/-- A call that is cut off at a multiple of four was reading the payload of the
next frame, which is lost. -/
theorem Placed.afterCut (htext : ∀ payload ∈ payloads, TextPayload payload)
    (hplaced : Placed payloads before count) {read : FrameRead} (hopen : read.Open)
    (hbytes : read.bytes ≠ []) (hword : (before ++ read.bytes).length % 4 = 0)
    (hline : before ++ read.bytes <+: dataFrames payloads) :
    Placed payloads (before ++ read.bytes) (count + 1) := by
  have hbegin : before.length % 4 = 0 := by
    cases hplaced with
    | between done hdone hbefore =>
        rw [hbefore]
        exact length_dataFrames_mod fun other h => htext other (hdone.subset h)
    | within done payload front hdone hbefore _ _ hfront =>
        have hmod := length_dataFrames_mod fun other (h : other ∈ done) =>
          htext other (hdone.subset (List.mem_append_left _ h))
        rw [hbefore, List.length_append]
        omega
  rw [List.length_append] at hword
  cases read with
  | header buf =>
      have hpos := List.length_pos_of_ne_nil hbytes
      simp only [FrameRead.Open] at hopen
      simp only [FrameRead.bytes] at hword hpos
      omega
  | payload head length buf =>
      obtain ⟨a, b, low, high, rfl, rfl, hfits, hlt⟩ := hopen
      cases hplaced with
      | between done hdone hbefore hcount =>
          subst hbefore
          obtain ⟨payload, later, rfl, hpart⟩ := exists_next hbytes hdone hline
          have hlen := (htext payload (by simp)).length_le
          have hvalue : u16le (UInt8.ofNat payload.length)
              (UInt8.ofNat (payload.length / 256)) = payload.length :=
            u16le_ofNat (lt_of_le_of_lt hlen (by decide))
          have hheader : low = UInt8.ofNat payload.length ∧
              high = UInt8.ofNat (payload.length / 256) := by
            rw [dataFrame_eq] at hpart
            simp only [FrameRead.bytes, List.cons_append, List.cons_prefix_cons] at hpart
            exact ⟨hpart.2.2.1, hpart.2.2.2.1⟩
          obtain ⟨rfl, rfl⟩ := hheader
          rw [hvalue] at hlt
          refine .within done payload _ (by simp) rfl hbytes ?_ (by omega) (by omega)
          simp only [FrameRead.bytes, length_dataFrame, List.length_append, List.length_cons,
            List.length_nil]
          omega
      | within done payload front hdone hbefore hstart hshort hfront hcount =>
          subst hbefore
          have hlong := long_header_within htext hdone hstart hshort hfront hline
          exact absurd hfits (Nat.not_le.mpr hlong)

end Placed

/-- Of the packets that have passed at least as many are kept as no cut has
lost. -/
def LosesOnePerCut (r : RouterRun) : Prop :=
  (∀ n ∈ r.torn, n % 4 = 0) → ∀ payloads, (∀ payload ∈ payloads, TextPayload payload) →
    r.before <+: dataFrames payloads →
      Placed payloads r.before (r.kept.length + r.torn.length)

theorem LosesOnePerCut.afterStep {r t : RouterRun} (hloses : LosesOnePerCut r)
    (heffect : Effect r t) : LosesOnePerCut t := by
  intro hwords payloads htext hline
  have hplaced := hloses (fun n h => hwords n (heffect.torn_prefix.subset h)) payloads htext
    (heffect.before_prefix.trans hline)
  cases heffect with
  | quiet hbefore hkept htorn =>
      rw [hbefore, hkept, htorn]
      exact hplaced
  | whole frame hwhole hbefore hkept htorn =>
      rw [hbefore] at hline ⊢
      refine (hplaced.afterWhole htext hwhole hline).mono ?_
      rw [hkept, htorn, List.length_append]
      omega
  | cut read hopen hbytes hbefore hkept htorn =>
      have hword := hwords t.before.length (by simp [htorn])
      rw [hbefore] at hline hword ⊢
      refine (hplaced.afterCut htext hopen hbytes hword hline).mono ?_
      rw [hkept, htorn, List.length_append, List.length_singleton]
      omega

structure Routed (r : RouterRun) : Prop where
  opened : Opened r
  keeps : KeepsPackets r
  loses : LosesOnePerCut r

theorem routed_start : Routed RouterRun.start where
  opened := opened_of_idle rfl
  keeps _ _ _ := ⟨[], List.nil_prefix, le_rfl, List.nil_sublist _⟩
  loses _ _ _ _ := .between [] List.nil_prefix rfl le_rfl

theorem Routed.afterStep {r t : RouterRun} {e : RouterEvent} (hr : Routed r)
    (hstep : r.step e = some t) : Routed t := by
  obtain ⟨hopened, heffect⟩ := step_effect hr.opened hstep
  exact ⟨hopened, hr.keeps.afterStep heffect, hr.loses.afterStep heffect⟩

theorem routed_of_reaches {events : List RouterEvent} {r : RouterRun}
    (hreach : Runs.Reaches RouterRun.step RouterRun.start events r) : Routed r :=
  hreach.invariant (fun _ _ _ hr hstep => hr.afterStep hstep) routed_start

/-- On a line of text frames, however the calls are cut off, the adapter gets
nothing but packets of the line, each at most once and in order; and where each
cut is at a multiple of four it misses no more of those that have passed than
there were cuts. -/
theorem router_keeps_packets (events : List RouterEvent) (r : RouterRun)
    (hreach : Runs.Reaches RouterRun.step RouterRun.start events r)
    (payloads : List (List UInt8)) (htext : ∀ payload ∈ payloads, TextPayload payload)
    (hline : r.heard <+: dataFrames payloads) :
    List.Sublist (r.returned ++ r.pending) (packets payloads) ∧
      ((∀ n ∈ r.torn, n % 4 = 0) → ∀ done, done <+: payloads →
        (dataFrames done).length ≤ r.before.length →
          (packets done).length ≤ (r.returned ++ r.pending).length + r.torn.length) := by
  have hbefore : r.before <+: dataFrames payloads := (List.prefix_append _ _).trans hline
  obtain ⟨-, hkeeps, hloses⟩ := routed_of_reaches hreach
  obtain ⟨passed, hpassed, -, hsub⟩ := hkeeps payloads htext hbefore
  refine ⟨hsub.trans (hpassed.filter _).sublist, fun hwords done hdone hle => ?_⟩
  have hcount : ∀ later, later <+: payloads → r.before.length ≤ (dataFrames later).length →
      (packets done).length ≤ (packets later).length := fun later hlater hbehind =>
    ((prefix_of_length_le hdone hlater (hle.trans hbehind)).filter _).length_le
  cases hloses hwords payloads htext hbefore with
  | between later hlater hplace hkept =>
      exact (hcount later hlater (by rw [hplace])).trans hkept
  | within later payload front hlater hplace _ hshort _ hkept =>
      have hbehind := hcount (later ++ [payload]) hlater (by
        rw [hplace, dataFrames_append, List.length_append, List.length_append]
        simp only [dataFrames_cons, dataFrames_nil, List.append_nil]
        omega)
      have hone := length_packets_le payload
      rw [packets_append, List.length_append] at hbehind
      exact hbehind.trans ((Nat.add_le_add_left hone _).trans hkept)

/-- Three bytes that are their own packet, in two frames on the line. -/
def twoFrames : List (List UInt8) :=
  [PacketArmor.armorPacket id [1, 2, 3], PacketArmor.armorPacket id [4, 5, 6]]

theorem textPayload_twoFrames : ∀ payload ∈ twoFrames, TextPayload payload := by
  intro payload hmem
  simp only [twoFrames, List.mem_cons, List.not_mem_nil, or_false] at hmem
  rcases hmem with rfl | rfl <;> exact ⟨by decide, by decide, by decide⟩

/-- The bytes of the line from one place up to another. -/
def onLine (start stop : ℕ) : List UInt8 := slice (dataFrames twoFrames) start stop

/-- The first call is cut off behind its header. -/
def cutAtWord : List RouterEvent :=
  [.recvPayload 0 10, .read 1 (onLine 0 4), .late 10,
    .recvPayload 10 10, .read 11 (onLine 4 8), .recvPayload 11 10, .read 12 (onLine 8 12),
    .recvPayload 12 10, .read 13 (onLine 12 16), .read 14 (onLine 16 24)]

theorem router_keeps_packets_cut :
    ∃ r : RouterRun, r.torn = [4] ∧ r.returned = [PacketArmor.armorPacket id [4, 5, 6]] ∧
      List.Sublist (r.returned ++ r.pending) (packets twoFrames) ∧
      (packets twoFrames).length ≤ (r.returned ++ r.pending).length + r.torn.length := by
  have hreach : (cutAtWord.foldlM RouterRun.step RouterRun.start).any
      (fun r => r.torn == [4] && r.returned == [PacketArmor.armorPacket id [4, 5, 6]] &&
        r.before == dataFrames twoFrames && r.heard == dataFrames twoFrames) = true := by
    decide +kernel
  obtain ⟨r, hr, hstate⟩ := (Option.any_eq_true _ _).mp hreach
  simp only [Bool.and_eq_true, beq_iff_eq] at hstate
  obtain ⟨⟨⟨htorn, hreturned⟩, hbefore⟩, hheard⟩ := hstate
  obtain ⟨hsub, hloses⟩ := router_keeps_packets cutAtWord r hr twoFrames textPayload_twoFrames
    (by rw [hheard])
  refine ⟨r, htorn, hreturned, hsub, hloses (by simp [htorn]) twoFrames List.prefix_rfl ?_⟩
  rw [hbefore]

/-! ## Cuts elsewhere -/

/-- As long as no call is cut off again, the next one begins inside a word. -/
def Deaf (r₀ r : RouterRun) : Prop :=
  r.torn = r₀.torn → ∀ payloads, (∀ payload ∈ payloads, TextPayload payload) →
    r.before <+: dataFrames payloads → r.before.length % 4 ≠ 0 ∧ r.kept = r₀.kept

theorem Deaf.afterStep {r₀ r t : RouterRun} (hbegun : r₀.torn <+: r.torn) (hdeaf : Deaf r₀ r)
    (heffect : Effect r t) : Deaf r₀ t := by
  intro huncut payloads htext hline
  have hsame : r.torn = r₀.torn := by
    have hle := heffect.torn_prefix.length_le
    rw [huncut] at hle
    exact (hbegun.eq_of_length_le hle).symm
  obtain ⟨hinside, hkept⟩ := hdeaf hsame payloads htext (heffect.before_prefix.trans hline)
  cases heffect with
  | quiet hbefore hmore =>
      rw [hbefore, hmore]
      exact ⟨hinside, hkept⟩
  | cut read hopen hbytes hbefore hmore htorn =>
      rw [huncut, hsame] at htorn
      simp at htorn
  | whole frame hwhole hbefore hmore =>
      rw [hbefore] at hline
      have hnone : capture frame = none := by
        rw [Option.eq_none_iff_forall_not_mem]
        intro payload hcapture
        obtain ⟨done, later, rfl, hplace, -⟩ :=
          exists_done_of_capture htext hwhole hline hcapture
        rw [hplace] at hinside
        exact hinside (length_dataFrames_mod fun other h => htext other (by simp [h]))
      rw [hmore, hnone, hbefore, List.length_append, Option.toList_none, List.append_nil]
      refine ⟨?_, hkept⟩
      obtain ⟨a, b, low, high, rest, rfl, hlength⟩ := hwhole
      obtain ⟨more, hdrop⟩ := drop_line hline
      have htorn := torn_header (words_dataFrames htext) hinside
        (by simpa using hdrop.symm)
      have hrest : rest.length % 4 = 0 ∨ r.before.length % 4 = 3 ∧ rest.length % 4 = 2 := by
        rcases hlength with ⟨-, rfl⟩ | ⟨hle, hlen⟩
        · exact .inl rfl
        · exact .inr (hlen ▸ htorn.resolve_left (Nat.not_lt.mpr hle))
      simp only [List.length_cons]
      omega

structure Lost (r₀ r : RouterRun) : Prop where
  opened : Opened r
  begun : r₀.torn <+: r.torn
  deaf : Deaf r₀ r

/-- Once a call was cut off at another place than a multiple of four, the
adapter gets nothing more until a call is cut off again. -/
theorem torn_router_gets_nothing (events more : List RouterEvent) (r t : RouterRun)
    (hreach : Runs.Reaches RouterRun.step RouterRun.start events r)
    (htorn : r.before.length % 4 ≠ 0) (hmore : Runs.Reaches RouterRun.step r more t)
    (huncut : t.torn = r.torn) (payloads : List (List UInt8))
    (htext : ∀ payload ∈ payloads, TextPayload payload) (hline : t.heard <+: dataFrames payloads) :
    t.returned ++ t.pending = r.returned ++ r.pending ∧ t.before.length % 4 ≠ 0 := by
  have hlost : Lost r t := by
    refine hmore.invariant (fun _ _ _ hu hstep => ?_)
      ⟨(routed_of_reaches hreach).opened, List.prefix_rfl, fun _ _ _ _ => ⟨htorn, rfl⟩⟩
    obtain ⟨hopened, heffect⟩ := step_effect hu.opened hstep
    exact ⟨hopened, hu.begun.trans heffect.torn_prefix, hu.deaf.afterStep hu.begun heffect⟩
  obtain ⟨hinside, hkept⟩ := hlost.deaf huncut payloads htext
    ((List.prefix_append _ _).trans hline)
  exact ⟨hkept, hinside⟩

/-- The first call is cut off within its header. -/
def cutInWord : List RouterEvent := [.recvPayload 0 10, .read 1 (onLine 0 2), .late 10]

/-- The calls that read the line up to its end. -/
def restOfLine : List RouterEvent :=
  ((List.range 5).map fun i =>
    [.recvPayload 10 10, .read 11 (onLine (2 + 4 * i) (6 + 4 * i))]).flatten

theorem torn_router_gets_nothing_header :
    ∃ r t : RouterRun, r.torn = [2] ∧ t.heard = onLine 0 22 ∧
      t.returned ++ t.pending = r.returned ++ r.pending ∧ t.before.length % 4 ≠ 0 := by
  have hreach : (cutInWord.foldlM RouterRun.step RouterRun.start).any
      (fun r => r.torn == [2] && r.before.length == 2 &&
        (restOfLine.foldlM RouterRun.step r).any fun t =>
          t.torn == [2] && t.heard == onLine 0 22) = true := by
    decide +kernel
  obtain ⟨r, hr, hstate⟩ := (Option.any_eq_true _ _).mp hreach
  simp only [Bool.and_eq_true, beq_iff_eq] at hstate
  obtain ⟨⟨htorn, hbefore⟩, hmore⟩ := hstate
  obtain ⟨t, ht, hlast⟩ := (Option.any_eq_true _ _).mp hmore
  simp only [Bool.and_eq_true, beq_iff_eq] at hlast
  obtain ⟨huncut, hheard⟩ := hlast
  refine ⟨r, t, htorn, hheard, torn_router_gets_nothing cutInWord restOfLine r t hr
    (by rw [hbefore]; decide) ht (huncut.trans htorn.symm) twoFrames textPayload_twoFrames ?_⟩
  rw [hheard]
  exact List.take_prefix 22 _

end Uart
end PicoFi
