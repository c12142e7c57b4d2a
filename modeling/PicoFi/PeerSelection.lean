import PicoFi.LanDiscovery
import PicoFi.RunningMin

/-!
# Which peer a query finds

The window of a query holds a running minimum of the offers by identity.  Its
first pass after the deadline publishes the address and port of the smallest
one.  Neither the order of the datagrams nor the datagrams that are no offer to
the query make a difference.
-/

namespace PicoFi

open Buffer Discovery

/-! ## The datagrams of a window -/

/-- The datagram an active pass takes in before the deadline. -/
def DiscoveryEvent.datagram (deadline : ℕ) : DiscoveryEvent → Option Datagram
  | .pass p =>
      if p.Active then
        p.received.bind fun r =>
          if r.time ≤ deadline then some ⟨r.bytes, r.ip, r.port⟩ else none
      else none
  | .clearPeer => none

/-- A malformed datagram, one from an unusable address and one that is no
compatible offer to the query are none. -/
def Datagram.offer (query : Message) (d : Datagram) : Option Offer :=
  (Message.decode d.bytes).bind fun message =>
    if DiscoveryTask.unusable d.ip = false ∧ message.compatibleOffer query then
      some ⟨message.identity, d.ip, message.port⟩
    else none

def Datagram.Counts (query : Message) (d : Datagram) : Prop := (d.offer query).isSome

instance (query : Message) (d : Datagram) : Decidable (d.Counts query) :=
  inferInstanceAs (Decidable (_ = _))

theorem DiscoveryEvent.offer_eq (query : Message) (deadline : ℕ) (e : DiscoveryEvent) :
    e.offer query deadline = (e.datagram deadline).bind (Datagram.offer query) := by
  cases e with
  | clearPeer => rfl
  | pass p =>
      rw [DiscoveryEvent.offer, DiscoveryEvent.datagram]
      by_cases hactive : p.Active
      · rw [if_pos hactive, if_pos hactive]
        cases p.received with
        | none => rfl
        | some r =>
            rw [Option.bind_some, Option.bind_some]
            split
            · rfl
            · rfl
      · rw [if_neg hactive, if_neg hactive]
        rfl

/-- What a query's window takes in, in the order of arrival. -/
def datagrams (deadline : ℕ) (events : List DiscoveryEvent) : List Datagram :=
  events.filterMap (DiscoveryEvent.datagram deadline)

theorem filterMap_offer (query : Message) (deadline : ℕ) (events : List DiscoveryEvent) :
    events.filterMap (DiscoveryEvent.offer query deadline) =
      (datagrams deadline events).filterMap (Datagram.offer query) := by
  rw [datagrams, List.filterMap_filterMap]
  congr 1
  funext e
  exact e.offer_eq query deadline

theorem filterMap_counts (query : Message) (list : List Datagram) :
    (list.filter fun d => d.Counts query).filterMap (Datagram.offer query) =
      list.filterMap (Datagram.offer query) := by
  rw [List.filterMap_filter]
  congr 1
  funext d
  cases hoffer : d.offer query with
  | none => simp [Datagram.Counts, hoffer]
  | some offer => simp [Datagram.Counts, hoffer]

namespace DiscoveryTask

/-- The pass that sends a query, and events before the end of its window. -/
structure QueryWindow (s : DiscoveryTask) (asked : ℕ) (events : List DiscoveryEvent) :
    Prop where
  due : s.nextQuery ≤ asked
  opened : ∃ first rest, events = .pass first :: rest ∧ first.Active ∧ first.now = asked ∧
    ∀ e ∈ rest, e.Before (asked + 400)

/-! ## What the window publishes -/

section Client

variable {config : BridgeConfig} {clientPort : UInt16} {query : Message}
  {asked deadline next : ℕ} {s : DiscoveryTask} {events : List DiscoveryEvent}

@[simp] theorem cell_renewBudget (now : ℕ) : (s.renewBudget now).cell = s.cell := by
  unfold DiscoveryTask.renewBudget
  split <;> rfl

/-- An active pass publishes when it settles and not otherwise. -/
theorem cell_pass_active (hmode : config.bridgeMode = .tcpClient Ipv4.zero clientPort)
    {p : DiscoveryPass} (hactive : p.Active) :
    (s.pass config p).1.cell =
      (settle (askWhenDue config (s.renewBudget p.now) p.now).1 p.now).cell := by
  rw [pass_active hmode hactive]
  exact cell_listen _ _

/-- The pass that sends a query publishes nothing. -/
theorem cell_pass_due (hmode : config.bridgeMode = .tcpClient Ipv4.zero clientPort)
    {p : DiscoveryPass} (hactive : p.Active) (hdue : s.nextQuery ≤ p.now) :
    (s.pass config p).1.cell = s.cell := by
  have hasking := @asking_ask (s.renewBudget p.now) config.macAddress p.now
  have hrenewed : (s.renewBudget p.now).nextQuery ≤ p.now := by rwa [nextQuery_renewBudget]
  rw [cell_pass_active hmode hactive, askWhenDue, if_pos hrenewed,
    settle_early hasking (Nat.lt_add_of_pos_right (by decide))]
  exact cell_renewBudget p.now

theorem cell_pass_inactive (hmode : config.bridgeMode = .tcpClient Ipv4.zero clientPort)
    {p : DiscoveryPass} (hinactive : ¬p.Active) :
    (s.pass config p).1.cell = s.cell ∨ (s.pass config p).1.cell = .cleared := by
  cases hup : p.configUp with
  | false => exact .inr (by simp [pass, hup])
  | true =>
      have hconnected : p.connected = true := by
        by_contra hno
        exact hinactive ⟨hup, by simpa using hno⟩
      refine .inl ?_
      simp only [pass, hup, hconnected, Bool.not_true, Bool.and_false, Bool.false_eq_true,
        if_false, listen_connected hmode, cell_renewBudget]

/-- Nothing is published inside the window. -/
theorem cell_step_asking (hmode : config.bridgeMode = .tcpClient Ipv4.zero clientPort)
    (hasking : Asking query deadline next s) (hnext : deadline ≤ next) {e : DiscoveryEvent}
    (hbefore : e.Before deadline) :
    (s.step config e).1.cell = s.cell ∨ (s.step config e).1.cell = .cleared := by
  cases e with
  | clearPeer => exact .inr rfl
  | pass p =>
      by_cases hactive : p.Active
      · have hnow : p.now < deadline := hbefore hactive
        have hrenewed := hasking.renewBudget p.now
        have hquiet : ¬(s.renewBudget p.now).nextQuery ≤ p.now := by
          rw [hrenewed.nextQuery_eq]
          omega
        refine .inl ?_
        rw [step, cell_pass_active hmode hactive, askWhenDue, if_neg hquiet,
          settle_early hrenewed hnow, cell_renewBudget]
      · exact cell_pass_inactive hmode hactive

theorem cell_run_asking (hmode : config.bridgeMode = .tcpClient Ipv4.zero clientPort)
    (hasking : Asking query deadline next s) (hpos : 0 < deadline) (hnext : deadline ≤ next)
    (hbefore : ∀ e ∈ events, e.Before deadline) :
    (s.run config events).cell = s.cell ∨ (s.run config events).cell = .cleared := by
  induction events generalizing s with
  | nil => exact .inl rfl
  | cons e events ih =>
      have hfirst := hbefore e List.mem_cons_self
      have hcell := cell_step_asking hmode hasking hnext hfirst
      have hstep := (step_asking hmode hasking hpos hnext hfirst).1
      have hrest := ih hstep fun later hlater =>
        hbefore later (List.mem_cons_of_mem e hlater)
      rcases hrest with hkept | hcleared
      · rw [run, List.foldl_cons, ← run, hkept]
        exact hcell
      · exact .inr hcleared

/-- The state at the end of a window. -/
theorem QueryWindow.run (hmode : config.bridgeMode = .tcpClient Ipv4.zero clientPort)
    (hwindow : QueryWindow s asked events) :
    Asking (makeQuery config.macAddress asked) (asked + 400) (asked + 1000)
        (s.run config events) ∧
      (s.run config events).best =
        collect none ((datagrams (asked + 400) events).filterMap
          (Datagram.offer (makeQuery config.macAddress asked))) ∧
      ((s.run config events).cell = s.cell ∨ (s.run config events).cell = .cleared) := by
  obtain ⟨first, rest, rfl, hactive, rfl, hbefore⟩ := hwindow.opened
  obtain ⟨t, hpass, hasking, hbest⟩ := pass_asks hmode hactive hwindow.due
  have hcell : t.cell = s.cell := by
    have hdue := cell_pass_due hmode hactive hwindow.due
    rwa [hpass] at hdue
  obtain ⟨hend, hoffers⟩ := run_asking hmode hasking (Nat.succ_pos _) (by omega) hbefore
  have hrun : s.run config (.pass first :: rest) = t.run config rest := by
    rw [DiscoveryTask.run, List.foldl_cons, step, hpass, ← DiscoveryTask.run]
  rw [hrun]
  refine ⟨hend, ?_, ?_⟩
  · rw [hoffers, hbest, ← filterMap_offer, collect, collect, ← List.foldl_append, collect]
    cases hfirst : (DiscoveryEvent.pass first).offer
      (makeQuery config.macAddress first.now) (first.now + 400) with
    | none => rw [List.filterMap_cons_none hfirst, Option.toList_none, List.nil_append]
    | some offer => rw [List.filterMap_cons_some hfirst, Option.toList_some, List.singleton_append]
  · rw [← hcell]
    exact cell_run_asking hmode hasking (Nat.succ_pos _) (by omega) hbefore

/-! ## The first pass after the window -/

/-- The pass publishes the address and port of the offer, which `peer` unpacks
until they expire; without an offer it publishes nothing. -/
def Publishes (config : BridgeConfig) (s : DiscoveryTask) (p : DiscoveryPass) :
    Option Offer → Prop
  | some offer =>
      (s.pass config p).1.cell = ⟨PeerCell.pack offer.ip offer.port, p.now + 2500⟩ ∧
        ∀ now < p.now + 2500,
          (s.pass config p).1.cell.published now = some (offer.ip, offer.port)
  | none => (s.pass config p).1.cell = s.cell

theorem pass_publishes (hmode : config.bridgeMode = .tcpClient Ipv4.zero clientPort)
    (hasking : Asking query deadline next s) (hpos : 0 < deadline) {p : DiscoveryPass}
    (hactive : p.Active) (hafter : deadline ≤ p.now) (hnext : p.now < next)
    (hport : ∀ offer, s.best = some offer → offer.port ≠ 0) :
    s.Publishes config p s.best := by
  cases hbest : s.best with
  | some offer =>
      have hcell := pass_settles hmode hasking hpos hactive hafter hnext hbest
      refine ⟨hcell, fun now hnow => ?_⟩
      rw [hcell]
      exact PeerCell.published_pack (hport offer hbest) hnow
  | none =>
      have hrenewed := hasking.renewBudget p.now
      have hquiet : ¬(s.renewBudget p.now).nextQuery ≤ p.now := by
        rw [hrenewed.nextQuery_eq]
        omega
      have hheld : (s.renewBudget p.now).best = none := by rw [best_renewBudget, hbest]
      rw [Publishes, cell_pass_active hmode hactive, askWhenDue, if_neg hquiet, settle]
      split
      next =>
        rw [publish, hheld]
        exact cell_renewBudget p.now
      next => exact cell_renewBudget p.now

end Client

/-! ## The smallest identity -/

/-- `message.identity < *id` as a running minimum. -/
def offerKey (offer : Offer) : List UInt8 := offer.identity.toList

theorem collect_eq_keep (best : Option Offer) (offers : List Offer) :
    collect best offers = offers.foldl (RunningMin.keep offerKey) best := rfl

/-- Offers of one identity carry one address and port. -/
def OneAddress (offers : List Offer) : Prop :=
  ∀ a ∈ offers, ∀ b ∈ offers, a.identity = b.identity → a.ip = b.ip ∧ a.port = b.port

theorem OneAddress.eq_of_key {offers : List Offer} (h : OneAddress offers) :
    ∀ a ∈ offers, ∀ b ∈ offers, offerKey a = offerKey b → a = b := by
  intro a ha b hb hkey
  have hidentity : a.identity = b.identity := Mac.toList_inj hkey
  obtain ⟨hip, hport⟩ := h a ha b hb hidentity
  obtain ⟨identity, ip, port⟩ := a
  rw [show identity = b.identity from hidentity, show ip = b.ip from hip,
    show port = b.port from hport]

/-- What a window selects among its datagrams. -/
structure Selects (query : Message) (list : List Datagram) (selected : Option Offer) :
    Prop where
  least : ∀ offer, selected = some offer ↔
    RunningMin.Least offerKey (list.filterMap (Datagram.offer query)) offer
  none_iff : selected = none ↔ ∀ d ∈ list, ¬d.Counts query

theorem port_of_offer {query : Message} {d : Datagram} {offer : Offer}
    (h : d.offer query = some offer) : offer.port ≠ 0 := by
  obtain ⟨message, -, hsome⟩ := Option.bind_eq_some_iff.mp h
  obtain ⟨⟨-, hcompatible⟩, hoffer⟩ := Option.ite_none_right_eq_some.mp hsome
  obtain ⟨-, -, -, -, -, hport⟩ := Message.compatibleOffer_iff.mp hcompatible
  rwa [← Option.some.inj hoffer]

theorem selects_collect {query : Message} {list : List Datagram}
    (hsame : OneAddress (list.filterMap (Datagram.offer query))) :
    Selects query list (collect none (list.filterMap (Datagram.offer query))) := by
  rw [collect_eq_keep]
  constructor
  · intro offer
    refine ⟨RunningMin.least_of_foldl_keep, fun hleast => ?_⟩
    cases hfold : (list.filterMap (Datagram.offer query)).foldl
        (RunningMin.keep offerKey) none with
    | none =>
        have hempty := RunningMin.foldl_keep_none hfold
        have hmem := hleast.mem
        rw [hempty] at hmem
        exact absurd hmem List.not_mem_nil
    | some held =>
        have hheld := RunningMin.least_of_foldl_keep hfold
        rw [hsame.eq_of_key held hheld.mem offer hleast.mem
          (hheld.key_eq hleast fun _ => Iff.rfl)]
  · have hempty : list.filterMap (Datagram.offer query) = [] ↔
        ∀ d ∈ list, ¬d.Counts query := by
      simp [Datagram.Counts, List.filterMap_eq_nil_iff]
    rw [← hempty]
    refine ⟨RunningMin.foldl_keep_none, fun hnil => ?_⟩
    rw [hnil]
    rfl

/-- The peer of a query depends on its compatible offers only, not on their
order: the first active pass after the window, if the next query is not due
yet, publishes the one with the smallest identity. -/
theorem peer_selection_perm {config : BridgeConfig} {clientPort : UInt16}
    (hmode : config.bridgeMode = .tcpClient Ipv4.zero clientPort) {s : DiscoveryTask}
    {asked : ℕ} {events events' : List DiscoveryEvent}
    (hwindow : QueryWindow s asked events) (hwindow' : QueryWindow s asked events')
    (hperm : ((datagrams (asked + 400) events).filter
        fun d => d.Counts (makeQuery config.macAddress asked)).Perm
      ((datagrams (asked + 400) events').filter
        fun d => d.Counts (makeQuery config.macAddress asked)))
    (hsame : OneAddress ((datagrams (asked + 400) events).filterMap
      (Datagram.offer (makeQuery config.macAddress asked))))
    {last : DiscoveryPass} (hlast : last.Active) (hafter : asked + 400 ≤ last.now) :
    ∃ selected, Selects (makeQuery config.macAddress asked)
        (datagrams (asked + 400) events) selected ∧
      ∀ window ∈ [events, events'],
        ((s.run config window).cell = s.cell ∨ (s.run config window).cell = .cleared) ∧
          (s.run config window).Publishes config last
            (if last.now < asked + 1000 then selected else none) := by
  let offersOf := fun window => (datagrams (asked + 400) window).filterMap
    (Datagram.offer (makeQuery config.macAddress asked))
  have hoffers : (offersOf events).Perm (offersOf events') := by
    have hcounted := hperm.filterMap (Datagram.offer (makeQuery config.macAddress asked))
    rwa [filterMap_counts, filterMap_counts] at hcounted
  have hcollect : collect none (offersOf events') = collect none (offersOf events) := by
    rw [collect_eq_keep, collect_eq_keep]
    exact (RunningMin.foldl_keep_congr (fun a => hoffers.mem_iff) hsame.eq_of_key).symm
  refine ⟨collect none (offersOf events), selects_collect hsame, ?_⟩
  intro window hmem
  have hselected : QueryWindow s asked window ∧
      collect none (offersOf window) = collect none (offersOf events) := by
    rcases List.mem_pair.mp hmem with rfl | rfl
    · exact ⟨hwindow, rfl⟩
    · exact ⟨hwindow', hcollect⟩
  obtain ⟨hasking, hbest, hcell⟩ := hselected.1.run hmode
  refine ⟨hcell, ?_⟩
  rw [← hselected.2, ← hbest]
  by_cases htimely : last.now < asked + 1000
  · rw [if_pos htimely]
    apply pass_publishes hmode hasking (Nat.succ_pos _) hlast hafter htimely
    intro offer hoffer
    rw [hbest, collect_eq_keep] at hoffer
    obtain ⟨d, -, hd⟩ := List.mem_filterMap.mp (RunningMin.least_of_foldl_keep hoffer).mem
    exact port_of_offer hd
  · rw [if_neg htimely]
    refine cell_pass_due hmode hlast ?_
    rw [hasking.nextQuery_eq]
    omega

/-- A second station's offer to the first query, with a smaller identity. -/
def nearOffer : Message := { stationOffer with port := 9001, identity := ⟨2, 1, 8, 7, 6, 5⟩ }

def nearStation (bytes : List UInt8) : Received :=
  ⟨bytes, ⟨192, 168, 1, 30⟩, 49361, 200, true⟩

/-- The offers in either order, with and without a datagram that is cut. -/
def offersInOrder : List DiscoveryEvent :=
  [.pass ⟨0, true, false, some (heardFromStation stationOffer.encode)⟩,
    .pass ⟨150, true, false, some (nearStation (nearOffer.encode.take 31))⟩,
    .pass ⟨180, true, false, some (nearStation nearOffer.encode)⟩]

def offersReversed : List DiscoveryEvent :=
  [.pass ⟨0, true, false, some (nearStation nearOffer.encode)⟩,
    .pass ⟨90, true, false, some (heardFromStation stationOffer.encode)⟩]

theorem peer_selection_stations :
    ∃ selected, Selects (makeQuery pairedClient.macAddress 0)
        (datagrams 400 offersInOrder) selected ∧
      ∀ window ∈ [offersInOrder, offersReversed],
        ((start.run pairedClient window).cell = start.cell ∨
            (start.run pairedClient window).cell = .cleared) ∧
          (start.run pairedClient window).Publishes pairedClient ⟨410, true, false, none⟩
            (if 410 < 0 + 1000 then selected else none) := by
  have hinOrder : QueryWindow start 0 offersInOrder :=
    ⟨Nat.le_refl 0, _, _, rfl, ⟨rfl, rfl⟩, rfl, by simp [DiscoveryEvent.Before]⟩
  have hreversed : QueryWindow start 0 offersReversed :=
    ⟨Nat.le_refl 0, _, _, rfl, ⟨rfl, rfl⟩, rfl, by simp [DiscoveryEvent.Before]⟩
  have hcounted : ((datagrams 400 offersInOrder).filter
        fun d => d.Counts (makeQuery pairedClient.macAddress 0)).Perm
      ((datagrams 400 offersReversed).filter
        fun d => d.Counts (makeQuery pairedClient.macAddress 0)) := by
    decide +kernel
  have hsame : OneAddress ((datagrams 400 offersInOrder).filterMap
      (Datagram.offer (makeQuery pairedClient.macAddress 0))) := by
    unfold OneAddress
    decide +kernel
  exact @peer_selection_perm pairedClient 0 rfl start 0 offersInOrder offersReversed
    hinOrder hreversed hcounted hsame ⟨410, true, false, none⟩ ⟨rfl, rfl⟩ (by decide)

end DiscoveryTask

end PicoFi
