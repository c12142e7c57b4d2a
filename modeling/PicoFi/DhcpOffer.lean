import PicoFi.ArpGuard
import PicoFi.CheckedReads
import PicoFi.Checksums

/-!
# Offers of a DHCP server

An offer is described layer by layer: an Ethernet frame, an IPv4 packet, a
UDP datagram, a BOOTP reply and its options.  The check of the firmware
accepts exactly these frames and never reads out of range.  Both checksums
then detect every single byte that changes.
-/

namespace PicoFi
namespace AutoIp

open Buffer
open Checksums (words onesSum words_append)

namespace DhcpProbe

/-! ## Options -/

/-- One entry of the options before the END byte. -/
inductive OptionEntry
  | pad
  | value (kind : UInt8) (bytes : List UInt8)

namespace OptionEntry

def bytes : OptionEntry → List UInt8
  | pad => [0]
  | value kind bytes => kind :: UInt8.ofNat bytes.length :: bytes

/-- A kind of its own, and a value whose length fits its byte. -/
def Complete : OptionEntry → Prop
  | pad => True
  | value kind bytes => kind ≠ 0 ∧ kind ≠ 255 ∧ bytes.length < 256

end OptionEntry

/-- The values of the entries of one kind, in order. -/
def values (kind : UInt8) : List OptionEntry → List (List UInt8)
  | [] => []
  | .pad :: entries => values kind entries
  | .value k bytes :: entries =>
      if k = kind then bytes :: values kind entries else values kind entries

/-- An address of one host. -/
def Unicast (ip : List UInt8) : Prop :=
  ∃ a b c d, ip = [a, b, c, d] ∧ a ≠ 0 ∧ a ≠ 127 ∧ a < 224

/-- Options that name the message an offer once and one server. -/
def OfferOptions (options : List UInt8) : Prop :=
  ∃ entries rest, options = entries.flatMap OptionEntry.bytes ++ 255 :: rest ∧
    (∀ entry ∈ entries, entry.Complete) ∧
    values 53 entries = [[2]] ∧ ∃ server, values 54 entries = [server] ∧ Unicast server

/-! ## Layers -/

structure BootpOffer (mac : Mac) (xid : UInt32) (bootp : List UInt8) : Prop where
  reply : slice bootp 0 3 = [2, 1, 6]
  transaction : slice bootp 4 8 = (Ipv4.ofBits xid).toList
  offered : Unicast (slice bootp 16 20)
  offered_routable : slice bootp 16 18 ≠ [169, 254]
  client : slice bootp 28 34 = mac.toList
  cookie_eq : slice bootp 236 240 = cookie
  options : OfferOptions (bootp.drop 240)

/-- The addresses, the protocol and the length, summed with the datagram. -/
def pseudoHeader (header datagram : List UInt8) : List UInt8 :=
  slice header 12 20 ++ [0, 17] ++ be16 datagram.length

structure UdpOffer (mac : Mac) (xid : UInt32) (header datagram : List UInt8) :
    Prop where
  source_port : be16At datagram 0 = 67
  target_port : be16At datagram 2 = 68
  length_eq : be16At datagram 4 = datagram.length
  checksum : be16At datagram 6 = 0 ∨
    onesSum (words (pseudoHeader header datagram ++ datagram)) = 0xffff
  bootp : BootpOffer mac xid (datagram.drop 8)

structure Ipv4Offer (header datagram : List UInt8) : Prop where
  version : (header.getD 0 0).toNat / 16 = 4
  length_eq : header.length = (header.getD 0 0).toNat % 16 * 4
  five_words : 20 ≤ header.length
  total : be16At header 2 = header.length + datagram.length
  more_fragments : be16At header 6 / 0x2000 % 2 = 0
  fragment_offset : be16At header 6 % 0x2000 = 0
  protocol : header.getD 9 0 = 17
  source : Unicast (slice header 12 16)
  checksum : onesSum (words header) = 0xffff

/-- The frame carries an offer for this client and this transaction; what
follows the packet is not read. -/
def IsOffer (frame : List UInt8) (mac : Mac) (xid : UInt32) : Prop :=
  xid ≠ 0 ∧ ∃ target source header datagram trailer,
    frame = target ++ source ++ [8, 0] ++ (header ++ datagram ++ trailer) ∧
    (target = mac.toList ∨ target = List.replicate 6 255) ∧ source.length = 6 ∧
    Ipv4Offer header datagram ∧ UdpOffer mac xid header datagram

/-! ## Sums -/

theorem sum_eq (bytes : List UInt8) (value : ℕ) :
    sum bytes value = value + (words bytes).sum := by
  induction bytes using PicoFi.Checksums.words.induct generalizing value with
  | case1 a b bytes ih =>
      simp only [sum, words, List.sum_cons, ih]
      omega
  | case2 last => simp [sum, words]
  | case3 => simp [sum, words]

theorem finish_eq_zero_iff (value : ℕ) :
    finish value = 0 ↔ 0 < value ∧ 65535 ∣ value := by
  induction value using finish.induct with
  | case1 value hbig ih =>
      have hcarried := Checksums.carried_mod value
      rw [finish, if_pos hbig, ih]
      omega
  | case2 value hsmall =>
      rw [finish, if_neg hsmall]
      omega

theorem onesSum_words_iff (bytes : List UInt8) :
    onesSum (words bytes) = 0xffff ↔ finish (words bytes).sum = 0 := by
  rw [finish_eq_zero_iff]
  exact (Checksums.folded_onesSum fun _ => Checksums.le_of_mem_words).eq_full_iff

theorem unicast_iff (ip : List UInt8) : unicast ip = true ↔ Unicast ip := by
  unfold unicast Unicast
  constructor
  · intro h
    simp only [Bool.and_eq_true, beq_iff_eq, bne_iff_ne, decide_eq_true_eq] at h
    obtain ⟨⟨⟨hlength, hzero⟩, hloop⟩, hclass⟩ := h
    obtain ⟨a, b, c, d, rfl⟩ := List.length_eq_four.mp hlength
    exact ⟨a, b, c, d, rfl, hzero, hloop, hclass⟩
  · rintro ⟨a, b, c, d, rfl, hzero, hloop, hclass⟩
    simp [hzero, hloop, hclass]

/-! ## The scan of the options -/

/-- What the scan still looks for in the entries before the END byte. -/
def Completes (offer server : Bool) (entries : List OptionEntry) : Prop :=
  values 53 entries = (if offer then [] else [[2]]) ∧
    if server then values 54 entries = []
    else ∃ ip, values 54 entries = [ip] ∧ Unicast ip

theorem scanOptions_end (rest : List UInt8) (offer server : Bool) :
    scanOptions (255 :: rest) offer server = (offer && server) := by
  rw [scanOptions.eq_def]
  rfl

theorem scanOptions_pad (rest : List UInt8) (offer server : Bool) :
    scanOptions (0 :: rest) offer server = scanOptions rest offer server := by
  rw [scanOptions.eq_def]
  rfl

theorem scanOptions_value {kind : UInt8} {bytes : List UInt8}
    (hentry : (OptionEntry.value kind bytes).Complete) (rest : List UInt8)
    (offer server : Bool) :
    scanOptions (kind :: UInt8.ofNat bytes.length :: (bytes ++ rest)) offer server =
      if kind = 53 then
        if offer ∨ bytes ≠ [2] then false else scanOptions rest true server
      else if kind = 54 then
        if server ∨ ¬unicast bytes then false else scanOptions rest offer true
      else scanOptions rest offer server := by
  obtain ⟨hzero, hend, hlength⟩ := hentry
  have hbyte : (UInt8.ofNat bytes.length).toNat = bytes.length := by
    rw [UInt8.toNat_ofNat']
    omega
  rw [scanOptions, if_neg hend, if_neg hzero]
  dsimp only
  rw [hbyte, if_neg (by simp), List.take_left, List.drop_left]

theorem completes_value {kind : UInt8} {bytes : List UInt8} {offer server : Bool}
    {entries : List OptionEntry} :
    Completes offer server (.value kind bytes :: entries) ↔
      if kind = 53 then
        ¬(offer ∨ bytes ≠ [2]) ∧ Completes true server entries
      else if kind = 54 then
        ¬(server ∨ ¬unicast bytes) ∧ Completes offer true entries
      else Completes offer server entries := by
  by_cases hoffer : kind = 53
  · subst hoffer
    have hserver : values 54 (.value 53 bytes :: entries) = values 54 entries := rfl
    have hmessage : values 53 (.value 53 bytes :: entries) = bytes :: values 53 entries := rfl
    rw [if_pos rfl, Completes, Completes, hserver, hmessage]
    cases offer <;> simp [and_assoc]
  · rw [if_neg hoffer]
    have hmessage : values 53 (.value kind bytes :: entries) = values 53 entries :=
      if_neg hoffer
    by_cases hserver : kind = 54
    · subst hserver
      have hname : values 54 (.value 54 bytes :: entries) = bytes :: values 54 entries := rfl
      rw [if_pos rfl, Completes, Completes, hmessage, hname]
      cases server
      · simp [unicast_iff]
        tauto
      · simp
    · have hname : values 54 (.value kind bytes :: entries) = values 54 entries :=
        if_neg hserver
      rw [if_neg hserver, Completes, Completes, hmessage, hname]

theorem scanOptions_of_completes {entries : List OptionEntry}
    (hentries : ∀ entry ∈ entries, entry.Complete) {offer server : Bool}
    (h : Completes offer server entries) (rest : List UInt8) :
    scanOptions (entries.flatMap OptionEntry.bytes ++ 255 :: rest) offer server = true := by
  induction entries generalizing offer server with
  | nil =>
      obtain ⟨hoffer, hserver⟩ := h
      rw [List.flatMap_nil, List.nil_append, scanOptions_end]
      cases offer <;> cases server <;> simp_all [values]
  | cons entry entries ih =>
      have hrest : ∀ e ∈ entries, e.Complete := fun e he =>
        hentries e (List.mem_cons_of_mem entry he)
      have hentry := hentries entry List.mem_cons_self
      cases entry with
      | pad => exact (scanOptions_pad _ _ _).trans (ih hrest h)
      | value kind bytes =>
          have hbytes : (OptionEntry.value kind bytes :: entries).flatMap
                OptionEntry.bytes ++ 255 :: rest =
              kind :: UInt8.ofNat bytes.length ::
                (bytes ++ (entries.flatMap OptionEntry.bytes ++ 255 :: rest)) := by
            simp [OptionEntry.bytes]
          rw [hbytes, scanOptions_value hentry]
          rw [completes_value] at h
          split
          next hkind =>
            rw [if_pos hkind] at h
            rw [if_neg h.1]
            exact ih hrest h.2
          next hkind =>
            rw [if_neg hkind] at h
            split
            next hkind =>
              rw [if_pos hkind] at h
              rw [if_neg h.1]
              exact ih hrest h.2
            next hkind =>
              rw [if_neg hkind] at h
              exact ih hrest h

/-- The options up to an END byte, with what the scan still looks for. -/
def Parses (options : List UInt8) (offer server : Bool) : Prop :=
  ∃ entries rest, options = entries.flatMap OptionEntry.bytes ++ 255 :: rest ∧
    (∀ entry ∈ entries, entry.Complete) ∧ Completes offer server entries

theorem Parses.cons {entry : OptionEntry} {options : List UInt8}
    {offer server offer' server' : Bool} (h : Parses options offer' server')
    (hentry : entry.Complete)
    (hcompletes : ∀ entries, Completes offer' server' entries →
      Completes offer server (entry :: entries)) :
    Parses (entry.bytes ++ options) offer server := by
  obtain ⟨entries, rest, rfl, hentries, hdone⟩ := h
  refine ⟨entry :: entries, rest, ?_, ?_, hcompletes entries hdone⟩
  · simp
  · exact List.forall_mem_cons.mpr ⟨hentry, hentries⟩

theorem parses_value {kind : UInt8} {bytes rest : List UInt8} {offer server : Bool}
    (hentry : (OptionEntry.value kind bytes).Complete)
    (hscan : scanOptions ((OptionEntry.value kind bytes).bytes ++ rest) offer server = true)
    (ih : ∀ offer server, scanOptions rest offer server = true →
      Parses rest offer server) :
    Parses ((OptionEntry.value kind bytes).bytes ++ rest) offer server := by
  have hvalue := scanOptions_value hentry rest offer server
  rw [OptionEntry.bytes, List.cons_append, List.cons_append, hvalue] at hscan
  split at hscan
  next hkind =>
    obtain ⟨hfirst, hrest⟩ : ¬(offer ∨ bytes ≠ [2]) ∧ scanOptions rest true server = true := by
      split at hscan
      next => contradiction
      next hfirst => exact ⟨hfirst, hscan⟩
    refine (ih _ _ hrest).cons hentry fun entries hdone => ?_
    rw [completes_value, if_pos hkind]
    exact ⟨hfirst, hdone⟩
  next hmessage =>
    split at hscan
    next hkind =>
      obtain ⟨hfirst, hrest⟩ : ¬(server ∨ ¬unicast bytes) ∧
          scanOptions rest offer true = true := by
        split at hscan
        next => contradiction
        next hfirst => exact ⟨hfirst, hscan⟩
      refine (ih _ _ hrest).cons hentry fun entries hdone => ?_
      rw [completes_value, if_neg hmessage, if_pos hkind]
      exact ⟨hfirst, hdone⟩
    next hserver =>
      refine (ih _ _ hscan).cons hentry fun entries hdone => ?_
      rw [completes_value, if_neg hmessage, if_neg hserver]
      exact hdone

/-- A string that starts like an entry and is long enough is one. -/
theorem value_bytes {kind length : UInt8} {rest : List UInt8}
    (hlength : length.toNat ≤ rest.length) :
    kind :: length :: rest =
      (OptionEntry.value kind (rest.take length.toNat)).bytes ++
        rest.drop length.toNat := by
  have htake : (rest.take length.toNat).length = length.toNat := by
    rw [List.length_take]
    omega
  rw [OptionEntry.bytes, htake, UInt8.ofNat_toNat, List.cons_append, List.cons_append,
    List.take_append_drop]

theorem parses_of_scanOptions {options : List UInt8} {offer server : Bool}
    (hscan : scanOptions options offer server = true) : Parses options offer server := by
  -- The scan drops an entry at a time, so the induction is on the length.
  induction hlength : options.length using Nat.strong_induction_on
    generalizing options offer server with
  | _ n ih =>
      cases options with
      | nil => simp [scanOptions] at hscan
      | cons kind rest =>
          by_cases hend : kind = 255
          · subst hend
            rw [scanOptions_end, Bool.and_eq_true] at hscan
            refine ⟨[], rest, rfl, by simp, ?_⟩
            simp [Completes, values, hscan.1, hscan.2]
          by_cases hpad : kind = 0
          · subst hpad
            rw [scanOptions_pad] at hscan
            have hrest := ih rest.length (by simp [← hlength]) hscan rfl
            exact hrest.cons (show OptionEntry.pad.Complete from trivial) fun _ hdone => hdone
          cases rest with
          | nil => simp [scanOptions, hend, hpad] at hscan
          | cons length rest =>
              by_cases hshort : rest.length < length.toNat
              · simp [scanOptions, hend, hpad, hshort] at hscan
              · have hvalue : kind :: length :: rest = _ :=
                  value_bytes (Nat.le_of_not_lt hshort)
                rw [hvalue] at hscan ⊢
                refine parses_value ⟨hpad, hend, ?_⟩ hscan fun _ _ h => ?_
                · have hbyte := length.toNat_lt
                  rw [List.length_take]
                  omega
                · refine ih (rest.drop length.toNat).length ?_ h rfl
                  rw [← hlength, List.length_drop, List.length_cons, List.length_cons]
                  omega

theorem scanOptions_iff (options : List UInt8) :
    scanOptions options false false = true ↔ OfferOptions options := by
  constructor
  · exact parses_of_scanOptions
  · rintro ⟨entries, rest, rfl, hentries, hdone⟩
    have hcompletes : Completes false false entries := hdone
    exact scanOptions_of_completes hentries hcompletes rest

/-- An entry of each kind the scan looks for, and the END byte. -/
theorem OfferOptions.three_le {options : List UInt8} (h : OfferOptions options) :
    3 ≤ options.length := by
  obtain ⟨entries, rest, rfl, -, hmessage, -⟩ := h
  have hlong : 3 ≤ (entries.flatMap OptionEntry.bytes).length := by
    induction entries with
    | nil => simp [values] at hmessage
    | cons entry entries ih =>
        rw [List.flatMap_cons, List.length_append]
        cases entry with
        | pad =>
            have hrest := ih hmessage
            omega
        | value kind bytes =>
            by_cases hkind : kind = 53
            · subst hkind
              obtain ⟨rfl, -⟩ : bytes = [2] ∧ values 53 entries = [] := by
                simpa [values] using hmessage
              simp [OptionEntry.bytes]
            · have hrest := ih (by simpa [values, hkind] using hmessage)
              omega
  rw [List.length_append]
  omega

/-! ## The check, layer by layer -/

def checkBootp (bootp : List UInt8) (mac : Mac) (xid : UInt32) : Option Bool := do
  if (← slice? bootp 0 3) ≠ [2, 1, 6] then return false
  if (← slice? bootp 4 8) ≠ (Ipv4.ofBits xid).toList then return false
  if (← slice? bootp 28 34) ≠ mac.toList then return false
  if ¬unicast (← slice? bootp 16 20) then return false
  if (← slice? bootp 16 18) = [169, 254] then return false
  if (← slice? bootp 236 240) ≠ cookie then return false
  return scanOptions (← slice? bootp 240 bootp.length) false false

def checkUdp (ip : List UInt8) (ihl total : ℕ) (mac : Mac) (xid : UInt32) :
    Option Bool := do
  let udp ← slice? ip ihl total
  let length ← readBe16 udp 4
  if (← slice? udp 0 4) ≠ [0, 67, 0, 68] ∨ length < udpHeader + 243 ∨
      length ≠ udp.length then
    return false
  if (← slice? udp 6 8) ≠ [0, 0] ∧
      finish (sum udp (sum (← slice? ip 12 20) (17 + length))) ≠ 0 then
    return false
  checkBootp (← slice? udp udpHeader udp.length) mac xid

def checkHeader (ip : List UInt8) (ihl total : ℕ) (mac : Mac) (xid : UInt32) :
    Option Bool := do
  if (← ip[9]?) ≠ 17 then return false
  if (← readBe16 ip 6) % 0x4000 ≠ 0 then return false
  if ¬unicast (← slice? ip 12 16) then return false
  if finish (sum (← slice? ip 0 ihl) 0) ≠ 0 then return false
  checkUdp ip ihl total mac xid

def checkIp (ip : List UInt8) (mac : Mac) (xid : UInt32) : Option Bool := do
  let first ← ip[0]?
  let ihl := first.toNat % 16 * 4
  let total ← readBe16 ip 2
  if first.toNat / 16 ≠ 4 ∨ ihl < ipHeader ∨
      total < ihl + udpHeader + 243 ∨ ip.length < total then
    return false
  checkHeader ip ihl total mac xid

theorem isOffer_eq (frame : List UInt8) (mac : Mac) (xid : UInt32) :
    isOffer frame mac xid = (do
      if xid = 0 ∨ frame.length < bootpStart + 243 then return false
      if (← slice? frame 12 14) ≠ [8, 0] then return false
      let target ← slice? frame 0 6
      if target ≠ mac.toList ∧ target ≠ List.replicate 6 255 then return false
      checkIp (← slice? frame ether frame.length) mac xid) := rfl

theorem checkBootp_decides {bootp : List UInt8} (hlong : 240 ≤ bootp.length) (mac : Mac)
    (xid : UInt32) : Decides (checkBootp bootp mac xid) (BootpOffer mac xid bootp) := by
  have hread : ∀ {start stop : ℕ}, start ≤ stop → stop ≤ 240 →
      slice? bootp start stop = some (slice bootp start stop) :=
    fun hstart hstop => slice?_eq_some hstart (hstop.trans hlong)
  unfold checkBootp
  simp only [Option.bind_eq_bind, Option.pure_def]
  refine .read (hread (by decide) (by decide))
    (.guard (fun hbad h => hbad h.reply) fun hreply => ?_)
  refine .read (hread (by decide) (by decide))
    (.guard (fun hbad h => hbad h.transaction) fun htransaction => ?_)
  refine .read (hread (by decide) (by decide))
    (.guard (fun hbad h => hbad h.client) fun hclient => ?_)
  refine .read (hread (by decide) (by decide))
    (.guard (fun hbad h => hbad ((unicast_iff _).mpr h.offered)) fun hoffered => ?_)
  refine .read (hread (by decide) (by decide))
    (.guard (fun hbad h => h.offered_routable hbad) fun hroutable => ?_)
  refine .read (hread (by decide) (by decide))
    (.guard (fun hbad h => hbad h.cookie_eq) fun hcookie => ?_)
  refine .read (slice?_eq_some hlong le_rfl) (.answer ?_)
  have hoptions : slice bootp 240 bootp.length = bootp.drop 240 := by
    rw [slice, List.take_length]
  rw [hoptions, scanOptions_iff]
  exact
    { mp := fun h =>
        { reply := not_not.mp hreply
          transaction := not_not.mp htransaction
          offered := (unicast_iff _).mp (not_not.mp hoffered)
          offered_routable := hroutable
          client := not_not.mp hclient
          cookie_eq := not_not.mp hcookie
          options := h }
      mpr := fun h => h.options }

theorem readBe16_eq {bytes : List UInt8} {i : ℕ} (hi : i + 1 < bytes.length) :
    readBe16 bytes i = some (be16At bytes i) := by
  have hhigh : bytes[i]? = some bytes[i] := List.getElem?_eq_getElem (by omega)
  have hlow : bytes[i + 1]? = some bytes[i + 1] := List.getElem?_eq_getElem hi
  simp [readBe16, be16At, hhigh, hlow]

theorem BootpOffer.long {mac : Mac} {xid : UInt32} {bootp : List UInt8}
    (h : BootpOffer mac xid bootp) : 243 ≤ bootp.length := by
  have hoptions := h.options.three_le
  rw [List.length_drop] at hoptions
  omega

theorem words_be16 {n : ℕ} (hn : n < 65536) : words (be16 n) = [n] := by
  simp only [be16, words, UInt8.toNat_ofNat']
  congr 1
  omega

theorem sum_words_pseudoHeader {header datagram : List UInt8}
    (hheader : 20 ≤ header.length) (hlong : datagram.length < 65536) :
    (words (pseudoHeader header datagram ++ datagram)).sum =
      17 + datagram.length + (words (slice header 12 20)).sum + (words datagram).sum := by
  have haddresses : (slice header 12 20).length = 8 := length_slice hheader
  have hprotocol : words [0, 17] = [17] := rfl
  have hlength : (be16 datagram.length).length = 2 := rfl
  unfold pseudoHeader
  rw [words_append, words_append, words_append, words_be16 hlong, hprotocol]
  · simp only [List.sum_append, List.sum_singleton]
    omega
  · simp [haddresses]
  · simp [haddresses]
  · simp [haddresses, hlength]

theorem ports_iff {datagram : List UInt8} (hlong : 4 ≤ datagram.length) :
    slice datagram 0 4 = [0, 67, 0, 68] ↔ be16At datagram 0 = 67 ∧ be16At datagram 2 = 68 := by
  have hsource : slice datagram 0 2 = [0, 67] ↔ be16At datagram 0 = 67 :=
    slice_two_eq_iff (by omega)
  have htarget : slice datagram 2 4 = [0, 68] ↔ be16At datagram 2 = 68 :=
    slice_two_eq_iff (by omega)
  have hlength : (slice datagram 0 2).length = 2 := length_slice (by omega)
  rw [← hsource, ← htarget, ← slice_append_slice (Nat.zero_le 2) (show 2 ≤ 4 by decide)]
  constructor
  · intro h
    have hparts : slice datagram 0 2 ++ slice datagram 2 4 = [0, 67] ++ [0, 68] := h
    exact List.append_inj hparts hlength
  · rintro ⟨hfirst, hsecond⟩
    rw [hfirst, hsecond]
    rfl

theorem checkUdp_decides {header datagram trailer : List UInt8} {total : ℕ}
    (hheader : 20 ≤ header.length) (hlong : 8 + 243 ≤ datagram.length)
    (htotal : header.length + datagram.length = total) (hword : total < 65536)
    (mac : Mac) (xid : UInt32) :
    Decides (checkUdp (header ++ datagram ++ trailer) header.length total mac xid)
      (UdpOffer mac xid header datagram) := by
  subst htotal
  have hudp : slice? (header ++ datagram ++ trailer) header.length
      (header.length + datagram.length) = some datagram := by
    rw [slice?_eq_some (by omega) (by simp), slice_middle]
  have hread : ∀ {start stop : ℕ}, start ≤ stop → stop ≤ 251 →
      slice? datagram start stop = some (slice datagram start stop) :=
    fun hstart hstop => slice?_eq_some hstart (hstop.trans hlong)
  have haddresses : slice? (header ++ datagram ++ trailer) 12 20 =
      some (slice header 12 20) := by
    rw [List.append_assoc, slice?_eq_some (by decide) (by simp; omega),
      slice_append_left hheader]
  have hbootp : slice? datagram udpHeader datagram.length = some (datagram.drop 8) := by
    have hfit : udpHeader ≤ datagram.length := (by decide : 8 ≤ 251).trans hlong
    rw [slice?_eq_some hfit le_rfl, slice, List.take_length]
  have hsum : finish (sum datagram (sum (slice header 12 20) (17 + datagram.length))) = 0 ↔
      onesSum (words (pseudoHeader header datagram ++ datagram)) = 0xffff := by
    rw [onesSum_words_iff, sum_words_pseudoHeader hheader (by omega), sum_eq, sum_eq]
  unfold checkUdp
  simp only [Option.bind_eq_bind, Option.pure_def]
  refine .read hudp (.read (readBe16_eq (by omega))
    (.read (hread (by decide) (by decide)) (.guard ?_ fun hgood => ?_)))
  · rintro (hports | hshort | hlength) h
    · exact hports ((ports_iff (by omega)).mpr ⟨h.source_port, h.target_port⟩)
    · rw [h.length_eq] at hshort
      exact absurd hlong (Nat.not_le_of_lt hshort)
    · exact hlength h.length_eq
  · simp only [not_or, not_not] at hgood
    obtain ⟨hports, -, hlength⟩ := hgood
    obtain ⟨hsource, htarget⟩ := (ports_iff (by omega)).mp hports
    have hchecksum : slice datagram 6 8 = [0, 0] ↔ be16At datagram 6 = 0 :=
      slice_two_eq_iff (by omega)
    refine .read (hread (by decide) (by decide)) (.read haddresses (.guard ?_ fun hgood => ?_))
    · rintro ⟨hnonzero, hbad⟩ h
      rw [hlength, hsum.ne] at hbad
      exact h.checksum.elim (fun hzero => hnonzero (hchecksum.mpr hzero)) hbad
    · refine .read hbootp ((checkBootp_decides ?_ mac xid).congr ⟨fun h => ?_, fun h => h.bootp⟩)
      · rw [List.length_drop]
        omega
      · have hsummed : be16At datagram 6 = 0 ∨
            onesSum (words (pseudoHeader header datagram ++ datagram)) = 0xffff := by
          rw [hlength, ne_eq, ne_eq, hsum, hchecksum, not_and_or, not_not, not_not] at hgood
          exact hgood
        exact
          { source_port := hsource
            target_port := htarget
            length_eq := hlength
            checksum := hsummed
            bootp := h }

/-- The lengths of a packet fix where it is cut. -/
structure Ipv4Lengths (header datagram : List UInt8) : Prop where
  version : (header.getD 0 0).toNat / 16 = 4
  length_eq : header.length = (header.getD 0 0).toNat % 16 * 4
  five_words : 20 ≤ header.length
  total : be16At header 2 = header.length + datagram.length

theorem Ipv4Offer.lengths {header datagram : List UInt8} (h : Ipv4Offer header datagram) :
    Ipv4Lengths header datagram :=
  ⟨h.version, h.length_eq, h.five_words, h.total⟩

section Packet

variable {header datagram trailer : List UInt8} {mac : Mac} {xid : UInt32}

theorem checkHeader_decides (h : Ipv4Lengths header datagram)
    (hlong : 8 + 243 ≤ datagram.length) :
    Decides (checkHeader (header ++ datagram ++ trailer) header.length
        (header.length + datagram.length) mac xid)
      (Ipv4Offer header datagram ∧ UdpOffer mac xid header datagram) := by
  have hfive := h.five_words
  have hword := be16At_lt header 2
  rw [h.total] at hword
  have hprotocol : (header ++ (datagram ++ trailer))[9]? = some (header.getD 9 0) := by
    simp [List.getElem?_append_left (show 9 < header.length by omega),
      List.getElem?_eq_getElem (show 9 < header.length by omega)]
  have hfragment : readBe16 (header ++ (datagram ++ trailer)) 6 =
      some (be16At header 6) := by
    rw [readBe16_eq (by simp; omega), be16At_append_left (by omega)]
  have hsource : slice? (header ++ (datagram ++ trailer)) 12 16 =
      some (slice header 12 16) := by
    rw [slice?_eq_some (by decide) (by simp; omega), slice_append_left (by omega)]
  have hheader : slice? (header ++ (datagram ++ trailer)) 0 header.length =
      some header := by
    rw [slice?_eq_some (by omega) (by simp), slice_append_left le_rfl, slice_zero,
      List.take_length]
  have hsum : finish (sum header 0) = 0 ↔ onesSum (words header) = 0xffff := by
    rw [onesSum_words_iff, sum_eq, Nat.zero_add]
  have hflags : be16At header 6 % 0x4000 = 0 ↔
      be16At header 6 / 0x2000 % 2 = 0 ∧ be16At header 6 % 0x2000 = 0 := by
    omega
  unfold checkHeader
  simp only [Option.bind_eq_bind, Option.pure_def, List.append_assoc]
  refine .read hprotocol (.guard (fun hbad hoffer => hbad hoffer.1.protocol)
    fun hkind => ?_)
  refine .read hfragment (.guard (fun hbad hoffer => hbad ?_) fun hwhole => ?_)
  · exact hflags.mpr ⟨hoffer.1.more_fragments, hoffer.1.fragment_offset⟩
  refine .read hsource (.guard (fun hbad hoffer => hbad ?_) fun hhost => ?_)
  · exact (unicast_iff _).mpr hoffer.1.source
  refine .read hheader (.guard (fun hbad hoffer => hbad (hsum.mpr hoffer.1.checksum))
    fun hchecksum => ?_)
  have hudp := @checkUdp_decides header datagram trailer _ hfive hlong rfl hword mac xid
  rw [List.append_assoc] at hudp
  refine hudp.congr ⟨fun hdatagram => ⟨?_, hdatagram⟩, fun hoffer => hoffer.2⟩
  obtain ⟨hmore, hoffset⟩ := hflags.mp (not_not.mp hwhole)
  exact
    { version := h.version
      length_eq := h.length_eq
      five_words := h.five_words
      total := h.total
      more_fragments := hmore
      fragment_offset := hoffset
      protocol := not_not.mp hkind
      source := (unicast_iff _).mp (not_not.mp hhost)
      checksum := hsum.mp (not_not.mp hchecksum) }

theorem UdpOffer.long (h : UdpOffer mac xid header datagram) :
    8 + 243 ≤ datagram.length := by
  have hbootp := h.bootp.long
  rw [List.length_drop] at hbootp
  omega

theorem Ipv4Lengths.unique {header' datagram' trailer' : List UInt8}
    (h : Ipv4Lengths header datagram) (h' : Ipv4Lengths header' datagram')
    (hsame : header ++ datagram ++ trailer = header' ++ datagram' ++ trailer') :
    header = header' ∧ datagram = datagram' := by
  have hfive := h.five_words
  have hfive' := h'.five_words
  simp only [List.append_assoc] at hsame
  have hfirst : header.getD 0 0 = header'.getD 0 0 := by
    have hread : (header ++ (datagram ++ trailer)).getD 0 0 = header.getD 0 0 :=
      getD_append_left (by omega)
    rw [← hread, hsame, getD_append_left (by omega)]
  have htotal : be16At header 2 = be16At header' 2 := by
    have hread : be16At (header ++ (datagram ++ trailer)) 2 = be16At header 2 :=
      be16At_append_left (by omega)
    rw [← hread, hsame, be16At_append_left (by omega)]
  have hlength : header.length = header'.length := by
    rw [h.length_eq, h'.length_eq, hfirst]
  obtain ⟨rfl, hrest⟩ := List.append_inj hsame hlength
  have hdatagram : datagram.length = datagram'.length := by
    have hsum := h.total
    rw [h'.total] at hsum
    omega
  exact ⟨rfl, (List.append_inj hrest hdatagram).1⟩

end Packet

/-- The packet is cut where its length fields say. -/
theorem checkIp_decides (ip : List UInt8) (hlong : 20 ≤ ip.length) (mac : Mac)
    (xid : UInt32) :
    Decides (checkIp ip mac xid)
      (∃ header datagram trailer, ip = header ++ datagram ++ trailer ∧
        Ipv4Offer header datagram ∧ UdpOffer mac xid header datagram) := by
  have hfirst : ip[0]? = some (ip.getD 0 0) := by
    simp [List.getElem?_eq_getElem (show 0 < ip.length by omega)]
  unfold checkIp
  simp only [Option.bind_eq_bind, Option.pure_def]
  refine .read hfirst (.read (readBe16_eq (by omega)) (.guard ?_ fun hgood => ?_))
  · rintro hbad ⟨header, datagram, trailer, rfl, hheader, hudp⟩
    have hfive := hheader.five_words
    have hdatagram := hudp.long
    simp only [List.append_assoc] at hbad
    rw [getD_append_left (by omega), be16At_append_left (by omega), hheader.version,
      ← hheader.length_eq, hheader.total] at hbad
    simp only [List.length_append, ipHeader, udpHeader] at hbad
    omega
  · simp only [not_or, not_not, not_lt, ipHeader, udpHeader] at hgood
    obtain ⟨hversion, hihl, htotal, hfit⟩ := hgood
    obtain ⟨header, datagram, trailer, hip, hheader, hdatagram⟩ :=
      exists_cut (show (ip.getD 0 0).toNat % 16 * 4 ≤ be16At ip 2 by omega) hfit
    have hzero : ip.getD 0 0 = header.getD 0 0 := by
      rw [hip, List.append_assoc, getD_append_left (by omega)]
    have hword : be16At ip 2 = be16At header 2 := by
      rw [hip, List.append_assoc, be16At_append_left (by omega)]
    have hlengths : Ipv4Lengths header datagram :=
      { version := hzero ▸ hversion
        length_eq := by rw [hheader, hzero]
        five_words := by omega
        total := by rw [← hword, hdatagram] }
    rw [← hheader, ← hdatagram, hip]
    refine (checkHeader_decides hlengths (by omega)).congr ⟨?_, ?_⟩
    · rintro ⟨hoffer, hudp⟩
      exact ⟨header, datagram, trailer, rfl, hoffer, hudp⟩
    · rintro ⟨header', datagram', trailer', hsame, hoffer, hudp⟩
      obtain ⟨rfl, rfl⟩ := hlengths.unique hoffer.lengths hsame
      exact ⟨hoffer, hudp⟩

/-- The frame around a packet. -/
theorem slice_ethernet {target source kind packet : List UInt8} (htarget : target.length = 6)
    (hsource : source.length = 6) (hkind : kind.length = 2) :
    let frame := target ++ source ++ kind ++ packet
    slice frame 0 6 = target ∧ slice frame 12 14 = kind ∧
      slice frame 14 frame.length = packet := by
  intro frame
  have hwhole : frame = (target ++ source) ++ kind ++ packet := rfl
  refine ⟨?_, ?_, ?_⟩
  · rw [hwhole, List.append_assoc, List.append_assoc, slice_append_left htarget.ge,
      slice_zero, ← htarget, List.take_length]
  · have hmiddle := slice_middle (target ++ source) kind packet
    rwa [List.length_append, htarget, hsource, hkind] at hmiddle
  · rw [slice, List.take_length, hwhole]
    exact List.drop_left' (by simp [htarget, hsource, hkind])

theorem length_target {target : List UInt8} {mac : Mac}
    (htarget : target = mac.toList ∨ target = List.replicate 6 255) : target.length = 6 := by
  rcases htarget with rfl | rfl <;> rfl

/-- The packet is what follows the fourteen bytes of the Ethernet header. -/
theorem isOffer_iff_slices {frame : List UInt8} (hlong : 14 ≤ frame.length) (mac : Mac)
    (xid : UInt32) :
    IsOffer frame mac xid ↔
      xid ≠ 0 ∧ slice frame 12 14 = [8, 0] ∧
        (slice frame 0 6 = mac.toList ∨ slice frame 0 6 = List.replicate 6 255) ∧
        ∃ header datagram trailer,
          slice frame 14 frame.length = header ++ datagram ++ trailer ∧
          Ipv4Offer header datagram ∧ UdpOffer mac xid header datagram := by
  constructor
  · rintro ⟨hxid, target, source, header, datagram, trailer, rfl, htarget, hsource, hoffer⟩
    obtain ⟨hsix, hkind, hpacket⟩ :=
      @slice_ethernet _ _ [8, 0] (header ++ datagram ++ trailer)
        (length_target htarget) hsource rfl
    rw [hsix, hkind, hpacket]
    exact ⟨hxid, rfl, htarget, header, datagram, trailer, rfl, hoffer⟩
  · rintro ⟨hxid, hkind, htarget, header, datagram, trailer, hpacket, hoffer⟩
    have hframe : frame = slice frame 0 6 ++ slice frame 6 12 ++ slice frame 12 14 ++
        slice frame 14 frame.length := by
      iterate 3 rw [slice_append_slice (by omega) (by omega)]
      rw [slice_zero, List.take_length]
    rw [hkind, hpacket] at hframe
    exact ⟨hxid, _, _, header, datagram, trailer, hframe, htarget,
      length_slice (by omega), hoffer⟩

theorem isOffer_decides (frame : List UInt8) (mac : Mac) (xid : UInt32) :
    Decides (isOffer frame mac xid) (IsOffer frame mac xid) := by
  rw [isOffer_eq]
  simp only [Option.bind_eq_bind, Option.pure_def]
  refine .guard ?_ fun hgood => ?_
  · rintro (hxid | hshort) ⟨hne, target, source, header, datagram, trailer, rfl, htarget,
      hsource, hheader, hudp⟩
    · exact hne hxid
    · have hsix := length_target htarget
      have hfive := hheader.five_words
      have hdatagram := hudp.long
      simp only [List.length_append, List.length_cons, List.length_nil, bootpStart, ether,
        ipHeader, udpHeader] at hshort
      omega
  · simp only [not_or, not_lt, bootpStart, ether, ipHeader, udpHeader] at hgood
    obtain ⟨hxid, hlong⟩ := hgood
    have hiff := isOffer_iff_slices (show 14 ≤ frame.length by omega) mac xid
    refine .read (slice?_eq_some (by decide) (by omega))
      (.guard (fun hbad hoffer => hbad (hiff.mp hoffer).2.1) fun hkind => ?_)
    refine .read (slice?_eq_some (by decide) (by omega)) (.guard ?_ fun htarget => ?_)
    · rintro ⟨hmac, hbroadcast⟩ hoffer
      exact (hiff.mp hoffer).2.2.1.elim hmac hbroadcast
    · have hpacket : 20 ≤ (slice frame 14 frame.length).length := by
        rw [length_slice le_rfl]
        omega
      refine .read (slice?_eq_some (show 14 ≤ frame.length by omega) le_rfl)
        ((checkIp_decides _ hpacket mac xid).congr ?_)
      rw [hiff]
      exact ⟨fun h => ⟨hxid, not_not.mp hkind, by tauto, h⟩, fun h => h.2.2.2⟩

/-- The check never reads out of range and accepts exactly the offers. -/
theorem isOffer_eq_true_iff (frame : List UInt8) (mac : Mac) (xid : UInt32) :
    isOffer frame mac xid ≠ none ∧
      (isOffer frame mac xid = some true ↔ IsOffer frame mac xid) :=
  ⟨(isOffer_decides frame mac xid).ne_none, (isOffer_decides frame mac xid).eq_true_iff⟩

/-! ## One changed byte -/

section Changed

variable {header datagram trailer header' datagram' trailer' : List UInt8}
  {mac mac' : Mac} {xid xid' : UInt32} {j : ℕ} {b : UInt8}

theorem dvd_of_onesSum {bytes : List UInt8} (h : onesSum (words bytes) = 0xffff) :
    65535 ∣ (words bytes).sum :=
  ((finish_eq_zero_iff _).mp ((onesSum_words_iff bytes).mp h)).2

/-- The header of the changed packet ends where the old one does. -/
theorem header_changed (h : Ipv4Offer header datagram) (h' : Ipv4Offer header' datagram')
    (hj : 1 ≤ j ∧ j < header.length)
    (hsame : (header ++ datagram ++ trailer).set j b = header' ++ datagram' ++ trailer') :
    header' = header.set j b := by
  have hfive := h'.five_words
  rw [List.append_assoc, List.set_append_left _ _ hj.2, List.append_assoc] at hsame
  have hfirst : (header.set j b).getD 0 0 = header'.getD 0 0 := by
    have hfront : (header.set j b ++ (datagram ++ trailer)).getD 0 0 =
        (header.set j b).getD 0 0 := getD_append_left (by rw [List.length_set]; omega)
    rw [← hfront, hsame, getD_append_left (by omega)]
  have hunchanged : (header.set j b).getD 0 0 = header.getD 0 0 := by
    simp only [List.getD_eq_getElem?_getD, List.getElem?_set_ne (show j ≠ 0 by omega)]
  have hlength : (header.set j b).length = header'.length := by
    rw [List.length_set, h.length_eq, h'.length_eq, ← hfirst, hunchanged]
  exact (List.append_inj hsame hlength).1.symm

theorem header_detects (h : Ipv4Offer header datagram) (h' : Ipv4Offer header' datagram')
    (hj : 1 ≤ j ∧ j < header.length) (hb : b ≠ header[j]) :
    (header ++ datagram ++ trailer).set j b ≠ header' ++ datagram' ++ trailer' := by
  intro hsame
  have hchecksum := h'.checksum
  rw [header_changed h h' hj hsame] at hchecksum
  have hold := dvd_of_onesSum h.checksum
  have hnew := dvd_of_onesSum hchecksum
  rw [← Nat.zero_add (List.sum _)] at hold hnew
  exact Checksums.not_dvd_of_set hj.2 hb hold hnew

theorem datagram_detects (h : Ipv4Offer header datagram)
    (hudp : UdpOffer mac xid header datagram) (h' : Ipv4Offer header' datagram')
    (hudp' : UdpOffer mac' xid' header' datagram') (hfield : be16At datagram 6 ≠ 0)
    (hj : j < datagram.length) (hother : j ≠ 6 ∧ j ≠ 7) (hb : b ≠ datagram[j]) :
    (header ++ datagram ++ trailer).set (header.length + j) b ≠
      header' ++ datagram' ++ trailer' := by
  intro hsame
  have hset : (header ++ datagram ++ trailer).set (header.length + j) b =
      header ++ datagram.set j b ++ trailer := by
    rw [List.append_assoc, List.set_append_right _ _ (by omega), Nat.add_sub_cancel_left,
      List.set_append_left _ _ hj, List.append_assoc]
  have hlengths : Ipv4Lengths header (datagram.set j b) :=
    { h.lengths with total := by rw [List.length_set]; exact h.total }
  obtain ⟨rfl, rfl⟩ := hlengths.unique h'.lengths (hset.symm.trans hsame)
  have hunchanged : be16At (datagram.set j b) 6 = be16At datagram 6 := by
    simp only [be16At, List.getD_eq_getElem?_getD, List.getElem?_set_ne hother.1,
      List.getElem?_set_ne hother.2]
  have hword := be16At_lt datagram 4
  rw [hudp.length_eq] at hword
  have hold := dvd_of_onesSum (hudp.checksum.resolve_left hfield)
  have hnew := dvd_of_onesSum (hudp'.checksum.resolve_left (by rwa [hunchanged]))
  rw [sum_words_pseudoHeader h.five_words hword] at hold
  rw [sum_words_pseudoHeader h.five_words (by rwa [List.length_set]),
    List.length_set] at hnew
  exact Checksums.not_dvd_of_set hj hb hold hnew

end Changed

theorem getD_drop (bytes : List UInt8) (n i : ℕ) :
    (bytes.drop n).getD i 0 = bytes.getD (n + i) 0 := by
  simp only [List.getD_eq_getElem?_getD, List.getElem?_drop]

/-- What an accepted frame is made of, where the bytes of the frame are. -/
theorem accepted_parts {frame : List UInt8} {mac : Mac} {xid : UInt32}
    (haccepted : isOffer frame mac xid = some true) :
    ∃ header datagram trailer, frame.drop 14 = header ++ datagram ++ trailer ∧
      Ipv4Offer header datagram ∧ UdpOffer mac xid header datagram ∧
      14 ≤ frame.length := by
  have hoffer := (isOffer_decides frame mac xid).eq_true_iff.mp haccepted
  have hlong : 14 ≤ frame.length := by
    obtain ⟨-, target, source, header, datagram, trailer, rfl, htarget, hsource, -⟩ := hoffer
    simp [length_target htarget, hsource]
    omega
  obtain ⟨-, -, -, header, datagram, trailer, hpacket, hheader, hudp⟩ :=
    (isOffer_iff_slices hlong mac xid).mp hoffer
  rw [slice, List.take_length] at hpacket
  exact ⟨header, datagram, trailer, hpacket, hheader, hudp, hlong⟩

theorem rejected_of_packets {frame : List UInt8} {mac : Mac} {xid : UInt32}
    (hpackets : ∀ header datagram trailer, frame.drop 14 = header ++ datagram ++ trailer →
      Ipv4Offer header datagram → ¬UdpOffer mac xid header datagram) :
    isOffer frame mac xid = some false := by
  rw [(isOffer_decides frame mac xid).eq_false_iff,
    ← (isOffer_decides frame mac xid).eq_true_iff]
  intro haccepted
  obtain ⟨header, datagram, trailer, hpacket, hheader, hudp, -⟩ := accepted_parts haccepted
  exact hpackets header datagram trailer hpacket hheader hudp

theorem corrupted_offer_rejected {frame : List UInt8} {mac : Mac} {xid : UInt32}
    (haccepted : isOffer frame mac xid = some true) :
    let ihl := (frame.getD 14 0).toNat % 16 * 4
    let total := be16At frame 16
    (∀ i b mac' xid', 14 < i → i < 14 + ihl → b ≠ frame.getD i 0 →
        isOffer (frame.set i b) mac' xid' = some false) ∧
      (be16At frame (14 + ihl + 6) ≠ 0 →
        ∀ i b mac' xid', 14 + ihl ≤ i → i < 14 + total → i ≠ 14 + ihl + 6 →
          i ≠ 14 + ihl + 7 → b ≠ frame.getD i 0 →
          isOffer (frame.set i b) mac' xid' = some false) := by
  obtain ⟨header, datagram, trailer, hpacket, hheader, hudp, hlong⟩ :=
    accepted_parts haccepted
  have hfive := hheader.five_words
  have hdatagram := hudp.long
  -- Bytes of the frame are bytes of the packet, fourteen positions on.
  have hread : ∀ i, frame.getD (14 + i) 0 = (header ++ (datagram ++ trailer)).getD i 0 := by
    intro i
    rw [← getD_drop, hpacket, List.append_assoc]
  have hset : ∀ j b, (frame.set (14 + j) b).drop 14 =
      (header ++ datagram ++ trailer).set j b := by
    intro j b
    rw [List.drop_set, if_neg (by omega), Nat.add_sub_cancel_left, hpacket]
  have hihl : (frame.getD 14 0).toNat % 16 * 4 = header.length := by
    rw [hread 0, getD_append_left (by omega), hheader.length_eq]
  have htotal : be16At frame 16 = header.length + datagram.length := by
    rw [be16At, hread 2, hread 3, ← hheader.total, ← be16At, be16At_append_left (by omega)]
  intro ihl total
  have hihl : ihl = header.length := hihl
  have htotal : total = header.length + datagram.length := htotal
  constructor
  · intro i b mac' xid' hlow hhigh hb
    obtain ⟨j, rfl⟩ : ∃ j, i = 14 + j := ⟨i - 14, by omega⟩
    have hj : 1 ≤ j ∧ j < header.length := by omega
    have hbyte : frame.getD (14 + j) 0 = header[j] := by
      rw [hread, getD_append_left hj.2]
      simp [hj.2]
    apply rejected_of_packets
    intro header' datagram' trailer' hsame hheader' _
    exact header_detects hheader hheader' hj (hbyte ▸ hb) ((hset j b).symm.trans hsame)
  · intro hfield i b mac' xid' hlow hhigh h6 h7 hb
    obtain ⟨j, rfl⟩ : ∃ j, i = 14 + (header.length + j) :=
      ⟨i - 14 - header.length, by omega⟩
    have hj : j < datagram.length := by omega
    have hinside : ∀ k, k < datagram.length →
        frame.getD (14 + (header.length + k)) 0 = datagram.getD k 0 := by
      intro k hk
      rw [hread, List.getD_eq_getElem?_getD, List.getElem?_append_right (by omega),
        Nat.add_sub_cancel_left, List.getElem?_append_left hk, List.getD_eq_getElem?_getD]
    have hbyte : frame.getD (14 + (header.length + j)) 0 = datagram[j] := by
      rw [hinside j hj]
      simp [hj]
    have hnonzero : be16At datagram 6 ≠ 0 := by
      rw [be16At, ← hinside 6 (by omega), ← hinside 7 (by omega)]
      rw [hihl, Nat.add_assoc] at hfield
      exact hfield
    apply rejected_of_packets
    intro header' datagram' trailer' hsame hheader' hudp'
    exact datagram_detects hheader hudp hheader' hudp' hnonzero hj
      ⟨by omega, by omega⟩ (hbyte ▸ hb) ((hset _ b).symm.trans hsame)

/-! ## One offer -/

def offeredMac : Mac := ⟨2, 1, 2, 3, 4, 5⟩

def offerHeader : List UInt8 :=
  [69, 0, 1, 22, 0, 0, 0, 0, 64, 17, 155, 46, 192, 168, 30, 1, 255, 255, 255, 255]

def offerEntries : List OptionEntry :=
  [.value 53 [2], .value 54 [192, 168, 30, 1]]

/-- A server at 192.168.30.1 offers 192.168.30.50. -/
def offerDatagram : List UInt8 :=
  [0, 67, 0, 68, 1, 2, 142, 212] ++ [2, 1, 6, 0, 1, 2, 3, 4] ++ List.replicate 8 0 ++
    [192, 168, 30, 50] ++ List.replicate 8 0 ++ offeredMac.toList ++
    List.replicate 202 0 ++ cookie ++ (offerEntries.flatMap OptionEntry.bytes ++ [255])

def offerFrame : List UInt8 :=
  List.replicate 6 255 ++ [2, 9, 8, 7, 6, 5] ++ [8, 0] ++ (offerHeader ++ offerDatagram ++ [])

theorem offerFrame_isOffer : IsOffer offerFrame offeredMac 0x01020304 := by
  refine ⟨by decide, _, _, _, _, _, rfl, .inr rfl, rfl, ?_, ?_⟩
  · constructor
    case source => exact ⟨192, 168, 30, 1, by decide +kernel⟩
    all_goals decide +kernel
  · constructor
    case bootp =>
      constructor
      case offered => exact ⟨192, 168, 30, 50, by decide +kernel⟩
      case options =>
        refine ⟨offerEntries, [], by decide +kernel, ?_, by decide +kernel,
          [192, 168, 30, 1], by decide +kernel, 192, 168, 30, 1, by decide +kernel⟩
        simp [offerEntries, OptionEntry.Complete]
      all_goals decide +kernel
    all_goals decide +kernel

theorem isOffer_offerFrame : isOffer offerFrame offeredMac 0x01020304 = some true :=
  (isOffer_decides _ _ _).eq_true_iff.mpr offerFrame_isOffer

theorem corrupted_offerFrame_rejected :
    let ihl := (offerFrame.getD 14 0).toNat % 16 * 4
    let total := be16At offerFrame 16
    (∀ i b mac' xid', 14 < i → i < 14 + ihl → b ≠ offerFrame.getD i 0 →
        isOffer (offerFrame.set i b) mac' xid' = some false) ∧
      (be16At offerFrame (14 + ihl + 6) ≠ 0 →
        ∀ i b mac' xid', 14 + ihl ≤ i → i < 14 + total → i ≠ 14 + ihl + 6 →
          i ≠ 14 + ihl + 7 → b ≠ offerFrame.getD i 0 →
          isOffer (offerFrame.set i b) mac' xid' = some false) :=
  corrupted_offer_rejected isOffer_offerFrame

end DhcpProbe
end AutoIp
end PicoFi
