import Mathlib.Data.PNat.Basic
import PicoFi.ConfigCommands
import PicoFi.ConfigText

/-!
# Commands written by the configuration printer

The shell reads back the numbers and addresses the summary prints.  A digit
loop stores the digits in reverse, and the reader folds them from the front;
the line is split at runs of spaces and its tokens are split at dots and at the
slash.
-/

namespace PicoFi

open BoundedText Buffer

/-! ## The digit loops -/

/-- The loop of `push_u8` and `push_u16` with that many digits left in its
array; `none` is an index past the array. -/
def storeDigits : ℕ → ℕ → Option (List UInt8)
  | 0, _ => none
  | room + 1, n =>
      let digit := UInt8.ofNat (48 + n % 10)
      if n / 10 = 0 then some [digit]
      else (storeDigits room (n / 10)).map (digit :: ·)

/-- The second loop pushes the stored digits from the last one down. -/
def pushDigits? (room : ℕ) (out : List UInt8) (value : ℕ) : Option (List UInt8) :=
  (storeDigits room value).map fun digits => pushChars configTextMax out digits.reverse

theorem storeDigits_eq {room n : ℕ} (hroom : decimalWidth n ≤ room) :
    storeDigits room n = some (decimalDigits n).reverse := by
  induction room generalizing n with
  | zero =>
      rw [decimalWidth] at hroom
      omega
  | succ room ih =>
      rw [storeDigits, decimalDigits]
      by_cases hsmall : n < 10
      · have hdigit : n % 10 = n := Nat.mod_eq_of_lt hsmall
        rw [if_pos (Nat.div_eq_of_lt hsmall), if_pos hsmall, hdigit, List.reverse_singleton]
      · have hrest : n / 10 ≠ 0 := by omega
        have hwidth : decimalWidth (n / 10) ≤ room := by
          rw [decimalWidth, Nat.log_of_one_lt_of_le (by decide) (not_lt.mp hsmall)] at hroom
          rw [decimalWidth]
          omega
        rw [if_neg hrest, if_neg hsmall, ih hwidth, Option.map_some, List.reverse_append,
          List.reverse_singleton, List.singleton_append]

theorem pushDigits?_eq {room value : ℕ} (hroom : decimalWidth value ≤ room)
    (out : List UInt8) :
    pushDigits? room out value = some (pushChars configTextMax out (decimalDigits value)) := by
  rw [pushDigits?, storeDigits_eq hroom, Option.map_some, List.reverse_reverse]

/-- `push_u8` with its array of three digits. -/
def pushU8? (out : List UInt8) (value : UInt8) : Option (List UInt8) :=
  pushDigits? 3 out value.toNat

/-- `push_u16` with its array of five digits. -/
def pushU16? (out : List UInt8) (value : UInt16) : Option (List UInt8) :=
  pushDigits? 5 out value.toNat

def pushIpv4? (out : List UInt8) (ip : Ipv4) : Option (List UInt8) := do
  let out ← pushU8? out ip.o0
  let out ← pushU8? (pushChars configTextMax out (ascii ".")) ip.o1
  let out ← pushU8? (pushChars configTextMax out (ascii ".")) ip.o2
  pushU8? (pushChars configTextMax out (ascii ".")) ip.o3

/-- Three digits are enough for every byte. -/
theorem pushU8?_eq (out : List UInt8) (value : UInt8) :
    pushU8? out value = some (pushU8 out value) :=
  pushDigits?_eq (decimalWidth_le (by decide) (value.toNat_lt.trans (by decide))) out

theorem pushU16?_eq (out : List UInt8) (value : UInt16) :
    pushU16? out value = some (pushU16 out value) :=
  pushDigits?_eq (decimalWidth_le (by decide) (value.toNat_lt.trans (by decide))) out

theorem pushIpv4?_eq (out : List UInt8) (ip : Ipv4) :
    pushIpv4? out ip = some (pushIpv4 out ip) := by
  simp only [pushIpv4?, pushU8?_eq, Option.bind_eq_bind, Option.bind_some, pushIpv4]

/-! ## Numbers read back -/

theorem toNat_digit {d : ℕ} (hd : d < 10) : (UInt8.ofNat (48 + d)).toNat = 48 + d :=
  UInt8.toNat_ofNat_of_lt' (by rw [UInt8.size]; omega)

theorem mem_decimalDigits {n : ℕ} {b : UInt8} (hb : b ∈ decimalDigits n) :
    48 ≤ b ∧ b ≤ 57 := by
  have hdigit : ∀ d < 10, 48 ≤ UInt8.ofNat (48 + d) ∧ UInt8.ofNat (48 + d) ≤ 57 := by
    decide
  induction n using Nat.strong_induction_on with
  | h n ih =>
      rw [decimalDigits] at hb
      split at hb
      next hsmall =>
        rw [List.mem_singleton.mp hb]
        exact hdigit n hsmall
      next hlarge =>
        cases List.mem_append.mp hb with
        | inl hfront => exact ih (n / 10) (by omega) hfront
        | inr hlast =>
            rw [List.mem_singleton.mp hlast]
            exact hdigit (n % 10) (Nat.mod_lt n (by decide))

theorem decimalDigits_ne_nil (n : ℕ) : decimalDigits n ≠ [] := by
  rw [← List.length_pos_iff, length_decimalDigits, decimalWidth]
  omega

theorem parseDigit_digit {max value d : ℕ} (hd : d < 10) (hmax : value * 10 + d ≤ max) :
    parseDigit max value (UInt8.ofNat (48 + d)) = some (value * 10 + d) := by
  have hrange : 48 ≤ UInt8.ofNat (48 + d) ∧ UInt8.ofNat (48 + d) ≤ 57 := by
    simp only [UInt8.le_iff_toNat_le, toNat_digit hd]
    exact ⟨Nat.le_add_right 48 d, by change 48 + d ≤ 57; omega⟩
  have hdigit : (UInt8.ofNat (48 + d)).toNat - 48 = d := by
    rw [toNat_digit hd, Nat.add_sub_cancel_left]
  simp only [parseDigit, if_pos hrange, hdigit, if_pos hmax]

/-- Every front of the digits is the number without its last digits, so no
step leaves the type. -/
theorem foldlM_decimalDigits {max n : ℕ} (hn : n ≤ max) :
    (decimalDigits n).foldlM (parseDigit max) 0 = some n := by
  induction n using Nat.strong_induction_on with
  | h n ih =>
      rw [decimalDigits]
      split
      next hsmall =>
        have hstep := @parseDigit_digit max 0 n hsmall (by omega)
        rw [Nat.zero_mul, Nat.zero_add] at hstep
        simp only [List.foldlM_cons, List.foldlM_nil, hstep]
        rfl
      next hlarge =>
        have hfront := ih (n / 10) (by omega) (by omega)
        have hvalue : n / 10 * 10 + n % 10 = n := Nat.div_add_mod' n 10
        have hstep := @parseDigit_digit max (n / 10) (n % 10)
          (Nat.mod_lt n (by decide)) (by omega)
        rw [hvalue] at hstep
        simp only [List.foldlM_append, hfront, List.foldlM_cons, List.foldlM_nil,
          Option.bind_eq_bind, Option.bind_some, hstep]
        rfl

/-- The digits carry no sign. -/
theorem parseUnsigned_decimalDigits {max n : ℕ} (hn : n ≤ max) :
    parseUnsigned max (decimalDigits n) = some n := by
  have hsign : (decimalDigits n).head? ≠ some 43 := by
    intro hhead
    have hrange := mem_decimalDigits (List.mem_of_head? hhead)
    exact absurd hrange.1 (by decide)
  have hempty : (decimalDigits n).isEmpty = false := by
    rw [List.isEmpty_eq_false_iff]
    exact decimalDigits_ne_nil n
  simp only [parseUnsigned, if_neg hsign, hempty, Bool.false_eq_true, if_false]
  exact foldlM_decimalDigits hn

theorem parsePort_decimalDigits (port : UInt16) :
    parsePort (decimalDigits port.toNat) = .ok port := by
  have hparse := @parseUnsigned_decimalDigits 65535 port.toNat (Nat.le_of_lt_succ port.toNat_lt)
  simp only [parsePort, hparse, UInt16.ofNat_toNat]

/-! ## Addresses read back -/

theorem ascii_dot : ascii "." = [46] := by decide

theorem ascii_slash : ascii "/" = [47] := by decide

theorem not_mem_decimalDigits {n : ℕ} {b : UInt8} (hb : b < 48) : b ∉ decimalDigits n :=
  fun hmem => UInt8.not_le.mpr hb (mem_decimalDigits hmem).1

theorem splitOn_ipv4Text (ip : Ipv4) :
    (ipv4Text ip).splitOn 46 = [decimalDigits ip.o0.toNat, decimalDigits ip.o1.toNat,
      decimalDigits ip.o2.toNat, decimalDigits ip.o3.toNat] := by
  have hdot : ∀ n : ℕ, (46 : UInt8) ∉ decimalDigits n := fun _ =>
    not_mem_decimalDigits (by decide)
  simp only [ipv4Text, ascii_dot, List.append_assoc, List.cons_append, List.nil_append]
  rw [List.splitOn_append_cons_self_of_not_mem (hdot _),
    List.splitOn_append_cons_self_of_not_mem (hdot _),
    List.splitOn_append_cons_self_of_not_mem (hdot _), List.splitOn_eq_singleton (hdot _)]

theorem parseOctets_decimalDigits {front : List UInt8} (octet : UInt8)
    (hfront : front.length < 4) (chunks : List (List UInt8)) :
    parseOctets (decimalDigits octet.toNat :: chunks) front.length (FixedBytes.padded front) =
      parseOctets chunks (front.length + 1) (FixedBytes.padded (front ++ [octet])) := by
  have hparse := @parseUnsigned_decimalDigits 255 octet.toNat (Nat.le_of_lt_succ octet.toNat_lt)
  have hwrite := @FixedBytes.write?_padded 4 front [octet] (by
    rw [List.length_singleton]
    omega)
  simp only [parseOctets, if_neg (not_le.mpr hfront), hparse, UInt8.ofNat_toNat, hwrite]

theorem parseIpv4_ipv4Text (ip : Ipv4) : parseIpv4 (ipv4Text ip) = .ok ip := by
  have h0 := @parseOctets_decimalDigits [] ip.o0 (by simp)
  have h1 := @parseOctets_decimalDigits [ip.o0] ip.o1 (by simp)
  have h2 := @parseOctets_decimalDigits [ip.o0, ip.o1] ip.o2 (by simp)
  have h3 := @parseOctets_decimalDigits [ip.o0, ip.o1, ip.o2] ip.o3 (by simp)
  simp only [List.length_nil, List.length_cons, List.nil_append, List.cons_append]
    at h0 h1 h2 h3
  rw [parseIpv4, splitOn_ipv4Text, h0, h1, h2, h3]
  rfl

theorem splitOnce_of_not_mem {separator : UInt8} {front : List UInt8}
    (hfront : separator ∉ front) (back : List UInt8) :
    splitOnce separator (front ++ separator :: back) = some (front, back) := by
  have hne : ∀ b ∈ front, (b != separator) = true := by
    intro b hb
    rw [bne_iff_ne]
    rintro rfl
    exact hfront hb
  have hstop : (separator != separator) = false := bne_self_eq_false separator
  have hdrop : (front ++ separator :: back).dropWhile (· != separator) = separator :: back := by
    rw [List.dropWhile_append_of_pos hne, List.dropWhile_cons_of_neg (by simp)]
  have htake : (front ++ separator :: back).takeWhile (· != separator) = front := by
    rw [List.takeWhile_append_of_pos hne, List.takeWhile_cons_of_neg (by simp),
      List.append_nil]
  simp only [splitOnce, hdrop, htake]

/-! ## The written tokens -/

/-- The first form `a.b.c.d/p` of the static command. -/
def pushCidr (out : List UInt8) (ipv4 : Ipv4Config) : List UInt8 :=
  pushU8 (pushChars configTextMax (pushIpv4 out ipv4.address) (ascii "/")) ipv4.prefixLen

def pushCidr? (out : List UInt8) (ipv4 : Ipv4Config) : Option (List UInt8) := do
  let out ← pushIpv4? out ipv4.address
  pushU8? (pushChars configTextMax out (ascii "/")) ipv4.prefixLen

theorem pushCidr?_eq (out : List UInt8) (ipv4 : Ipv4Config) :
    pushCidr? out ipv4 = some (pushCidr out ipv4) := by
  simp only [pushCidr?, pushIpv4?_eq, pushU8?_eq, Option.bind_eq_bind, Option.bind_some,
    pushCidr]

theorem pushChars_nil {text : List UInt8} (htext : text.length ≤ configTextMax) :
    pushChars configTextMax [] text = text := by
  have hfits : Fits configTextMax [] (characters text).flatten := by
    rw [Fits, flatten_characters, List.length_nil, Nat.zero_add]
    exact htext
  rw [pushChars_eq_appendAll, appendAll_of_fits hfits, flatten_characters, List.nil_append]

theorem pushIpv4_nil (ip : Ipv4) : pushIpv4 [] ip = ipv4Text ip := by
  rw [pushIpv4_eq_pushChars, pushChars_nil]
  rw [length_ipv4Text]
  exact (ipv4Width_le ip).trans (by decide)

theorem pushU16_nil (value : UInt16) : pushU16 [] value = decimalDigits value.toNat := by
  rw [pushU16, pushChars_nil]
  rw [length_decimalDigits]
  exact (decimalWidth_le (k := 5) (by decide)
    (value.toNat_lt.trans (by decide))).trans (by decide)

theorem pushCidr_nil (ipv4 : Ipv4Config) :
    pushCidr [] ipv4 =
      ipv4Text ipv4.address ++ 47 :: decimalDigits ipv4.prefixLen.toNat := by
  have haddress := ipv4Width_le ipv4.address
  have hbound : decimalWidth ipv4.prefixLen.toNat ≤ 3 :=
    decimalWidth_le (by decide) (ipv4.prefixLen.toNat_lt.trans (by decide))
  rw [pushCidr, pushU8, pushIpv4_eq_pushChars, pushChars_pushChars, pushChars_pushChars,
    ascii_slash, List.singleton_append, pushChars_nil]
  simp only [List.length_append, List.length_cons, length_ipv4Text, length_decimalDigits,
    configTextMax]
  omega

/-- A byte of an address or a number is a dot or a digit. -/
theorem mem_ipv4Text {ip : Ipv4} {b : UInt8} (hb : b ∈ ipv4Text ip) :
    b = 46 ∨ 48 ≤ b ∧ b ≤ 57 := by
  simp only [ipv4Text, ascii_dot, List.mem_append, List.mem_singleton] at hb
  rcases hb with ((((((h | h) | h) | h) | h) | h) | h)
  all_goals first | exact .inl h | exact .inr (mem_decimalDigits h)

theorem parseStatic_written {ipv4 : Ipv4Config} (hbound : ipv4.prefixLen.toNat ≤ 32) :
    parseStatic (pushCidr [] ipv4) (pushIpv4 [] ipv4.gateway) (pushIpv4 [] ipv4.dns) =
      .ok ipv4 := by
  have hslash : (47 : UInt8) ∉ ipv4Text ipv4.address := by
    intro hmem
    rcases mem_ipv4Text hmem with hdot | hdigit
    · exact absurd hdot (by decide)
    · exact absurd hdigit.1 (by decide)
  have hlength := @parseUnsigned_decimalDigits 255 ipv4.prefixLen.toNat (by omega)
  rw [pushCidr_nil, pushIpv4_nil, pushIpv4_nil]
  simp only [parseStatic, splitOnce_of_not_mem hslash, hlength, if_neg (not_lt.mpr hbound),
    parseIpv4_ipv4Text, UInt8.ofNat_toNat]
  rfl

/-! ## The line -/

def spaces (gap : ℕ+) : List UInt8 := List.replicate gap 32

/-- A line of tokens with a gap of spaces before each but the first. -/
def spacedLine (first : List UInt8) (rest : List (ℕ+ × List UInt8)) : List UInt8 :=
  first ++ rest.flatMap fun entry => spaces entry.1 ++ entry.2

/-- The bytes of a token lie above the space. -/
structure IsToken (token : List UInt8) : Prop where
  ne_nil : token ≠ []
  above_space : ∀ b ∈ token, 32 < b

theorem isTrimmed_of_above_space {b : UInt8} (hb : 32 < b) : isTrimmed b = false := by
  have htrim : ∀ n : Fin 256, 32 < n.val → isTrimmed (UInt8.ofFin n) = false := by
    decide +kernel
  exact htrim b.toFin hb

theorem isAsciiWhitespace_of_above_space {b : UInt8} (hb : 32 < b) :
    isAsciiWhitespace b = false := by
  have hspace : ∀ n : Fin 256, 32 < n.val → isAsciiWhitespace (UInt8.ofFin n) = false := by
    decide +kernel
  exact hspace b.toFin hb

theorem IsToken.trim_eq {token : List UInt8} (htoken : IsToken token) :
    trim token = token := by
  have hkeep : ∀ bytes : List UInt8, (∀ b ∈ bytes, 32 < b) →
      bytes.dropWhile isTrimmed = bytes := by
    intro bytes hbytes
    cases bytes with
    | nil => rfl
    | cons b bytes =>
        have hhead := isTrimmed_of_above_space (hbytes b List.mem_cons_self)
        rw [List.dropWhile_cons_of_neg (by rw [hhead]; exact Bool.false_ne_true)]
  have hreverse : ∀ b ∈ token.reverse, 32 < b := fun b hb =>
    htoken.above_space b (List.mem_reverse.mp hb)
  rw [trim, hkeep token htoken.above_space, hkeep token.reverse hreverse,
    List.reverse_reverse]

theorem splitAsciiWhitespace_space (line : List UInt8) :
    splitAsciiWhitespace (32 :: line) = splitAsciiWhitespace line := by
  have hsplit : (32 :: line).splitOnP isAsciiWhitespace =
      [] :: line.splitOnP isAsciiWhitespace :=
    @List.splitOnP_append_cons_of_forall_mem _ isAsciiWhitespace [] (by simp) 32 rfl line
  rw [splitAsciiWhitespace, hsplit]
  rfl

theorem splitAsciiWhitespace_replicate (gap : ℕ) (line : List UInt8) :
    splitAsciiWhitespace (List.replicate gap 32 ++ line) = splitAsciiWhitespace line := by
  induction gap with
  | zero => rfl
  | succ gap ih =>
      rw [List.replicate_succ, List.cons_append, splitAsciiWhitespace_space, ih]

theorem IsToken.filter_cons {token : List UInt8} (htoken : IsToken token)
    (tokens : List (List UInt8)) :
    (token :: tokens).filter (fun token => !token.isEmpty) =
      token :: tokens.filter fun token => !token.isEmpty := by
  have hempty : (!token.isEmpty) = true := by
    rw [Bool.not_eq_true', List.isEmpty_eq_false_iff]
    exact htoken.ne_nil
  exact List.filter_cons_of_pos hempty

theorem splitAsciiWhitespace_token {token : List UInt8} (htoken : IsToken token) :
    splitAsciiWhitespace token = [token] := by
  rw [splitAsciiWhitespace, List.splitOnP_eq_singleton fun b hb =>
    isAsciiWhitespace_of_above_space (htoken.above_space b hb),
    htoken.filter_cons, List.filter_nil]

theorem splitAsciiWhitespace_token_space {token : List UInt8} (htoken : IsToken token)
    (line : List UInt8) :
    splitAsciiWhitespace (token ++ 32 :: line) = token :: splitAsciiWhitespace line := by
  have hclear : ∀ b ∈ token, isAsciiWhitespace b = false := fun b hb =>
    isAsciiWhitespace_of_above_space (htoken.above_space b hb)
  rw [splitAsciiWhitespace, List.splitOnP_append_cons_of_forall_mem hclear 32 rfl,
    htoken.filter_cons, splitAsciiWhitespace]

/-- The tokens of a spaced line are the ones it was made of. -/
theorem splitAsciiWhitespace_spacedLine {first : List UInt8}
    {rest : List (ℕ+ × List UInt8)} (hfirst : IsToken first)
    (hrest : ∀ entry ∈ rest, IsToken entry.2) :
    splitAsciiWhitespace (spacedLine first rest) = first :: rest.map Prod.snd := by
  induction rest generalizing first with
  | nil =>
      rw [spacedLine, List.flatMap_nil, List.append_nil, splitAsciiWhitespace_token hfirst,
        List.map_nil]
  | cons entry rest ih =>
      have hline : spacedLine first (entry :: rest) =
          first ++ 32 :: (List.replicate (entry.1.natPred) 32 ++
            spacedLine entry.2 rest) := by
        rw [spacedLine, List.flatMap_cons, spaces, ← PNat.natPred_add_one,
          List.replicate_succ]
        simp only [spacedLine, List.cons_append, List.append_assoc]
      rw [hline, splitAsciiWhitespace_token_space hfirst, splitAsciiWhitespace_replicate,
        ih (hrest entry List.mem_cons_self) fun next hnext =>
          hrest next (List.mem_cons_of_mem entry hnext),
        List.map_cons]

/-! ## The commands -/

/-- A command word that no command without arguments has in its place. -/
theorem fixedCommand_eq_none {word : List UInt8}
    (hword : ∀ entry ∈ fixedCommands, (entry.1.map ascii)[1]? ≠ some word)
    (args : List (List UInt8)) : fixedCommand (ascii "set" :: word :: args) = none := by
  rw [fixedCommand, Option.map_eq_none_iff, List.find?_eq_none]
  intro entry hentry heq
  apply hword entry hentry
  rw [beq_iff_eq.mp heq]
  rfl

/-- A line of at most eight tokens that is no command without arguments. -/
theorem parseCommand_spacedLine {word : List UInt8} {rest : List (ℕ+ × List UInt8)}
    {gap : ℕ+} (hword : ∀ entry ∈ fixedCommands, (entry.1.map ascii)[1]? ≠ some word)
    (htokens : ∀ entry ∈ (gap, word) :: rest, IsToken entry.2) (hfew : rest.length ≤ 6) :
    parseCommand (spacedLine (ascii "set") ((gap, word) :: rest)) =
      parseArguments (ascii "set" :: word :: rest.map Prod.snd) := by
  have hset : IsToken (ascii "set") := ⟨by decide, by decide⟩
  have hsplit := splitAsciiWhitespace_spacedLine hset htokens
  have hall : ∀ token ∈ ascii "set" :: ((gap, word) :: rest).map Prod.snd,
      trim token = token := by
    intro token hmem
    cases List.mem_cons.mp hmem with
    | inl hhead =>
        rw [hhead]
        exact hset.trim_eq
    | inr htail =>
        obtain ⟨entry, hentry, rfl⟩ := List.mem_map.mp htail
        exact (htokens entry hentry).trim_eq
  have htrim : (ascii "set" :: ((gap, word) :: rest).map Prod.snd).map trim =
      ascii "set" :: word :: rest.map Prod.snd :=
    (List.map_congr_left hall).trans (List.map_id _)
  have hcount : ¬maxTokens < (ascii "set" :: ((gap, word) :: rest).map Prod.snd).length := by
    simp only [List.length_cons, List.length_map, maxTokens]
    omega
  simp only [parseCommand, hsplit, if_neg hcount, List.isEmpty_cons, Bool.false_eq_true,
    if_false, htrim, fixedCommand_eq_none hword]

theorem isToken_decimalDigits (n : ℕ) : IsToken (decimalDigits n) where
  ne_nil := decimalDigits_ne_nil n
  above_space _ hb := UInt8.lt_of_lt_of_le (by decide) (mem_decimalDigits hb).1

theorem isToken_ipv4Text (ip : Ipv4) : IsToken (ipv4Text ip) where
  ne_nil := by
    rw [← List.length_pos_iff, length_ipv4Text, ipv4Width]
    omega
  above_space b hb := by
    rcases mem_ipv4Text hb with rfl | hdigit
    · decide
    · exact UInt8.lt_of_lt_of_le (by decide) hdigit.1

theorem isToken_pushCidr (ipv4 : Ipv4Config) : IsToken (pushCidr [] ipv4) where
  ne_nil := by
    rw [pushCidr_nil]
    simp
  above_space b hb := by
    rw [pushCidr_nil] at hb
    rcases List.mem_append.mp hb with haddress | hrest
    · exact (isToken_ipv4Text ipv4.address).above_space b haddress
    · rcases List.mem_cons.mp hrest with rfl | hdigit
      · decide
      · exact (isToken_decimalDigits _).above_space b hdigit

/-- `set static a.b.c.d/p gw dns` -/
def staticLine? (ipv4 : Ipv4Config) (g₁ g₂ g₃ g₄ : ℕ+) : Option (List UInt8) := do
  let cidr ← pushCidr? [] ipv4
  let gateway ← pushIpv4? [] ipv4.gateway
  let dns ← pushIpv4? [] ipv4.dns
  return spacedLine (ascii "set")
    [(g₁, ascii "static"), (g₂, cidr), (g₃, gateway), (g₄, dns)]

/-- `set client a.b.c.d port` -/
def clientLine? (host : Ipv4) (port : UInt16) (g₁ g₂ g₃ : ℕ+) : Option (List UInt8) := do
  let host ← pushIpv4? [] host
  let port ← pushU16? [] port
  return spacedLine (ascii "set") [(g₁, ascii "client"), (g₂, host), (g₃, port)]

/-- `set server port` -/
def serverLine? (port : UInt16) (g₁ g₂ : ℕ+) : Option (List UInt8) := do
  let port ← pushU16? [] port
  return spacedLine (ascii "set") [(g₁, ascii "server"), (g₂, port)]

theorem parseCommand_staticLine {ipv4 : Ipv4Config} (hbound : ipv4.prefixLen.toNat ≤ 32)
    (g₁ g₂ g₃ g₄ : ℕ+) :
    (staticLine? ipv4 g₁ g₂ g₃ g₄).map parseCommand = some (.ok (.setStatic ipv4)) := by
  have htokens : ∀ entry ∈ [(g₁, ascii "static"), (g₂, pushCidr [] ipv4),
      (g₃, pushIpv4 [] ipv4.gateway), (g₄, pushIpv4 [] ipv4.dns)], IsToken entry.2 := by
    simp only [List.forall_mem_cons, pushIpv4_nil]
    exact ⟨⟨by decide, by decide⟩, isToken_pushCidr ipv4, isToken_ipv4Text _,
      isToken_ipv4Text _, List.forall_mem_nil _⟩
  simp only [staticLine?, pushCidr?_eq, pushIpv4?_eq, Option.bind_eq_bind, Option.bind_some,
    Option.pure_def, Option.map_some]
  rw [parseCommand_spacedLine (by decide) htokens (by simp)]
  simp only [List.map_cons, List.map_nil, parseArguments, and_self, if_true,
    parseStatic_written hbound]
  rfl

theorem parseCommand_clientLine (host : Ipv4) (port : UInt16) (g₁ g₂ g₃ : ℕ+) :
    (clientLine? host port g₁ g₂ g₃).map parseCommand = some (.ok (.setClient host port)) := by
  have htokens : ∀ entry ∈ [(g₁, ascii "client"), (g₂, pushIpv4 [] host),
      (g₃, pushU16 [] port)], IsToken entry.2 := by
    simp only [List.forall_mem_cons, pushIpv4_nil, pushU16_nil]
    exact ⟨⟨by decide, by decide⟩, isToken_ipv4Text host, isToken_decimalDigits _,
      List.forall_mem_nil _⟩
  simp only [clientLine?, pushIpv4?_eq, pushU16?_eq, Option.bind_eq_bind, Option.bind_some,
    Option.pure_def, Option.map_some]
  rw [parseCommand_spacedLine (by decide) htokens (by simp)]
  simp only [List.map_cons, List.map_nil, parseArguments, and_self, if_true, pushIpv4_nil,
    pushU16_nil, parseIpv4_ipv4Text, parsePort_decimalDigits]
  rfl

theorem parseCommand_serverLine (port : UInt16) (g₁ g₂ : ℕ+) :
    (serverLine? port g₁ g₂).map parseCommand = some (.ok (.setServer port)) := by
  have htokens : ∀ entry ∈ [(g₁, ascii "server"), (g₂, pushU16 [] port)],
      IsToken entry.2 := by
    simp only [List.forall_mem_cons, pushU16_nil]
    exact ⟨⟨by decide, by decide⟩, isToken_decimalDigits _, List.forall_mem_nil _⟩
  simp only [serverLine?, pushU16?_eq, Option.bind_eq_bind, Option.bind_some,
    Option.pure_def, Option.map_some]
  rw [parseCommand_spacedLine (by decide) htokens (by simp)]
  simp only [List.map_cons, List.map_nil, parseArguments, and_self, if_true, pushU16_nil,
    parsePort_decimalDigits]
  rfl

/-- No digit loop leaves its array, and the shell reads back every address and
number they write, however wide the gaps between the tokens. -/
theorem parseCommand_written (ipv4 : Ipv4Config) (hbound : ipv4.prefixLen.toNat ≤ 32)
    (host : Ipv4) (port : UInt16) (g₁ g₂ g₃ g₄ : ℕ+) :
    (staticLine? ipv4 g₁ g₂ g₃ g₄).map parseCommand = some (.ok (.setStatic ipv4)) ∧
      (clientLine? host port g₁ g₂ g₃).map parseCommand =
        some (.ok (.setClient host port)) ∧
      (serverLine? port g₁ g₂).map parseCommand = some (.ok (.setServer port)) :=
  ⟨parseCommand_staticLine hbound g₁ g₂ g₃ g₄, parseCommand_clientLine host port g₁ g₂ g₃,
    parseCommand_serverLine port g₁ g₂⟩

/-- An address with zeros and digit boundaries, gaps of one and two spaces. -/
def boundaryConfig : Ipv4Config where
  address := ⟨10, 0, 100, 255⟩
  prefixLen := 32
  gateway := Ipv4.zero
  dns := ⟨9, 99, 199, 200⟩

theorem parseCommand_written_boundary :
    (staticLine? boundaryConfig 1 2 1 2).map parseCommand =
        some (.ok (.setStatic boundaryConfig)) ∧
      (clientLine? ⟨10, 0, 0, 100⟩ 65535 1 2 1).map parseCommand =
        some (.ok (.setClient ⟨10, 0, 0, 100⟩ 65535)) ∧
      (serverLine? 65535 1 2).map parseCommand = some (.ok (.setServer 65535)) :=
  parseCommand_written boundaryConfig (by decide) ⟨10, 0, 0, 100⟩ 65535 1 2 1 2

end PicoFi
