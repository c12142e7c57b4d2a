import PicoFi.BridgeFrame
import PicoFi.UartResync

/-!
# Frames of text on a line

A router writes empty frames and frames of text, whose length is a multiple of
four.  So the line is a sequence of words of four bytes, each a header or text.
The first byte of a sync pair occurs at the beginning of a frame only, and what
a reader that has lost the beginning takes for a header has a length over the
limit, except for one case that leaves it as lost as it was.
-/

namespace PicoFi
namespace TextFrames

open Buffer LinkFrame PicoFi.Stream

/-- As the high byte of a length the character is over the limit, and no sync
byte is a character. -/
def IsText (b : UInt8) : Prop := 17 ≤ b.toNat ∧ b.toNat < 165

instance (b : UInt8) : Decidable (IsText b) := inferInstanceAs (Decidable (_ ∧ _))

abbrev lineLimit : ℕ := 4096

structure TextPayload (payload : List UInt8) : Prop where
  text : ∀ b ∈ payload, IsText b
  words : payload.length % 4 = 0
  length_le : payload.length ≤ lineLimit

theorem textPayload_nil : TextPayload [] where
  text := by simp
  words := rfl
  length_le := Nat.zero_le _

def dataFrame (payload : List UInt8) : List UInt8 :=
  framed (reqDataMagic, respDataMagic) payload

def dataFrames (payloads : List (List UInt8)) : List UInt8 := payloads.flatMap dataFrame

@[simp] theorem dataFrames_nil : dataFrames [] = [] := rfl

@[simp] theorem dataFrames_cons (payload : List UInt8) (payloads : List (List UInt8)) :
    dataFrames (payload :: payloads) = dataFrame payload ++ dataFrames payloads := rfl

@[simp] theorem dataFrames_append (front back : List (List UInt8)) :
    dataFrames (front ++ back) = dataFrames front ++ dataFrames back :=
  List.flatMap_append

theorem dataFrame_eq (payload : List UInt8) :
    dataFrame payload = reqDataMagic :: respDataMagic :: UInt8.ofNat payload.length ::
      UInt8.ofNat (payload.length / 256) :: payload := by
  simpa [dataFrame] using framed_append_eq (reqDataMagic, respDataMagic) payload []

@[simp] theorem length_dataFrame (payload : List UInt8) :
    (dataFrame payload).length = 4 + payload.length :=
  length_framed _ payload

/-! ## Words -/

inductive Word : List UInt8 → Prop
  | header (low high : UInt8) (hhigh : high.toNat ≤ 16) :
      Word [reqDataMagic, respDataMagic, low, high]
  | text {a b c d : UInt8} (ha : IsText a) (hb : IsText b) (hc : IsText c) (hd : IsText d) :
      Word [a, b, c, d]

inductive Words : List UInt8 → Prop
  | nil : Words []
  | cons {word rest : List UInt8} (hword : Word word) (hrest : Words rest) :
      Words (word ++ rest)

theorem Word.length_eq {word : List UInt8} (hword : Word word) : word.length = 4 := by
  cases hword <;> rfl

theorem Words.append {front back : List UInt8} (hfront : Words front) (hback : Words back) :
    Words (front ++ back) := by
  induction hfront with
  | nil => exact hback
  | cons hword _ ih =>
      rw [List.append_assoc]
      exact .cons hword ih

theorem words_text : ∀ {bytes : List UInt8}, (∀ b ∈ bytes, IsText b) → bytes.length % 4 = 0 →
    Words bytes
  | [], _, _ => .nil
  | [_], _, hlen => by simp at hlen
  | [_, _], _, hlen => by simp at hlen
  | [_, _, _], _, hlen => by simp at hlen
  | a :: b :: c :: d :: rest, htext, hlen =>
      have hrest : rest.length % 4 = 0 := by
        simp only [List.length_cons] at hlen
        omega
      .cons (.text (htext a (by simp)) (htext b (by simp)) (htext c (by simp))
          (htext d (by simp)))
        (words_text (fun e he => htext e (by simp [he])) hrest)

theorem words_dataFrame {payload : List UInt8} (hpayload : TextPayload payload) :
    Words (dataFrame payload) := by
  have hhigh : (UInt8.ofNat (payload.length / 256)).toNat ≤ 16 := by
    have hle := hpayload.length_le
    rw [UInt8.toNat_ofNat']
    simp only [lineLimit] at hle
    omega
  exact .cons (.header (UInt8.ofNat payload.length) _ hhigh)
    (words_text hpayload.text hpayload.words)

theorem words_dataFrames {payloads : List (List UInt8)}
    (hpayloads : ∀ payload ∈ payloads, TextPayload payload) : Words (dataFrames payloads) := by
  induction payloads with
  | nil => exact .nil
  | cons payload payloads ih =>
      exact (words_dataFrame (hpayloads payload (by simp))).append
        (ih fun other h => hpayloads other (List.mem_cons_of_mem _ h))

theorem Words.exists_word {bytes : List UInt8} (hwords : Words bytes) {i : ℕ}
    (hi : 4 * i < bytes.length) :
    ∃ word, Word word ∧ bytes.drop (4 * i) = word ++ bytes.drop (4 * (i + 1)) := by
  induction hwords generalizing i with
  | nil => simp at hi
  | @cons word rest hword _ ih =>
      have hlen := hword.length_eq
      cases i with
      | zero => exact ⟨word, hword, by simp [← hlen]⟩
      | succ i =>
          have hshift : ∀ k, (word ++ rest).drop (4 * (k + 1)) = rest.drop (4 * k) := by
            intro k
            rw [show 4 * (k + 1) = word.length + 4 * k by omega, List.drop_length_add_append]
          rw [hshift, hshift]
          exact ih (by rw [List.length_append] at hi; omega)

/-! ## Headers read in the wrong place -/

theorem lineLimit_lt_of_text {low high : UInt8} (hhigh : IsText high) :
    lineLimit < u16le low high := by
  have hge := hhigh.1
  simp only [u16le, lineLimit]
  omega

theorem isText_or_sync {word : List UInt8} (hword : Word word) :
    ∃ a b c d, word = [a, b, c, d] ∧ (a = reqDataMagic ∨ IsText a) ∧
      (b = respDataMagic ∨ IsText b ∧ IsText c) ∧ (IsText a → IsText d) := by
  cases hword with
  | header low high hhigh =>
      exact ⟨_, _, low, high, rfl, .inl rfl, .inl rfl,
        fun htext => absurd htext (by decide)⟩
  | text ha hb hc hd => exact ⟨_, _, _, _, rfl, .inr ha, .inr ⟨hb, hc⟩, fun _ => hd⟩

section Headers

variable {bytes rest : List UInt8} {pos : ℕ} {a b low high : UInt8}

/-- At the beginning of a word. -/
theorem aligned_header (hwords : Words bytes) (hpos : pos % 4 = 0)
    (hdrop : bytes.drop pos = a :: b :: low :: high :: rest) :
    a = reqDataMagic ∨ lineLimit < u16le low high := by
  have hlen : pos < bytes.length := by
    have h := congrArg List.length hdrop
    simp only [List.length_drop, List.length_cons] at h
    omega
  obtain ⟨i, rfl⟩ : ∃ i, pos = 4 * i := ⟨pos / 4, by omega⟩
  obtain ⟨word, hword, hcut⟩ := hwords.exists_word hlen
  obtain ⟨w0, w1, w2, w3, rfl, hfirst, -, hlast⟩ := isText_or_sync hword
  rw [hdrop] at hcut
  obtain ⟨rfl, rfl, rfl, rfl, -⟩ : a = w0 ∧ b = w1 ∧ low = w2 ∧ high = w3 ∧ _ := by
    simpa using hcut
  exact hfirst.imp_right fun htext => lineLimit_lt_of_text (hlast htext)

/-- Inside a word. -/
theorem torn_header (hwords : Words bytes) (hpos : pos % 4 ≠ 0)
    (hdrop : bytes.drop pos = a :: b :: low :: high :: rest) :
    lineLimit < u16le low high ∨ pos % 4 = 3 ∧ u16le low high % 4 = 2 := by
  have hlen : pos + 4 ≤ bytes.length := by
    have h := congrArg List.length hdrop
    simp only [List.length_drop, List.length_cons] at h
    omega
  obtain ⟨i, r, hr, hr', rfl⟩ : ∃ i r, 0 < r ∧ r < 4 ∧ pos = 4 * i + r :=
    ⟨pos / 4, pos % 4, by omega, by omega, by omega⟩
  obtain ⟨word, hword, hcut⟩ := hwords.exists_word (i := i) (by omega)
  obtain ⟨next, hnext, hcut'⟩ := hwords.exists_word (i := i + 1) (by omega)
  obtain ⟨w0, w1, w2, w3, rfl, -⟩ := isText_or_sync hword
  obtain ⟨v0, v1, v2, v3, rfl, hsync, hsecond, -⟩ := isText_or_sync hnext
  rw [← List.drop_drop, hcut, hcut'] at hdrop
  have hcases : r = 1 ∨ r = 2 ∨ r = 3 := by omega
  obtain rfl | rfl | rfl := hcases
  · obtain ⟨-, -, -, rfl, -⟩ : w1 = a ∧ w2 = b ∧ w3 = low ∧ v0 = high ∧ _ := by
      simpa using hdrop
    rcases hsync with rfl | htext
    · left
      have hsync : (reqDataMagic).toNat = 165 := rfl
      simp only [u16le, lineLimit, hsync]
      omega
    · exact .inl (lineLimit_lt_of_text htext)
  · obtain ⟨-, -, -, rfl, -⟩ : w2 = a ∧ w3 = b ∧ v0 = low ∧ v1 = high ∧ _ := by
      simpa using hdrop
    rcases hsecond with rfl | ⟨htext, -⟩
    · left
      have hsync : (respDataMagic).toNat = 90 := rfl
      simp only [u16le, lineLimit, hsync]
      omega
    · exact .inl (lineLimit_lt_of_text htext)
  · obtain ⟨-, -, rfl, rfl, -⟩ : w3 = a ∧ v0 = b ∧ v1 = low ∧ v2 = high ∧ _ := by
      simpa using hdrop
    rcases hsecond with rfl | ⟨-, htext⟩
    · right
      have hsync : (respDataMagic).toNat = 90 := rfl
      simp only [u16le, hsync]
      omega
    · exact .inl (lineLimit_lt_of_text htext)

end Headers

/-! ## Frames on the line -/

/-- A byte that starts a sync pair is the first one of its frame. -/
theorem eq_zero_of_starts {payload : List UInt8} (hpayload : TextPayload payload) {i : ℕ}
    {b : UInt8} (hget : (dataFrame payload)[i]? = some b) (hstarts : uartMagic.Starts b) :
    i = 0 := by
  have hbyte : b.toNat = 165 ∨ b.toNat = 166 := by
    obtain ⟨pair, hpair, rfl⟩ := hstarts
    simp only [uartMagic, MagicPairs.toList, List.mem_cons, List.not_mem_nil, or_false] at hpair
    rcases hpair with rfl | rfl
    · exact .inl rfl
    · exact .inr rfl
  have hwords := hpayload.words
  have hle := hpayload.length_le
  simp only [lineLimit] at hle
  rw [dataFrame_eq] at hget
  rcases i with _ | _ | _ | _ | i
  · rfl
  · cases hget
    exact absurd hbyte (by decide)
  · cases hget
    rw [UInt8.toNat_ofNat'] at hbyte
    omega
  · cases hget
    rw [UInt8.toNat_ofNat'] at hbyte
    omega
  · have htext := hpayload.text b (List.mem_of_getElem? hget)
    have hlt := htext.2
    omega

theorem exists_frame_of_starts {payloads : List (List UInt8)}
    (hpayloads : ∀ payload ∈ payloads, TextPayload payload) {i : ℕ} {b : UInt8}
    (hget : (dataFrames payloads)[i]? = some b) (hstarts : uartMagic.Starts b) :
    ∃ done payload later, payloads = done ++ payload :: later ∧
      i = (dataFrames done).length := by
  induction payloads generalizing i with
  | nil => simp at hget
  | cons payload payloads ih =>
      rw [dataFrames_cons] at hget
      rcases Nat.lt_or_ge i (dataFrame payload).length with hlt | hge
      · rw [List.getElem?_append_left hlt] at hget
        exact ⟨[], payload, payloads, rfl,
          eq_zero_of_starts (hpayloads payload (by simp)) hget hstarts⟩
      · rw [List.getElem?_append_right hge] at hget
        obtain ⟨done, other, later, rfl, hi⟩ :=
          ih (fun other h => hpayloads other (List.mem_cons_of_mem _ h)) hget
        refine ⟨payload :: done, other, later, rfl, ?_⟩
        rw [dataFrames_cons, List.length_append]
        omega

theorem length_dataFrames_mod {payloads : List (List UInt8)}
    (hpayloads : ∀ payload ∈ payloads, TextPayload payload) :
    (dataFrames payloads).length % 4 = 0 := by
  induction payloads with
  | nil => rfl
  | cons payload payloads ih =>
      have hwords := (hpayloads payload (by simp)).words
      have hrest := ih fun other h => hpayloads other (List.mem_cons_of_mem _ h)
      rw [dataFrames_cons, List.length_append, length_dataFrame]
      omega

/-- The frames that begin before a place on the line are those behind which it
is not. -/
theorem prefix_of_length_le {done later payloads : List (List UInt8)}
    (hdone : done <+: payloads) (hlater : later <+: payloads)
    (hle : (dataFrames done).length ≤ (dataFrames later).length) : done <+: later := by
  rcases Nat.le_total done.length later.length with hlen | hlen
  · exact List.prefix_of_prefix_length_le hdone hlater hlen
  · obtain ⟨more, rfl⟩ := List.prefix_of_prefix_length_le hlater hdone hlen
    cases more with
    | nil => simp
    | cons payload more =>
        rw [dataFrames_append, dataFrames_cons, List.length_append, List.length_append,
          length_dataFrame] at hle
        omega

end TextFrames
end PicoFi
