import PicoFi.LocalCommands

/-!
# Command lines in a byte stream

A byte stream from a terminal carries data and, at the start of a line, local
commands.  `Cuts` is the grammar: it cuts a stream into data bytes, complete
command lines, candidates that turned out to be data, and a candidate still
unfinished at the end.  `pieces` finds the cut byte by byte, and it is the
only one.
-/

namespace PicoFi
namespace CommandLines

abbrev slash : UInt8 := 47
abbrev lineFeed : UInt8 := 10
abbrev carriageReturn : UInt8 := 13

/-- The text of a line: its bytes without carriage returns. -/
def text (bytes : List UInt8) : List UInt8 :=
  bytes.filter fun b => b ≠ carriageReturn

theorem text_append (front back : List UInt8) :
    text (front ++ back) = text front ++ text back :=
  List.filter_append _ _

@[simp] theorem text_concat_carriageReturn (bytes : List UInt8) :
    text (bytes ++ [carriageReturn]) = text bytes := by
  simp [text]

theorem text_concat (bytes : List UInt8) {b : UInt8} (hb : b ≠ carriageReturn) :
    text (bytes ++ [b]) = text bytes ++ [b] := by
  simp [text, hb]

theorem text_eq_self_iff (bytes : List UInt8) :
    text bytes = bytes ↔ carriageReturn ∉ bytes := by
  rw [text, List.filter_eq_self]
  constructor
  · intro hall hmem
    simpa using hall _ hmem
  · intro hnot b hb
    simp only [decide_eq_true_eq]
    rintro rfl
    exact hnot hb

/-! ## The grammar -/

/-- A slash with printable characters and carriage returns behind it, at most
255 of them characters. -/
structure Candidate (bytes : List UInt8) : Prop where
  head_eq : bytes.head? = some slash
  body : ∀ b ∈ bytes.tail, Printable b ∨ b = carriageReturn
  fits : (text bytes.tail).length ≤ 255

def CommandLine (line : List UInt8) : Prop :=
  ∃ bytes, line = bytes ++ [lineFeed] ∧ Candidate bytes

inductive Piece
  | plain (b : UInt8)
  | command (line : List UInt8)
  | abandoned (bytes : List UInt8)
  | unfinished (bytes : List UInt8)
  deriving DecidableEq

def Piece.data : Piece → List UInt8
  | .plain b => [b]
  | .abandoned bytes => bytes
  | .command _ | .unfinished _ => []

/-- Whether the next byte starts a line: carriage returns do not count. -/
def nextStart (start : Bool) (b : UInt8) : Bool :=
  if b = lineFeed then true else if b = carriageReturn then start else false

inductive Cuts : Bool → List UInt8 → List Piece → Prop
  | nil {start : Bool} : Cuts start [] []
  | plain {start : Bool} {b : UInt8} {rest : List UInt8} {ps : List Piece}
      (hplain : ¬(start = true ∧ b = slash))
      (hrest : Cuts (nextStart start b) rest ps) :
      Cuts start (b :: rest) (.plain b :: ps)
  | command {line rest : List UInt8} {ps : List Piece}
      (hline : CommandLine line) (hrest : Cuts true rest ps) :
      Cuts true (line ++ rest) (.command line :: ps)
  | abandoned {bytes rest : List UInt8} {b : UInt8} {ps : List Piece}
      (hbytes : Candidate bytes) (hfeed : b ≠ lineFeed)
      (hend : ¬Candidate (bytes ++ [b])) (hrest : Cuts false rest ps) :
      Cuts true (bytes ++ b :: rest) (.abandoned (bytes ++ [b]) :: ps)
  | unfinished {bytes : List UInt8} (hbytes : Candidate bytes) :
      Cuts true bytes [.unfinished bytes]

/-! ## Candidates grow byte by byte -/

theorem candidate_slash : Candidate [slash] := by
  constructor
  · rfl
  · simp
  · simp [text]

theorem Candidate.ne_nil {bytes : List UInt8} (hbytes : Candidate bytes) :
    bytes ≠ [] := by
  rintro rfl
  have hhead := hbytes.head_eq
  simp at hhead

theorem Candidate.text_length {bytes : List UInt8} (hbytes : Candidate bytes) :
    (text bytes).length = (text bytes.tail).length + 1 := by
  cases bytes with
  | nil => exact absurd rfl hbytes.ne_nil
  | cons b body =>
      obtain rfl : b = slash := Option.some.inj hbytes.head_eq
      rw [text, List.filter_cons_of_pos (by decide)]
      rfl

/-- A candidate goes on with a carriage return or with one more character that
still fits. -/
def Continues (bytes : List UInt8) (b : UInt8) : Prop :=
  b = carriageReturn ∨ (Printable b ∧ (text bytes).length < 256)

instance (bytes : List UInt8) (b : UInt8) : Decidable (Continues bytes b) :=
  inferInstanceAs (Decidable (_ ∨ _))

theorem Candidate.concat_iff {bytes : List UInt8} (hbytes : Candidate bytes)
    (b : UInt8) : Candidate (bytes ++ [b]) ↔ Continues bytes b := by
  have htail : (bytes ++ [b]).tail = bytes.tail ++ [b] :=
    List.tail_append_of_ne_nil hbytes.ne_nil
  have hlength := hbytes.text_length
  have hfits := hbytes.fits
  constructor
  · intro hlonger
    have hbody := hlonger.body b (by simp [htail])
    by_cases hreturn : b = carriageReturn
    · exact .inl hreturn
    · have hroom := hlonger.fits
      rw [htail, text_concat _ hreturn, List.length_append] at hroom
      simp only [List.length_singleton] at hroom
      exact .inr ⟨hbody.resolve_right hreturn, by omega⟩
  · intro hcontinues
    constructor
    · rw [List.head?_append_of_ne_nil _ hbytes.ne_nil]
      exact hbytes.head_eq
    · rw [htail]
      intro c hc
      rcases List.mem_append.mp hc with h | h
      · exact hbytes.body c h
      · rw [List.mem_singleton.mp h]
        exact hcontinues.symm.imp And.left id
    · rw [htail]
      rcases hcontinues with rfl | ⟨hprintable, hroom⟩
      · simpa using hfits
      · have hne : b ≠ carriageReturn := by
          rintro rfl
          exact absurd hprintable (by decide)
        rw [text_concat _ hne, List.length_append, List.length_singleton]
        omega

/-! ## Cutting byte by byte -/

/-- Between two bytes: in a line of data, or in a candidate. -/
inductive Scan
  | line (start : Bool)
  | candidate (bytes : List UInt8)
  deriving DecidableEq

def Scan.step : Scan → UInt8 → Scan × Option Piece
  | .line start, b =>
      if start = true ∧ b = slash then (.candidate [slash], none)
      else (.line (nextStart start b), some (.plain b))
  | .candidate bytes, b =>
      if b = lineFeed then (.line true, some (.command (bytes ++ [b])))
      else if Continues bytes b then (.candidate (bytes ++ [b]), none)
      else (.line false, some (.abandoned (bytes ++ [b])))

def pieces : Scan → List UInt8 → List Piece
  | .line _, [] => []
  | .candidate bytes, [] => [.unfinished bytes]
  | scan, b :: rest =>
      (scan.step b).2.toList ++ pieces (scan.step b).1 rest

@[simp] theorem pieces_cons (scan : Scan) (b : UInt8) (rest : List UInt8) :
    pieces scan (b :: rest) =
      (scan.step b).2.toList ++ pieces (scan.step b).1 rest := by
  cases scan <;> rfl

/-- The bytes of a candidate, and whether a line begins in front of the
scan. -/
def Scan.held : Scan → List UInt8
  | .line _ => []
  | .candidate bytes => bytes

def Scan.start : Scan → Bool
  | .line start => start
  | .candidate _ => true

def Scan.Valid : Scan → Prop
  | .line _ => True
  | .candidate bytes => Candidate bytes

theorem pieces_cuts {scan : Scan} (hscan : scan.Valid) (input : List UInt8) :
    Cuts scan.start (scan.held ++ input) (pieces scan input) := by
  induction input generalizing scan with
  | nil =>
      cases scan with
      | line start => exact .nil
      | candidate bytes =>
          rw [List.append_nil]
          exact .unfinished hscan
  | cons b rest ih =>
      cases scan with
      | line start =>
          by_cases hslash : start = true ∧ b = slash
          · have hrest := @ih (.candidate [slash]) candidate_slash
            rw [pieces, Scan.step, if_pos hslash]
            obtain ⟨rfl, rfl⟩ := hslash
            exact hrest
          · have hrest := @ih (.line (nextStart start b)) trivial
            rw [pieces, Scan.step, if_neg hslash]
            exact .plain hslash hrest
      | candidate bytes =>
          by_cases hfeed : b = lineFeed
          · have hrest := @ih (.line true) trivial
            have hcommand := Cuts.command ⟨bytes, rfl, hscan⟩ hrest
            rw [pieces, Scan.step, if_pos hfeed]
            subst hfeed
            simpa [Scan.held, Scan.start] using hcommand
          · by_cases hcontinues : Continues bytes b
            · have hrest := @ih (.candidate (bytes ++ [b]))
                ((hscan.concat_iff b).mpr hcontinues)
              rw [pieces, Scan.step, if_neg hfeed, if_pos hcontinues]
              simpa [Scan.held, Scan.start] using hrest
            · have hrest := @ih (.line false) trivial
              have habandoned := Cuts.abandoned hscan hfeed
                (fun hlonger => hcontinues ((hscan.concat_iff b).mp hlonger)) hrest
              rw [pieces, Scan.step, if_neg hfeed, if_neg hcontinues]
              exact habandoned

theorem Candidate.of_append {front back : List UInt8} (hfront : front ≠ [])
    (hboth : Candidate (front ++ back)) : Candidate front := by
  have htail : (front ++ back).tail = front.tail ++ back :=
    List.tail_append_of_ne_nil hfront
  constructor
  · rw [← hboth.head_eq, List.head?_append_of_ne_nil _ hfront]
  · intro b hb
    exact hboth.body b (by simp [htail, hb])
  · have hfits := hboth.fits
    rw [htail, text_append, List.length_append] at hfits
    omega

theorem Candidate.ne_lineFeed {bytes : List UInt8} {b : UInt8}
    (hne : bytes ≠ []) (hbytes : Candidate (bytes ++ [b])) : b ≠ lineFeed := by
  rintro rfl
  have hbody := hbytes.body lineFeed (by simp [List.tail_append_of_ne_nil hne])
  exact absurd hbody (by decide)

theorem pieces_candidate {bytes more : List UInt8} (hne : bytes ≠ [])
    (hboth : Candidate (bytes ++ more)) (rest : List UInt8) :
    pieces (.candidate bytes) (more ++ rest) =
      pieces (.candidate (bytes ++ more)) rest := by
  induction more generalizing bytes with
  | nil => simp
  | cons b more ih =>
      rw [List.append_cons] at hboth ⊢
      have hlonger : Candidate (bytes ++ [b]) := hboth.of_append (by simp)
      have hcontinues := ((hlonger.of_append hne).concat_iff b).mp hlonger
      rw [← ih (by simp) hboth, List.cons_append, pieces, Scan.step,
        if_neg (hlonger.ne_lineFeed hne), if_pos hcontinues]
      rfl

theorem pieces_line_candidate {bytes : List UInt8} (hbytes : Candidate bytes)
    (rest : List UInt8) :
    pieces (.line true) (bytes ++ rest) = pieces (.candidate bytes) rest := by
  cases bytes with
  | nil => exact absurd rfl hbytes.ne_nil
  | cons b body =>
      obtain rfl : b = slash := Option.some.inj hbytes.head_eq
      exact pieces_candidate (by simp) hbytes rest

/-- A stream has one cut. -/
theorem Cuts.eq_pieces {start : Bool} {input : List UInt8} {ps : List Piece}
    (hcuts : Cuts start input ps) : ps = pieces (.line start) input := by
  induction hcuts with
  | nil => rfl
  | @plain start b rest ps hplain _ ih =>
      rw [pieces, Scan.step, if_neg hplain, ih]
      rfl
  | @command line rest ps hline _ ih =>
      obtain ⟨bytes, rfl, hbytes⟩ := hline
      rw [List.append_assoc, pieces_line_candidate hbytes, List.singleton_append,
        pieces, Scan.step, if_pos rfl, ih]
      rfl
  | @abandoned bytes rest b ps hbytes hfeed hend _ ih =>
      have hstop := mt (hbytes.concat_iff b).mpr hend
      rw [pieces_line_candidate hbytes, pieces, Scan.step, if_neg hfeed,
        if_neg hstop, ih]
      rfl
  | @unfinished bytes hbytes =>
      have hread := pieces_line_candidate hbytes []
      rw [List.append_nil] at hread
      exact hread.symm

theorem cuts_iff {start : Bool} {input : List UInt8} {ps : List Piece} :
    Cuts start input ps ↔ ps = pieces (.line start) input := by
  constructor
  · exact Cuts.eq_pieces
  · rintro rfl
    exact @pieces_cuts (.line start) trivial input

end CommandLines
end PicoFi
