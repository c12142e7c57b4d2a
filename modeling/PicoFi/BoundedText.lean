import PicoFi.StepRuns

/-!
# Texts of bounded capacity

A text is appended whole or not at all.  Texts appended one after the other
give their concatenation exactly when all of it fits, and exactly then no
append fails.
-/

namespace PicoFi
namespace BoundedText

variable {α : Type*} {capacity : ℕ}

/-! ## One text -/

def Fits (capacity : ℕ) (out text : List α) : Prop :=
  out.length + text.length ≤ capacity

instance (out text : List α) : Decidable (Fits capacity out text) :=
  inferInstanceAs (Decidable (_ ≤ _))

def append (capacity : ℕ) (out text : List α) : List α :=
  if Fits capacity out text then out ++ text else out

theorem append_of_fits {out text : List α} (h : Fits capacity out text) :
    append capacity out text = out ++ text := if_pos h

theorem append_of_not_fits {out text : List α} (h : ¬Fits capacity out text) :
    append capacity out text = out := if_neg h

theorem length_append_le {out : List α} (hout : out.length ≤ capacity)
    (text : List α) : (append capacity out text).length ≤ capacity := by
  by_cases hfits : Fits capacity out text
  · rw [append_of_fits hfits, List.length_append]
    exact hfits
  · rw [append_of_not_fits hfits]
    exact hout

/-! ## Several texts -/

def appendAll (capacity : ℕ) (out : List α) (texts : List (List α)) : List α :=
  texts.foldl (append capacity) out

@[simp] theorem appendAll_nil (out : List α) : appendAll capacity out [] = out := rfl

@[simp] theorem appendAll_cons (out text : List α) (texts : List (List α)) :
    appendAll capacity out (text :: texts) =
      appendAll capacity (append capacity out text) texts := rfl

theorem appendAll_append (out : List α) (front back : List (List α)) :
    appendAll capacity out (front ++ back) =
      appendAll capacity (appendAll capacity out front) back :=
  List.foldl_append

theorem length_appendAll_le {out : List α} (hout : out.length ≤ capacity)
    (texts : List (List α)) : (appendAll capacity out texts).length ≤ capacity :=
  @Runs.invariant _ _ (append capacity) (fun out => out.length ≤ capacity)
    (fun _ text hlength => length_append_le hlength text) out hout texts

theorem appendAll_of_fits {out : List α} {texts : List (List α)}
    (hfits : Fits capacity out texts.flatten) :
    appendAll capacity out texts = out ++ texts.flatten := by
  induction texts generalizing out with
  | nil => simp
  | cons text texts ih =>
      rw [Fits, List.flatten_cons, List.length_append] at hfits
      have hfirst : Fits capacity out text := by
        rw [Fits]
        omega
      have hrest : Fits capacity (out ++ text) texts.flatten := by
        rw [Fits, List.length_append]
        omega
      rw [appendAll_cons, append_of_fits hfirst, ih hrest, List.flatten_cons,
        List.append_assoc]

/-- What was appended in full is all there; a result within the capacity is too
short for more. -/
theorem appendAll_eq_iff {out : List α} (hout : out.length ≤ capacity)
    (texts : List (List α)) :
    appendAll capacity out texts = out ++ texts.flatten ↔
      Fits capacity out texts.flatten := by
  constructor
  · intro hall
    have hlength := length_appendAll_le hout texts
    rwa [hall, List.length_append] at hlength
  · exact appendAll_of_fits

theorem allSteps_fits_iff {out : List α} (hout : out.length ≤ capacity)
    (texts : List (List α)) :
    Runs.AllSteps (append capacity) (Fits capacity) out texts ↔
      Fits capacity out texts.flatten := by
  induction texts generalizing out with
  | nil => simpa [Runs.AllSteps, Fits] using hout
  | cons text texts ih =>
      rw [Runs.AllSteps]
      constructor
      · rintro ⟨hfirst, hrest⟩
        rw [append_of_fits hfirst] at hrest
        have hroom : (out ++ text).length ≤ capacity := by
          rw [List.length_append]
          exact hfirst
        have hfits := (ih hroom).mp hrest
        simp only [Fits, List.flatten_cons, List.length_append] at hfits ⊢
        omega
      · intro hfits
        simp only [Fits, List.flatten_cons, List.length_append] at hfits
        have hfirst : Fits capacity out text := by
          rw [Fits]
          omega
        refine ⟨hfirst, ?_⟩
        rw [append_of_fits hfirst, ih (by rw [List.length_append]; exact hfirst)]
        rw [Fits, List.length_append]
        omega

/-! ## Texts appended character by character -/

/-- Each character is a text of its own. -/
def characters (text : List α) : List (List α) := text.map fun c => [c]

@[simp] theorem flatten_characters (text : List α) :
    (characters text).flatten = text := by
  induction text with
  | nil => rfl
  | cons c text ih => simpa [characters] using ih

end BoundedText
end PicoFi
