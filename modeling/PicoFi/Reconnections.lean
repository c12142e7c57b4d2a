import Mathlib.Data.List.GetD
import PicoFi.WiredPair

/-!
# Two components over one connection after another

A connection may break at any time, and what was under way on it is lost.  Each
end numbers its own connections and knows which connection of the other end
each of them is; no connection is taken up again, and none that is older than
one already taken up.  What an end takes from all its connections is then in the
order in which the other end has sent it, and nothing is taken twice.
-/

namespace PicoFi
namespace Wired

variable {σ τ ε δ α β : Type*}

/-! ## Rows that grow -/

def Grown (before after : List (List α)) : Prop :=
  ∀ k, before.getD k [] <+: after.getD k []

theorem Grown.refl (rows : List (List α)) : Grown rows rows := fun _ => List.prefix_rfl

theorem grown_concat (rows : List (List α)) {last : List α} {new : List (List α)} :
    Grown (rows ++ [last]) (rows ++ last :: new) := by
  intro k
  rcases Nat.lt_or_ge k (rows ++ [last]).length with hlt | hge
  · have hsame : rows ++ last :: new = (rows ++ [last]) ++ new := by simp
    rw [hsame, List.getD_append _ _ _ _ hlt]
  · rw [List.getD_eq_default _ _ hge]
    exact List.nil_prefix

theorem grown_last (rows : List (List α)) {last next : List α} (hlast : last <+: next) :
    Grown (rows ++ [last]) (rows ++ [next]) := by
  intro k
  rcases Nat.lt_or_ge k rows.length with hlt | hge
  · rw [List.getD_append _ _ _ _ hlt, List.getD_append _ _ _ _ hlt]
  · rw [List.getD_append_right _ _ _ _ hge, List.getD_append_right _ _ _ _ hge]
    cases k - rows.length with
    | zero => exact hlast
    | succ k => exact List.prefix_rfl

/-! ## Ends with many connections -/

structure Endpoint (σ ε α : Type*) where
  step : σ → ε → Option σ
  /-- What each connection has accepted from the end. -/
  sent : σ → List (List α)
  /-- What the end has taken from each connection, with its number at the
  other end. -/
  taken : σ → List (ℕ × List α)
  sent_mono : ∀ {s e t}, step s e = some t → Grown (sent s) (sent t)

/-- No connection is taken up twice or after a later one, and from each no more
is taken than was sent over it. -/
structure Drawn (taken : List (ℕ × List α)) (sent : List (List α)) : Prop where
  increasing : (taken.map Prod.fst).Pairwise (· < ·)
  begins : ∀ entry ∈ taken, entry.2 <+: sent.getD entry.1 []

instance [DecidableEq α] (taken : List (ℕ × List α)) (sent : List (List α)) :
    Decidable (Drawn taken sent) :=
  decidable_of_iff ((taken.map Prod.fst).Pairwise (· < ·) ∧
      ∀ entry ∈ taken, entry.2 <+: sent.getD entry.1 [])
    ⟨fun h => ⟨h.1, h.2⟩, fun h => ⟨h.increasing, h.begins⟩⟩

theorem Drawn.mono {taken : List (ℕ × List α)} {sent more : List (List α)}
    (hdrawn : Drawn taken sent) (hgrown : Grown sent more) : Drawn taken more where
  increasing := hdrawn.increasing
  begins entry hentry := (hdrawn.begins entry hentry).trans (hgrown entry.1)

/-- Two ends in turns, either of which may break a connection and take up a
later one. -/
def reconnecting [DecidableEq α] (a : Endpoint σ ε α) (b : Endpoint τ δ α) :
    σ × τ → ε ⊕ δ → Option (σ × τ) :=
  interleave a.step b.step (fun s t => Drawn (a.taken s) (b.sent t))
    fun s t => Drawn (b.taken t) (a.sent s)

structure Reconnected (a : Endpoint σ ε α) (b : Endpoint τ δ α) (s : σ × τ) : Prop where
  left : Drawn (a.taken s.1) (b.sent s.2)
  right : Drawn (b.taken s.2) (a.sent s.1)

theorem Reconnected.afterStep [DecidableEq α] {a : Endpoint σ ε α} {b : Endpoint τ δ α}
    {s t : σ × τ} {e : ε ⊕ δ} (hs : Reconnected a b s)
    (hstep : reconnecting a b s e = some t) : Reconnected a b t := by
  obtain ⟨e, rfl, hnext, hsame, hdrawn⟩ | ⟨e, rfl, hnext, hsame, hdrawn⟩ :=
    interleave_cases hstep
  · exact ⟨hsame ▸ hdrawn, hsame ▸ hs.right.mono (a.sent_mono hnext)⟩
  · exact ⟨hsame ▸ hs.left.mono (b.sent_mono hnext), hsame ▸ hdrawn⟩

end Wired
end PicoFi
