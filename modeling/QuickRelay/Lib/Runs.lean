import Mathlib.Data.List.Induction
import Mathlib.Tactic.Common

/-! Runs of a labelled transition system, with the labels taken and the states they
were taken in as their history. -/
namespace QuickRelay.Lib

variable {σ ι : Type} {step : σ → ι → σ → Prop}

/-- A run from `s` to a state; its history lists each step's state and label, oldest
first. -/
inductive Run (step : σ → ι → σ → Prop) (s : σ) : List (σ × ι) → σ → Prop
  | refl : Run step s [] s
  | snoc {hist : List (σ × ι)} {t u : σ} {i : ι} : Run step s hist t → step t i u → Run step s (hist ++ [(t, i)]) u

/-- A measure of histories grows by what the last step adds. -/
theorem filterMap_snoc {α β : Type} (f : α → Option β) (hist : List α) (p : α) :
    (hist ++ [p]).filterMap f = hist.filterMap f ++ (f p).toList := by
  rw [List.filterMap_append, List.filterMap_cons]
  cases f p with
  | none => rfl
  | some x => rfl

namespace Run

/-- A property of history and state that holds at the start and that every step keeps
holds at the end of every run. -/
theorem invariant {P : List (σ × ι) → σ → Prop} {s t : σ} {hist : List (σ × ι)} (h0 : P [] s)
    (hstep : ∀ hist t i u, Run step s hist t → P hist t → step t i u → P (hist ++ [(t, i)]) u)
    (h : Run step s hist t) : P hist t := by
  induction h with
  | refl => exact h0
  | snoc hr hs ih => exact hstep _ _ _ _ hr ih hs

/-- An invariant of the states alone. -/
theorem invariant_state {P : σ → Prop} {s t : σ} {hist : List (σ × ι)} (h0 : P s)
    (hstep : ∀ t i u, P t → step t i u → P u) (h : Run step s hist t) : P t :=
  invariant (P := fun _ t => P t) h0 (fun _ t i u _ hp hs => hstep t i u hp hs) h

theorem trans {s t u : σ} {a b : List (σ × ι)} (h : Run step s a t) (h' : Run step t b u) : Run step s (a ++ b) u := by
  induction h' with
  | refl => rwa [List.append_nil]
  | snoc _ hs ih =>
    rw [← List.append_assoc]
    exact ih.snoc hs

/-- A run cut at one of its steps. -/
theorem split {s u : σ} {a b : List (σ × ι)} {p : σ × ι} (h : Run step s (a ++ p :: b) u) :
    ∃ t, Run step s a p.1 ∧ step p.1 p.2 t ∧ Run step t b u := by
  induction b using List.reverseRecOn generalizing u with
  | nil =>
    generalize hc : a ++ [p] = c at h
    cases h with
    | refl => simp at hc
    | snoc hr hs =>
      obtain ⟨rfl, hp⟩ := List.append_inj' hc rfl
      cases hp
      exact ⟨u, hr, hs, .refl⟩
  | append_singleton b q ih =>
    generalize hc : a ++ p :: (b ++ [q]) = c at h
    cases h with
    | refl => simp at hc
    | @snoc hist t _ i hr hs =>
      have hc' : (a ++ p :: b) ++ [q] = hist ++ [(t, i)] := by simpa using hc
      obtain ⟨rfl, hq⟩ := List.append_inj' hc' rfl
      cases hq
      obtain ⟨t, h1, h2, h3⟩ := ih hr
      exact ⟨t, h1, h2, h3.snoc hs⟩

end Run
end QuickRelay.Lib
