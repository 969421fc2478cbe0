import Mathlib.Algebra.BigOperators.Fin
import Mathlib.Logic.Function.Basic
import QuickRelay.Lib.Runs

/-! Runs seen from another system: a run whose every step is matched, and a run of many
systems side by side as each of them sees it. -/
namespace QuickRelay.Lib

variable {σ τ ι κ : Type}

namespace Run
variable {step : σ → ι → σ → Prop} {step' : τ → κ → τ → Prop}

/-- A system whose every step is a run of another one, on the part of its state that
`view` shows, is simulated by it: its runs are runs of the other. -/
theorem simulate (view : σ → τ) {emit : σ × ι → List (τ × κ)}
    (hmatch : ∀ s i s', step s i s' → Run step' (view s) (emit (s, i)) (view s')) {s t : σ} {hist : List (σ × ι)}
    (h : Run step s hist t) : Run step' (view s) (hist.flatMap emit) (view t) := by
  induction h with
  | refl => exact .refl
  | snoc _ hs ih =>
    rw [List.flatMap_append, List.flatMap_singleton]
    exact ih.trans (hmatch _ _ _ hs)

/-- A step of a run was taken in a state the run reached. -/
theorem reached {s t : σ} {hist : List (σ × ι)} (h : Run step s hist t) {p : σ × ι} (hp : p ∈ hist) :
    ∃ before after u, hist = before ++ p :: after ∧ Run step s before p.1 ∧ step p.1 p.2 u := by
  obtain ⟨before, after, rfl⟩ := List.append_of_mem hp
  obtain ⟨u, hbefore, hs, -⟩ := h.split
  exact ⟨before, after, u, rfl, hbefore, hs⟩

end Run

/-- A system whose steps are a function, on given labels. -/
def execute (next : σ → ι → Option σ) : σ → List ι → Option σ
  | s, [] => some s
  | s, i :: labels => (next s i).bind fun t => execute next t labels

theorem execute_run {next : σ → ι → Option σ} {s t : σ} {labels : List ι} (h : execute next s labels = some t) :
    ∃ hist, Run (fun s i s' => next s i = some s') s hist t := by
  induction labels generalizing s with
  | nil =>
    cases h
    exact ⟨[], .refl⟩
  | cons i labels ih =>
    obtain ⟨u, hnext, hrest⟩ := Option.bind_eq_some_iff.mp h
    obtain ⟨hist, hrun⟩ := ih hrest
    have hfirst : Run (fun s i s' => next s i = some s') s [(s, i)] u := Run.snoc .refl hnext
    exact ⟨_, hfirst.trans hrun⟩

/-! ### Side by side -/

variable {α : Type} [DecidableEq α]

/-- One of a family of systems takes a step and the others rest. -/
def Together (step : σ → ι → σ → Prop) (s : α → σ) (label : α × ι) (s' : α → σ) : Prop :=
  ∃ t, step (s label.1) label.2 t ∧ s' = Function.update s label.1 t

/-- What one step of the family is to the member `a`. -/
def memberOf (a : α) (p : (α → σ) × (α × ι)) : List (σ × ι) := if p.2.1 = a then [(p.1 a, p.2.2)] else []

/-- A member of the family runs its own steps, in whatever order the family's are. -/
theorem Run.member {step : σ → ι → σ → Prop} {s t : α → σ} {hist : List ((α → σ) × (α × ι))}
    (h : Run (Together step) s hist t) (a : α) : Run step (s a) (hist.flatMap (memberOf a)) (t a) := by
  refine h.simulate (fun s => s a) fun s label s' hs => ?_
  obtain ⟨b, i⟩ := label
  obtain ⟨u, hstep, rfl⟩ := hs
  dsimp only at hstep ⊢
  by_cases hab : b = a
  · subst hab
    rw [memberOf, if_pos rfl, Function.update_self]
    exact Run.snoc .refl hstep
  · rw [memberOf, if_neg hab, Function.update_of_ne (Ne.symm hab)]
    exact .refl

/-- A member's run with the others at rest. -/
def aloneAt (s : α → σ) (a : α) (p : σ × ι) : (α → σ) × (α × ι) := (Function.update s a p.1, (a, p.2))

theorem Run.alone {step : σ → ι → σ → Prop} {s : α → σ} {a : α} {t : σ} {hist : List (σ × ι)}
    (h : Run step (s a) hist t) : Run (Together step) s (hist.map (aloneAt s a)) (Function.update s a t) := by
  induction h with
  | refl =>
    rw [Function.update_eq_self]
    exact .refl
  | @snoc hist u v i _ hs ih =>
    rw [List.map_append]
    refine ih.snoc ⟨v, ?_, (Function.update_idem u v s).symm⟩
    rwa [Function.update_self]

theorem member_alone (s : α → σ) (a b : α) (hist : List (σ × ι)) :
    (hist.map (aloneAt s a)).flatMap (memberOf b) = if a = b then hist else [] := by
  induction hist with
  | nil => split <;> rfl
  | cons p hist ih =>
    rw [List.map_cons, List.flatMap_cons, ih, memberOf]
    by_cases hab : a = b
    · subst hab
      simp [aloneAt]
    · simp [aloneAt, hab]

/-- A measure of a family when one member changes. -/
theorem sum_update [Fintype α] (f : σ → Nat) (s : α → σ) (a : α) (t : σ) :
    ∑ b, f (Function.update s a t b) + f (s a) = ∑ b, f (s b) + f t := by
  have hrest : ∑ b ∈ Finset.univ.erase a, f (Function.update s a t b) = ∑ b ∈ Finset.univ.erase a, f (s b) := by
    refine Finset.sum_congr rfl fun b hb => ?_
    rw [Function.update_of_ne (Finset.ne_of_mem_erase hb)]
  rw [← Finset.add_sum_erase Finset.univ (fun b => f (Function.update s a t b)) (Finset.mem_univ a),
    ← Finset.add_sum_erase Finset.univ (fun b => f (s b)) (Finset.mem_univ a), hrest, Function.update_self]
  omega

end QuickRelay.Lib
