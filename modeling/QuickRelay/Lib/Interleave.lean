import Mathlib.Data.List.Forall2
import Mathlib.Tactic.Common

/-! Lists put together from two lists in any order that keeps the order of each. -/
namespace QuickRelay.Lib

variable {α β : Type}

/-- `zs` is `xs` with the entries of `ys` put in, each anywhere. -/
inductive Interleave : List α → List α → List α → Prop
  | nil : Interleave [] [] []
  | left (x : α) {xs ys zs : List α} : Interleave xs ys zs → Interleave (x :: xs) ys (x :: zs)
  | right (y : α) {xs ys zs : List α} : Interleave xs ys zs → Interleave xs (y :: ys) (y :: zs)

namespace Interleave

theorem mem_right {xs ys zs : List α} (h : Interleave xs ys zs) {y : α} (hy : y ∈ ys) : y ∈ zs := by
  induction h with
  | nil => cases hy
  | left x _ ih => exact List.mem_cons_of_mem x (ih hy)
  | right z _ ih =>
    rcases List.mem_cons.mp hy with rfl | hy
    · exact List.mem_cons_self
    · exact List.mem_cons_of_mem z (ih hy)

/-- A filter that takes nothing of the second list sees the first. -/
theorem filter_eq {xs ys zs : List α} (h : Interleave xs ys zs) {p : α → Bool} (hp : ∀ y ∈ ys, p y = false) :
    zs.filter p = xs.filter p := by
  induction h with
  | nil => rfl
  | left x _ ih => rw [List.filter_cons, List.filter_cons, ih hp]
  | right y _ ih =>
    rw [List.filter_cons_of_neg (by simp [hp y]), ih fun z hz => hp z (List.mem_cons_of_mem y hz)]

theorem filterMap_eq {xs ys zs : List α} (h : Interleave xs ys zs) {f : α → Option β} (hf : ∀ y ∈ ys, f y = none) :
    zs.filterMap f = xs.filterMap f := by
  induction h with
  | nil => rfl
  | left x _ ih => rw [List.filterMap_cons, List.filterMap_cons, ih hf]
  | right y _ ih =>
    rw [List.filterMap_cons_none (hf y List.mem_cons_self), ih fun z hz => hf z (List.mem_cons_of_mem y hz)]

theorem find?_eq {xs ys zs : List α} (h : Interleave xs ys zs) {p : α → Bool} (hp : ∀ y ∈ ys, p y = false) :
    zs.find? p = xs.find? p := by
  rw [← List.head?_filter, ← List.head?_filter, h.filter_eq hp]

/-- What a function-like relation makes of an interleaving is one. -/
theorem forall₂ {R : α → β → Prop} (hR : ∀ x a b, R x a → R x b → a = b) {xs ys zs : List α} (h : Interleave xs ys zs)
    {as cs : List β} (ha : List.Forall₂ R xs as) (hc : List.Forall₂ R zs cs) :
    ∃ bs, List.Forall₂ R ys bs ∧ Interleave as bs cs := by
  induction h generalizing as cs with
  | nil =>
    cases ha
    cases hc
    exact ⟨[], .nil, .nil⟩
  | left x _ ih =>
    cases ha with
    | cons hxa ha =>
      cases hc with
      | cons hxc hc =>
        obtain rfl := hR _ _ _ hxa hxc
        obtain ⟨bs, hb, hi⟩ := ih ha hc
        exact ⟨bs, hb, hi.left _⟩
  | right y _ ih =>
    cases hc with
    | cons hyc hc =>
      obtain ⟨bs, hb, hi⟩ := ih ha hc
      exact ⟨_ :: bs, .cons hyc hb, hi.right _⟩

end Interleave
end QuickRelay.Lib
