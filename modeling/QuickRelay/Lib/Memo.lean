import Mathlib.Data.List.Basic
import Mathlib.Tactic.Common

/-! Memo tables: answers kept under a key of the request. A table may forget whatever it
likes and whenever it likes; what it keeps were answers to earlier requests. -/
namespace QuickRelay.Lib

variable {ρ κ δ : Type}

/-- The answer to a request, and the key it is kept under. -/
structure Memo (ρ κ δ : Type) where
  answer : ρ → δ
  key : ρ → κ

namespace Memo
variable (m : Memo ρ κ δ)

/-- What was asked before under the key of a request had the answer that this one has. -/
def Settled (asked : List ρ) (r : ρ) : Prop := ∀ r' ∈ asked, m.key r' = m.key r → m.answer r' = m.answer r

/-- What a table holds are answers to requests that were asked. -/
def Sound (asked : List ρ) (holds : κ → δ → Prop) : Prop :=
  ∀ k d, holds k d → ∃ r ∈ asked, m.key r = k ∧ m.answer r = d

/-- A request is answered from the table or anew. -/
def Responds (holds : κ → δ → Prop) (r : ρ) (d : δ) : Prop := holds (m.key r) d ∨ d = m.answer r

variable {m} {asked : List ρ} {holds holds' : κ → δ → Prop} {r : ρ} {d : δ}

theorem sound_empty (h : ∀ k d, ¬ holds k d) : m.Sound asked holds := fun k d hd => absurd hd (h k d)

theorem Sound.mono {more : List ρ} (h : m.Sound asked holds) (hsub : ∀ r ∈ asked, r ∈ more) : m.Sound more holds := by
  intro k d hd
  obtain ⟨r, hr, hk, ha⟩ := h k d hd
  exact ⟨r, hsub r hr, hk, ha⟩

/-- Forgetting is harmless. -/
theorem Sound.forget (h : m.Sound asked holds) (hsub : ∀ k d, holds' k d → holds k d) : m.Sound asked holds' :=
  fun k d hd => h k d (hsub k d hd)

/-- The table does not show in the answer to a settled request. -/
theorem Responds.eq (hr : m.Responds holds r d) (h : m.Sound asked holds) (hs : m.Settled asked r) : d = m.answer r := by
  rcases hr with hkept | hnew
  · obtain ⟨r', hr', hk, ha⟩ := h _ _ hkept
    rw [← ha]
    exact hs r' hr' hk
  · exact hnew

/-- A response may be kept under the key of its request. -/
theorem Sound.keep (h : m.Sound asked holds) (hmem : r ∈ asked) (hr : m.Responds holds r d)
    (hsub : ∀ k d', holds' k d' → holds k d' ∨ k = m.key r ∧ d' = d) : m.Sound asked holds' := by
  intro k d' hd
  rcases hsub k d' hd with hold | ⟨rfl, rfl⟩
  · exact h k d' hold
  · rcases hr with hkept | rfl
    · exact h _ _ hkept
    · exact ⟨r, hmem, rfl, rfl⟩

end Memo
end QuickRelay.Lib
