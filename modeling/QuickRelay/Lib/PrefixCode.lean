import Mathlib.Data.List.Basic
import Mathlib.Tactic.Common

/-! Self-delimiting codes: a stream of code words has one reading, and a receiver that
keeps the unread tail reads it whichever way the stream is cut. -/
namespace QuickRelay.Lib

variable {φ β : Type}

/-- A code no word of which starts another. -/
structure PrefixCode (φ β : Type) where
  encode : φ → List β
  encode_ne_nil : ∀ f, encode f ≠ []
  append_inj : ∀ {f g : φ} {r s : List β}, encode f ++ r = encode g ++ s → f = g ∧ r = s

namespace PrefixCode
variable (c : PrefixCode φ β)

def encodeAll (fs : List φ) : List β := fs.flatMap c.encode

@[simp] theorem encodeAll_nil : c.encodeAll [] = [] := rfl

@[simp] theorem encodeAll_cons (f : φ) (fs : List φ) : c.encodeAll (f :: fs) = c.encode f ++ c.encodeAll fs :=
  List.flatMap_cons

theorem encodeAll_append (a b : List φ) : c.encodeAll (a ++ b) = c.encodeAll a ++ c.encodeAll b :=
  List.flatMap_append

theorem encode_length_pos (f : φ) : 0 < (c.encode f).length := List.length_pos_of_ne_nil (c.encode_ne_nil f)

/-- A tail without a whole word in front. -/
def Partial (tail : List β) : Prop := ∀ f rest, tail ≠ c.encode f ++ rest

theorem partial_nil : c.Partial [] := fun f _ h => c.encode_ne_nil f (List.append_eq_nil_iff.mp h.symm).1

/-- What a word lacks its end of holds no word. -/
theorem partial_of_cut {f : φ} {x rest : List β} (h : c.encode f = x ++ rest) (hr : rest ≠ []) : c.Partial x := by
  rintro g y rfl
  rw [List.append_assoc] at h
  obtain ⟨-, hnil⟩ := c.append_inj ((List.append_nil (c.encode f)).trans h)
  exact hr (List.append_eq_nil_iff.mp hnil.symm).2

/-- Every string is words and a partial tail. -/
theorem exists_split (b : List β) : ∃ fs tail, b = c.encodeAll fs ++ tail ∧ c.Partial tail := by
  induction hn : b.length using Nat.strongRecOn generalizing b with
  | ind n ih =>
    by_cases hb : c.Partial b
    · exact ⟨[], b, rfl, hb⟩
    · simp only [Partial, not_forall, not_not] at hb
      obtain ⟨f, rest, rfl⟩ := hb
      have hpos := c.encode_length_pos f
      rw [List.length_append] at hn
      obtain ⟨fs, tail, rfl, ht⟩ := ih rest.length (by omega) rest rfl
      exact ⟨f :: fs, tail, by simp, ht⟩

/-- There is one way to do that. -/
theorem split_unique {a b : List φ} {x y : List β} (hx : c.Partial x) (hy : c.Partial y)
    (h : c.encodeAll a ++ x = c.encodeAll b ++ y) : a = b ∧ x = y := by
  induction a generalizing b with
  | nil =>
    cases b with
    | nil => exact ⟨rfl, h⟩
    | cons g b =>
      rw [encodeAll_nil, List.nil_append, encodeAll_cons, List.append_assoc] at h
      exact absurd h (hx g _)
  | cons f a ih =>
    cases b with
    | nil =>
      rw [encodeAll_nil, List.nil_append, encodeAll_cons, List.append_assoc] at h
      exact absurd h.symm (hy f _)
    | cons g b =>
      rw [encodeAll_cons, encodeAll_cons, List.append_assoc, List.append_assoc] at h
      obtain ⟨rfl, htail⟩ := c.append_inj h
      obtain ⟨rfl, hxy⟩ := ih htail
      exact ⟨rfl, hxy⟩

/-- Words at the front of a stream are the first words of its reading. -/
theorem encodeAll_prefix {fs gs : List φ} {rest : List β} (h : c.encodeAll fs ++ rest = c.encodeAll gs) :
    ∃ gs', gs = fs ++ gs' ∧ rest = c.encodeAll gs' := by
  induction fs generalizing gs with
  | nil => exact ⟨gs, rfl, h⟩
  | cons f fs ih =>
    cases gs with
    | nil => simp [c.encode_ne_nil] at h
    | cons g gs =>
      rw [encodeAll_cons, encodeAll_cons, List.append_assoc] at h
      obtain ⟨rfl, htail⟩ := c.append_inj h
      obtain ⟨gs', rfl, hrest⟩ := ih htail
      exact ⟨gs', rfl, hrest⟩

/-- One read: a receiver that holds the tail `x` of a stream and reads `r` has the next
words whole, and a new tail. -/
theorem exists_read {x r rest : List β} {gs : List φ} (h : x ++ r ++ rest = c.encodeAll gs) :
    ∃ done gs' tail, gs = done ++ gs' ∧ x ++ r = c.encodeAll done ++ tail ∧ c.Partial tail ∧
      tail ++ rest = c.encodeAll gs' := by
  obtain ⟨done, tail, hsplit, ht⟩ := c.exists_split (x ++ r)
  rw [hsplit, List.append_assoc] at h
  obtain ⟨gs', hgs, hrest⟩ := c.encodeAll_prefix h
  exact ⟨done, gs', tail, hgs, hsplit, ht, hrest⟩

/-! ### Positions in a stream -/

/-- The words that end within the first `n` symbols. -/
def completed : List φ → Nat → Nat
  | [], _ => 0
  | f :: fs, n => if (c.encode f).length ≤ n then completed fs (n - (c.encode f).length) + 1 else 0

/-- The symbols after the last word that ends within the first `n`. -/
def leftover (fs : List φ) (n : Nat) : Nat := n - (c.encodeAll (fs.take (c.completed fs n))).length

/-- A partial tail of a stream has no word in it. -/
theorem completed_tail {x rest : List β} {gs : List φ} (hx : c.Partial x) (h : x ++ rest = c.encodeAll gs) :
    c.completed gs x.length = 0 := by
  cases gs with
  | nil => rfl
  | cons g gs =>
    refine if_neg fun hle => ?_
    rw [encodeAll_cons] at h
    obtain ⟨y, rfl⟩ := List.prefix_of_prefix_length_le ⟨_, h.symm⟩ ⟨rest, rfl⟩ hle
    exact hx g y rfl

theorem completed_append {x rest : List β} {done gs : List φ} (hx : c.Partial x) (h : x ++ rest = c.encodeAll gs) :
    c.completed (done ++ gs) ((c.encodeAll done).length + x.length) = done.length := by
  induction done with
  | nil => simpa using c.completed_tail hx h
  | cons f done ih =>
    rw [List.cons_append, encodeAll_cons, List.length_append, Nat.add_assoc, completed, if_pos (Nat.le_add_right _ _),
      Nat.add_sub_cancel_left, ih]
    rfl

theorem leftover_append {x rest : List β} {done gs : List φ} (hx : c.Partial x) (h : x ++ rest = c.encodeAll gs) :
    c.leftover (done ++ gs) ((c.encodeAll done).length + x.length) = x.length := by
  rw [leftover, c.completed_append hx h, List.take_left, Nat.add_sub_cancel_left]

end PrefixCode
end QuickRelay.Lib
