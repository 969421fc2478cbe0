import Mathlib.Algebra.Group.Nat.Defs
import Mathlib.Tactic.Common

/-! Computations that return a value, fail with an error, or panic. A panic is
an observation of its own, never an error, so its absence can be stated. -/
namespace QuickRelay.Lib

inductive Outcome (ε α : Type) where
  | ok (value : α)
  | err (error : ε)
  | panic
  deriving DecidableEq, Repr

namespace Outcome
variable {ε α β : Type}

def bind (x : Outcome ε α) (f : α → Outcome ε β) : Outcome ε β :=
  match x with
  | .ok a => f a
  | .err e => .err e
  | .panic => .panic

instance : Monad (Outcome ε) where
  pure := .ok
  bind := Outcome.bind

/-- `if c { return Err(e) }`. -/
def refuse (c : Prop) [Decidable c] (e : ε) : Outcome ε Unit :=
  if c then .err e else .ok ()

/-- `opt.ok_or(e)`. -/
def okOr (e : ε) : Option α → Outcome ε α
  | some a => .ok a
  | none => .err e

@[simp] theorem pure_eq (a : α) : (pure a : Outcome ε α) = .ok a := rfl
@[simp] theorem ok_bind (a : α) (f : α → Outcome ε β) : (Outcome.ok a >>= f) = f a := rfl
@[simp] theorem err_bind (e : ε) (f : α → Outcome ε β) : (Outcome.err e >>= f) = .err e := rfl
@[simp] theorem panic_bind (f : α → Outcome ε β) : ((.panic : Outcome ε α) >>= f) = .panic := rfl
@[simp] theorem map_ok (f : α → β) (a : α) : f <$> (Outcome.ok a : Outcome ε α) = .ok (f a) := rfl
@[simp] theorem map_err (f : α → β) (e : ε) : f <$> (Outcome.err e : Outcome ε α) = .err e := rfl
@[simp] theorem map_panic (f : α → β) : f <$> (.panic : Outcome ε α) = .panic := rfl

instance : LawfulMonad (Outcome ε) :=
  LawfulMonad.mk' _ (fun x => by cases x <;> rfl) (fun _ _ => rfl) (fun x _ _ => by cases x <;> rfl)

theorem bind_eq_ok {x : Outcome ε α} {f : α → Outcome ε β} {b : β} :
    x >>= f = .ok b ↔ ∃ a, x = .ok a ∧ f a = .ok b := by
  cases x <;> simp

theorem bind_eq_panic {x : Outcome ε α} {f : α → Outcome ε β} :
    x >>= f = .panic ↔ x = .panic ∨ ∃ a, x = .ok a ∧ f a = .panic := by
  cases x <;> simp

theorem ne_panic_of_eq_ok {x : Outcome ε α} {a : α} (h : x = .ok a) : x ≠ .panic := by
  rw [h]
  simp

theorem map_eq_ok {x : Outcome ε α} {f : α → β} {b : β} :
    f <$> x = .ok b ↔ ∃ a, x = .ok a ∧ f a = b := by
  cases x <;> simp

theorem map_eq_panic {x : Outcome ε α} {f : α → β} : f <$> x = .panic ↔ x = .panic := by
  cases x <;> simp

@[simp] theorem refuse_pos {c : Prop} [Decidable c] {e : ε} (h : c) :
    refuse c e = .err e := if_pos h

@[simp] theorem refuse_neg {c : Prop} [Decidable c] {e : ε} (h : ¬ c) :
    refuse c e = .ok () := if_neg h

theorem refuse_eq_ok {c : Prop} [Decidable c] {e : ε} {u : Unit} :
    refuse c e = .ok u ↔ ¬ c := by
  by_cases h : c <;> simp [h]

@[simp] theorem refuse_ne_panic {c : Prop} [Decidable c] {e : ε} :
    refuse c e ≠ .panic := by
  by_cases h : c <;> simp [h]

theorem okOr_eq_ok {o : Option α} {e : ε} {a : α} : okOr e o = .ok a ↔ o = some a := by
  cases o <;> simp [okOr]

@[simp] theorem okOr_ne_panic {o : Option α} {e : ε} : okOr e o ≠ .panic := by
  cases o <;> simp [okOr]

/-- Peel one refusal off a computation that returned. -/
theorem refuse_bind_eq_ok {c : Prop} [Decidable c] {e : ε} {f : Unit → Outcome ε β} {b : β} :
    refuse c e >>= f = .ok b ↔ ¬ c ∧ f () = .ok b := by
  by_cases h : c <;> simp [h]

/-- A refusal in front never adds a panic. -/
theorem refuse_bind_eq_panic {c : Prop} [Decidable c] {e : ε} {f : Unit → Outcome ε β} :
    refuse c e >>= f = .panic ↔ ¬ c ∧ f () = .panic := by
  by_cases h : c <;> simp [h]

end Outcome

/-- `a + b` on a 64-bit `usize` with overflow checks on. -/
def addUsize {ε : Type} (a b : Nat) : Outcome ε Nat :=
  if a + b < 2 ^ 64 then .ok (a + b) else .panic

/-- `a.checked_add(b)` on a 64-bit `usize`. -/
def checkedAdd (a b : Nat) : Option Nat :=
  if a + b < 2 ^ 64 then some (a + b) else none

@[simp] theorem addUsize_of_lt {ε : Type} {a b : Nat} (h : a + b < 2 ^ 64) :
    (addUsize a b : Outcome ε Nat) = .ok (a + b) := if_pos h

theorem addUsize_of_le {ε : Type} {a b : Nat} (h : 2 ^ 64 ≤ a + b) :
    (addUsize a b : Outcome ε Nat) = .panic := if_neg (Nat.not_lt.mpr h)

/-- Adding in two steps overflows exactly if the sum does. -/
theorem addUsize_add {ε : Type} (a b c : Nat) :
    ((addUsize a b >>= fun ab => addUsize ab c) : Outcome ε Nat) = addUsize (a + b) c := by
  by_cases h : a + b < 2 ^ 64
  · rw [addUsize_of_lt h, Outcome.ok_bind]
  · rw [addUsize_of_le (by omega), addUsize_of_le (by omega), Outcome.panic_bind]

@[simp] theorem checkedAdd_of_lt {a b : Nat} (h : a + b < 2 ^ 64) :
    checkedAdd a b = some (a + b) := if_pos h

end QuickRelay.Lib
