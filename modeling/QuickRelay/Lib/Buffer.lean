import QuickRelay.Lib.Octets

/-! Computations on a caller's buffer. The buffer outlives a failure, so what an
error leaves behind can be stated. -/
namespace QuickRelay.Lib

/-- A computation on a `&mut [u8]`: its outcome and the buffer afterwards. -/
def Buffer (ε α : Type) := Bytes → Outcome ε α × Bytes

namespace Buffer
variable {ε α β : Type}

def bind (x : Buffer ε α) (f : α → Buffer ε β) : Buffer ε β := fun out =>
  match x out with
  | (.ok a, out') => f a out'
  | (.err e, out') => (.err e, out')
  | (.panic, out') => (.panic, out')

instance : Monad (Buffer ε) where
  pure a := fun out => (.ok a, out)
  bind := Buffer.bind

/-- A computation that does not look at the buffer. -/
def lift (x : Outcome ε α) : Buffer ε α := fun out => (x, out)

/-- `out.len()`. -/
def len : Buffer ε Nat := fun out => (.ok out.length, out)

/-- The buffer as a shared slice. -/
def contents : Buffer ε Bytes := fun out => (.ok out, out)

/-- `out[i] = x`. -/
def set (i : Nat) (x : UInt8) : Buffer ε Unit := fun out =>
  if i < out.length then (.ok (), out.set i x) else (.panic, out)

/-- `out[lo..hi].copy_from_slice(src)`. -/
def copy (lo hi : Nat) (src : Bytes) : Buffer ε Unit := fun out =>
  match copyInto out lo hi src with
  | .ok out' => (.ok (), out')
  | .err e => (.err e, out)
  | .panic => (.panic, out)

/-- The buffer a successful computation leaves. -/
def exec (x : Buffer ε α) (out : Bytes) : Outcome ε Bytes :=
  match x out with
  | (.ok _, out') => .ok out'
  | (.err e, _) => .err e
  | (.panic, _) => .panic

@[simp] theorem pure_run (a : α) (out : Bytes) : (pure a : Buffer ε α) out = (.ok a, out) := rfl

theorem bind_run (x : Buffer ε α) (f : α → Buffer ε β) (out : Bytes) :
    (x >>= f) out = match x out with
      | (.ok a, out') => f a out'
      | (.err e, out') => (.err e, out')
      | (.panic, out') => (.panic, out') := rfl

theorem exec_eq_ok {x : Buffer ε α} {out out' : Bytes} : x.exec out = .ok out' ↔ ∃ a, x out = (.ok a, out') := by
  unfold exec
  split <;> simp_all

theorem bind_run_ok {x : Buffer ε α} {f : α → Buffer ε β} {out out' : Bytes} {a : α}
    (h : x out = (.ok a, out')) : (x >>= f) out = f a out' := by
  rw [bind_run, h]

@[simp] theorem lift_run (x : Outcome ε α) (out : Bytes) : lift x out = (x, out) := rfl

@[simp] theorem len_run (out : Bytes) : (len : Buffer ε Nat) out = (.ok out.length, out) := rfl

@[simp] theorem contents_run (out : Bytes) : (contents : Buffer ε Bytes) out = (.ok out, out) := rfl

theorem set_run {out : Bytes} {i : Nat} (x : UInt8) (h : i < out.length) :
    (set i x : Buffer ε Unit) out = (.ok (), out.set i x) := if_pos h

theorem copy_run {out src : Bytes} {lo hi : Nat} (h : lo ≤ hi) (h' : hi ≤ out.length)
    (hs : src.length = hi - lo) :
    (copy lo hi src : Buffer ε Unit) out = (.ok (), out.take lo ++ src ++ out.drop hi) := by
  rw [copy, copyInto_of_le h h' hs]

/-- A copy to the front of the buffer. -/
theorem copy_zero_run {out src : Bytes} (h : src.length ≤ out.length) :
    (copy 0 src.length src : Buffer ε Unit) out = (.ok (), src ++ out.drop src.length) := by
  rw [copy_run (by omega) h (by omega)]
  rfl

/-- The computation writes `v` over the front of any buffer that holds it and
returns its length; otherwise it fails and writes nothing. -/
def Writes (w : Buffer ε Nat) (e : ε) (v : Bytes) : Prop :=
  ∀ out, w out = if v.length ≤ out.length then (.ok v.length, v ++ out.drop v.length) else (.err e, out)

/-- A refusal in front of a computation leaves the buffer alone. -/
theorem refuse_bind_run {c : Prop} [Decidable c] {e : ε} {f : Unit → Buffer ε β} {out : Bytes} :
    (lift (Outcome.refuse c e) >>= f) out = if c then (.err e, out) else f () out := by
  by_cases h : c <;> simp [bind_run, h]

/-- A length check in front of a copy, as every plain value is written. -/
def writeAll (e : ε) (src : Bytes) : Buffer ε Nat := do
  let n ← len
  lift (Outcome.refuse (n < src.length) e)
  copy 0 src.length src
  return src.length

theorem writeAll_writes (e : ε) (src : Bytes) : (writeAll e src).Writes e src := by
  intro out
  rw [writeAll, bind_run_ok (len_run out), refuse_bind_run]
  by_cases h : src.length ≤ out.length
  · rw [if_pos h, if_neg (by omega), bind_run_ok (copy_zero_run h)]
    rfl
  · rw [if_neg h, if_pos (by omega)]

/-! ### Overwriting a range -/

section
variable {d v : Bytes} {lo hi : Nat}

/-- What overwriting a range leaves as it was, and what it puts there. -/
theorem overwritten {d' : Bytes} (hlo : lo ≤ hi) (hhi : hi ≤ d.length) (hv : v.length = hi - lo)
    (h : d' = d.take lo ++ v ++ d.drop hi) : d'.length = d.length ∧ (∀ n, n ≤ lo → d'.take n = d.take n) ∧
      d'.drop hi = d.drop hi ∧ (d'.drop lo).take v.length = v := by
  have htl : (d.take lo).length = lo := List.length_take_of_le (Nat.le_trans hlo hhi)
  refine ⟨?_, fun n hn => ?_, ?_, ?_⟩
  · rw [h]
    simp only [List.length_append, List.length_drop, htl, hv]
    omega
  · rw [h, List.append_assoc, List.take_append_of_le_length (by omega), List.take_take, Nat.min_eq_left hn]
  · rw [h, List.drop_left' (by rw [List.length_append, htl, hv]; omega)]
  · rw [h, List.append_assoc, List.drop_left' htl, List.take_left]

/-- The computation and the check return on `d`. The computation fails and leaves it alone,
or changes the octets from `lo` to `hi` only, and then the check passes. -/
structure Fills (fill : Buffer ε α) (check : Bytes → Outcome ε Unit) (lo hi : Nat) (d : Bytes) : Prop where
  returns : (fill d).1 ≠ .panic
  checks : check d ≠ .panic
  unchanged : ∀ e, (fill d).1 = .err e → (fill d).2 = d
  filled : ∀ a, (fill d).1 = .ok a →
    (fill d).2.length = d.length ∧ (fill d).2.take lo = d.take lo ∧ (fill d).2.drop hi = d.drop hi
  passes : ∀ a, (fill d).1 = .ok a → check (fill d).2 = .ok ()

variable {fill : Buffer ε α} {check : Bytes → Outcome ε Unit}

theorem Fills.of_err {e : ε} (h : fill d = (.err e, d)) (hc : check d ≠ .panic) : Fills fill check lo hi d := by
  constructor
  case returns => simp [h]
  case checks => exact hc
  case unchanged => simp [h]
  case filled => simp [h]
  case passes => simp [h]

theorem Fills.of_copy {a : α} (h : fill d = (.ok a, d.take lo ++ v ++ d.drop hi)) (hlo : lo ≤ hi) (hhi : hi ≤ d.length)
    (hv : v.length = hi - lo) (hc : check d ≠ .panic) (hp : check (d.take lo ++ v ++ d.drop hi) = .ok ()) :
    Fills fill check lo hi d := by
  constructor
  case returns => simp [h]
  case checks => exact hc
  case unchanged => simp [h]
  case filled =>
    obtain ⟨hlen, htake, hdrop, -⟩ := overwritten hlo hhi hv (congrArg Prod.snd h)
    exact fun _ _ => ⟨hlen, htake lo (Nat.le_refl lo), hdrop⟩
  case passes =>
    intro _ _
    rw [h]
    exact hp

end

end Buffer
end QuickRelay.Lib
