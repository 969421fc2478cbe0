import Mathlib.Data.Finset.Card
import Mathlib.Data.List.Dedup
import QuickRelay.Lib.Assoc

/-! Keys in the order they were last filed: of every key its last entry, the latest
first. A store of bounded size that evicts the entry filed longest ago holds the first of
them. -/
namespace QuickRelay.Lib.Recency
open Assoc

variable {κ β : Type} [DecidableEq κ]

/-- The entries under other keys. -/
def without (k : κ) (l : List (κ × β)) : List (κ × β) := l.filter fun e => decide (e.1 ≠ k)

/-- The entry goes to the front, and an older one under its key goes. -/
def touch (l : List (κ × β)) (e : κ × β) : List (κ × β) := e :: without e.1 l

/-- The last entry filed under each key, the latest first. -/
def recents (es : List (κ × β)) : List (κ × β) := es.foldl touch []

theorem mem_without {k : κ} {l : List (κ × β)} {e : κ × β} : e ∈ without k l ↔ e ∈ l ∧ e.1 ≠ k := by
  rw [without, List.mem_filter, decide_eq_true_iff]

theorem without_of_not_mem {k : κ} {l : List (κ × β)} (h : k ∉ keys l) : without k l = l := by
  refine List.filter_eq_self.mpr fun e he => decide_eq_true ?_
  rintro rfl
  exact h (List.mem_map_of_mem he)

theorem without_cons_self (k : κ) (v : β) (l : List (κ × β)) : without k ((k, v) :: l) = without k l :=
  List.filter_cons_of_neg (by simp)

theorem without_cons_ne {k : κ} {e : κ × β} (h : e.1 ≠ k) (l : List (κ × β)) : without k (e :: l) = e :: without k l :=
  List.filter_cons_of_pos (decide_eq_true h)

@[simp] theorem recents_nil : recents ([] : List (κ × β)) = [] := rfl

theorem recents_concat (es : List (κ × β)) (e : κ × β) : recents (es ++ [e]) = touch (recents es) e := by
  rw [recents, List.foldl_append]
  rfl

theorem recents_subset (es : List (κ × β)) {e : κ × β} (h : e ∈ recents es) : e ∈ es := by
  induction es using List.reverseRecOn with
  | nil => exact h
  | append_singleton es f ih =>
    rw [recents_concat] at h
    rcases List.mem_cons.mp h with rfl | h
    · exact List.mem_concat_self ..
    · exact List.mem_append_left _ (ih (mem_without.mp h).1)

theorem recents_nodup (es : List (κ × β)) : (keys (recents es)).Nodup := by
  induction es using List.reverseRecOn with
  | nil => exact .nil
  | append_singleton es e ih =>
    rw [recents_concat, touch, keys, List.map_cons, List.nodup_cons]
    refine ⟨fun hmem => ?_, nodup_filter ih⟩
    obtain ⟨f, hf, hkey⟩ := List.mem_map.mp hmem
    exact (mem_without.mp hf).2 hkey

/-- Along entries in some order, the recent ones stand in the reverse order. -/
theorem recents_pairwise {r : κ × β → κ × β → Prop} {es : List (κ × β)} (h : es.Pairwise r) :
    (recents es).Pairwise fun a b => r b a := by
  induction es using List.reverseRecOn with
  | nil => exact .nil
  | append_singleton es e ih =>
    obtain ⟨hes, -, hlast⟩ := List.pairwise_append.mp h
    rw [recents_concat, touch, List.pairwise_cons]
    refine ⟨fun f hf => ?_, (ih hes).filter _⟩
    exact hlast f (recents_subset es (mem_without.mp hf).1) e (List.mem_singleton_self e)

/-! ### How recent an entry is -/

theorem recents_append (es fs : List (κ × β)) :
    recents (es ++ fs) = recents fs ++ (recents es).filter fun e => decide (e.1 ∉ keys fs) := by
  induction fs using List.reverseRecOn with
  | nil => simp
  | append_singleton fs f ih =>
    rw [← List.append_assoc, recents_concat, recents_concat, ih, touch, touch, without, List.filter_append,
      List.filter_filter, List.cons_append]
    congr 2
    apply List.filter_congr
    intro e _
    have hkeys : e.1 ∈ keys (fs ++ [f]) ↔ e.1 ∈ keys fs ∨ e.1 = f.1 := by
      rw [keys, List.map_append, List.mem_append, List.map_cons, List.map_nil, List.mem_singleton]
    rw [Bool.eq_iff_iff, Bool.and_eq_true, decide_eq_true_iff, decide_eq_true_iff, decide_eq_true_iff, hkeys, not_or,
      and_comm]

theorem mem_keys_recents {k : κ} (es : List (κ × β)) : k ∈ keys (recents es) ↔ k ∈ keys es := by
  induction es using List.reverseRecOn with
  | nil => rfl
  | append_singleton es e ih =>
    have hold : k ∈ keys (without e.1 (recents es)) ↔ k ∈ keys es ∧ k ≠ e.1 := by
      rw [← ih, keys, List.mem_map]
      constructor
      · rintro ⟨f, hf, rfl⟩
        exact ⟨List.mem_map_of_mem (mem_without.mp hf).1, (mem_without.mp hf).2⟩
      · rintro ⟨hk, hne⟩
        obtain ⟨f, hf, rfl⟩ := List.mem_map.mp hk
        exact ⟨f, mem_without.mpr ⟨hf, hne⟩, rfl⟩
    rw [recents_concat, touch, keys, List.map_cons, List.mem_cons, keys, List.map_append, List.mem_append, List.map_cons,
      List.map_nil, List.mem_singleton]
    rw [keys] at hold
    rw [hold]
    by_cases hk : k = e.1
    · exact iff_of_true (.inl hk) (.inr hk)
    · rw [or_iff_right hk, and_iff_left hk, or_iff_left hk]

theorem length_recents (es : List (κ × β)) : (recents es).length = (keys es).toFinset.card := by
  have hset : (keys es).toFinset = (keys (recents es)).toFinset := by
    ext k
    rw [List.mem_toFinset, List.mem_toFinset, mem_keys_recents]
  rw [hset, List.toFinset_card_of_nodup (recents_nodup es), List.length_map]

/-- In front of a key's last entry stand the keys filed since. -/
theorem recents_split {pre post : List (κ × β)} {k : κ} {v : β} (h : k ∉ keys post) :
    ∃ rest, recents (pre ++ (k, v) :: post) = recents post ++ (k, v) :: rest := by
  rw [List.append_cons, recents_append, recents_concat, touch]
  exact ⟨_, congrArg _ (List.filter_cons_of_pos (decide_eq_true h))⟩

theorem exists_last {k : κ} {es : List (κ × β)} (h : k ∈ keys es) :
    ∃ pre v post, es = pre ++ (k, v) :: post ∧ k ∉ keys post := by
  induction es using List.reverseRecOn with
  | nil => cases h
  | append_singleton es e ih =>
    by_cases hk : e.1 = k
    · subst hk
      exact ⟨es, e.2, [], rfl, List.not_mem_nil⟩
    · have hes : k ∈ keys es := by
        rw [keys, List.map_append, List.mem_append] at h
        exact h.resolve_right fun hmem => hk (List.mem_singleton.mp hmem).symm
      obtain ⟨pre, v, post, rfl, hpost⟩ := ih hes
      refine ⟨pre, v, post ++ [e], by rw [List.append_assoc, List.cons_append], ?_⟩
      rw [keys, List.map_append, List.mem_append, not_or]
      exact ⟨hpost, fun hmem => hk (List.mem_singleton.mp hmem).symm⟩

/-- An entry is among the `n` most recent exactly when it is the last under its key and
fewer than `n` other keys were filed since. -/
theorem mem_take_recents {es : List (κ × β)} {n : Nat} {k : κ} {v : β} : (k, v) ∈ (recents es).take n ↔
    ∃ pre post, es = pre ++ (k, v) :: post ∧ k ∉ keys post ∧ (keys post).toFinset.card < n := by
  constructor
  · intro h
    have hmem := List.mem_of_mem_take h
    obtain ⟨pre, w, post, rfl, hpost⟩ := exists_last (List.mem_map_of_mem (recents_subset es hmem))
    have hsplit : ∃ rest, recents (pre ++ (k, w) :: post) = recents post ++ (k, w) :: rest := recents_split hpost
    obtain ⟨rest, hrest⟩ := hsplit
    have hw : (k, w) ∈ recents (pre ++ (k, w) :: post) := by
      rw [hrest]
      exact List.mem_append_right _ (List.mem_cons_self ..)
    obtain rfl : v = w := unique (recents_nodup _) hmem hw
    refine ⟨pre, post, rfl, hpost, ?_⟩
    by_contra hle
    rw [← length_recents, Nat.not_lt] at hle
    rw [hrest, List.take_append_of_le_length hle] at h
    exact hpost ((mem_keys_recents post).mp (List.mem_map_of_mem (List.mem_of_mem_take h)))
  · rintro ⟨pre, post, rfl, hpost, hlt⟩
    have hsplit : ∃ rest, recents (pre ++ (k, v) :: post) = recents post ++ (k, v) :: rest := recents_split hpost
    obtain ⟨rest, hrest⟩ := hsplit
    rw [← length_recents] at hlt
    rw [hrest, List.take_append, List.take_of_length_le hlt.le]
    refine List.mem_append_right _ ?_
    obtain ⟨m, hm⟩ := Nat.exists_eq_add_of_lt hlt
    rw [hm, Nat.add_assoc, Nat.add_sub_cancel_left, List.take_succ_cons]
    exact List.mem_cons_self ..

/-! ### Room for one more -/

/-- A key that is among the first entries frees their last place. -/
theorem take_without_of_mem {k : κ} {l : List (κ × β)} {n : Nat} (hl : (keys l).Nodup) (h : k ∈ keys (l.take (n + 1))) :
    (without k l).take n = without k (l.take (n + 1)) := by
  induction l generalizing n with
  | nil => cases h
  | cons e l ih =>
    rw [keys, List.map_cons, List.nodup_cons] at hl
    rw [List.take_succ_cons] at h ⊢
    by_cases he : e.1 = k
    · subst he
      have hnot : e.1 ∉ keys (l.take n) := fun hmem => hl.1 (((List.take_sublist n l).map Prod.fst).subset hmem)
      rw [without_cons_self e.1 e.2, without_cons_self e.1 e.2, without_of_not_mem hl.1, without_of_not_mem hnot]
    · rw [without_cons_ne he, without_cons_ne he]
      rw [keys, List.map_cons, List.mem_cons] at h
      have hmem := h.resolve_left fun heq => he heq.symm
      cases n with
      | zero => cases hmem
      | succ n => rw [List.take_succ_cons, ih hl.2 hmem]

/-- A key that is not makes no difference to them. -/
theorem take_without_of_not_mem {k : κ} {l : List (κ × β)} {n : Nat} (h : k ∉ keys (l.take n)) :
    (without k l).take n = l.take n := by
  induction l generalizing n with
  | nil => rfl
  | cons e l ih =>
    cases n with
    | zero => rfl
    | succ n =>
      rw [List.take_succ_cons, keys, List.map_cons, List.mem_cons, not_or] at h
      rw [without_cons_ne (Ne.symm h.1), List.take_succ_cons, List.take_succ_cons, ih h.2]

/-! ### Edits up to order -/

theorem replace_perm {k : κ} {l : List (κ × β)} (hl : (keys l).Nodup) (h : k ∈ keys l) (v : β) :
    (replace k v l).Perm ((k, v) :: without k l) := by
  induction l with
  | nil => cases h
  | cons e l ih =>
    rw [keys, List.map_cons, List.nodup_cons] at hl
    rw [replace]
    by_cases he : e.1 = k
    · subst he
      rw [if_pos rfl, without_cons_self e.1 e.2, without_of_not_mem hl.1]
    · rw [keys, List.map_cons, List.mem_cons] at h
      have hperm := ih hl.2 (h.resolve_left fun heq => he heq.symm)
      rw [if_neg he, without_cons_ne he]
      exact (hperm.cons e).trans (.swap _ _ _)

end QuickRelay.Lib.Recency
