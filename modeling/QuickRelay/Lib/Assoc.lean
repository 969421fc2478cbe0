import Mathlib.Data.List.Nodup
import Mathlib.Tactic.Common

/-! Association lists with distinct keys: lookup is membership, and the edits that
keep the keys distinct. -/
namespace QuickRelay.Lib.Assoc

variable {κ β : Type}

abbrev keys (l : List (κ × β)) : List κ := l.map Prod.fst

theorem nodup_filter {p : κ × β → Bool} {l : List (κ × β)} (h : (keys l).Nodup) : (keys (l.filter p)).Nodup :=
  h.sublist (List.filter_sublist.map _)

theorem nodup_eraseP {p : κ × β → Bool} {l : List (κ × β)} (h : (keys l).Nodup) : (keys (l.eraseP p)).Nodup :=
  h.sublist (List.eraseP_sublist.map _)

theorem nodup_concat {k : κ} {v : β} {l : List (κ × β)} (h : (keys l).Nodup) (hk : k ∉ keys l) :
    (keys (l ++ [(k, v)])).Nodup := by
  rw [keys, List.map_append, List.map_cons, List.map_nil, ← List.concat_eq_append, List.nodup_concat]
  exact ⟨hk, h⟩

/-- A nonempty list has an entry that no other undercuts. -/
theorem exists_least {f : κ × β → Nat} {l : List (κ × β)} (h : l ≠ []) : ∃ e ∈ l, ∀ e' ∈ l, f e ≤ f e' := by
  induction l with
  | nil => exact absurd rfl h
  | cons e l ih =>
    by_cases hl : l = []
    · exact ⟨e, by simp, by simp [hl]⟩
    · obtain ⟨m, hm, hle⟩ := ih hl
      by_cases hem : f e ≤ f m
      · refine ⟨e, by simp, fun e' he' => ?_⟩
        rcases List.mem_cons.mp he' with rfl | he'
        · exact Nat.le_refl _
        · exact Nat.le_trans hem (hle e' he')
      · refine ⟨m, by simp [hm], fun e' he' => ?_⟩
        rcases List.mem_cons.mp he' with rfl | he'
        · omega
        · exact hle e' he'

/-- To drop the least entry, wherever it stands, is to drop the last of the entries in
falling order. -/
theorem eraseP_least_perm {f : κ × β → Nat} {l a : List (κ × β)} {z : κ × β} (h : l.Perm (a ++ [z]))
    (hz : ∀ e ∈ a, f z < f e) : (l.eraseP fun e => l.all fun e' => decide (f e ≤ f e')).Perm a := by
  have hmem : ∀ e, e ∈ l ↔ e ∈ a ∨ e = z := by
    intro e
    rw [h.mem_iff, List.mem_append, List.mem_singleton]
  have hleast : (l.all fun e' => decide (f z ≤ f e')) = true := by
    refine List.all_eq_true.mpr fun e he => decide_eq_true ?_
    rcases (hmem e).mp he with hea | rfl
    · exact Nat.le_of_lt (hz e hea)
    · exact Nat.le_refl _
  obtain ⟨x, l₁, l₂, -, hx, hl, herase⟩ :=
    List.exists_of_eraseP (p := fun e => l.all fun e' => decide (f e ≤ f e')) ((hmem z).mpr (.inr rfl)) hleast
  obtain rfl : x = z := by
    have hxl : x ∈ l := by
      rw [hl]
      exact List.mem_append_right _ (List.mem_cons_self ..)
    refine ((hmem x).mp hxl).resolve_left fun hxa => ?_
    have hle := of_decide_eq_true (List.all_eq_true.mp hx z ((hmem z).mpr (.inr rfl)))
    exact absurd (hz x hxa) (Nat.not_lt.mpr hle)
  have hl' : l.Perm (x :: (l₁ ++ l₂)) := hl ▸ List.perm_middle
  have ha : (a ++ [x]).Perm (x :: a) := List.perm_append_singleton x a
  rw [herase]
  exact List.Perm.cons_inv (hl'.symm.trans (h.trans ha))

variable [DecidableEq κ]

/-- The value under the first entry with this key. -/
def find (k : κ) (l : List (κ × β)) : Option β := (l.find? fun e => e.1 == k).map Prod.snd

/-- The first entry with this key gets a new value. -/
def replace (k : κ) (v : β) : List (κ × β) → List (κ × β)
  | [] => []
  | e :: l => if e.1 = k then (k, v) :: l else e :: replace k v l

theorem mem_of_find {k : κ} {v : β} {l : List (κ × β)} (h : find k l = some v) : (k, v) ∈ l := by
  obtain ⟨e, he, rfl⟩ := Option.map_eq_some_iff.mp h
  obtain rfl : e.1 = k := by simpa using List.find?_some he
  exact List.mem_of_find?_eq_some he

/-- With distinct keys an entry is what lookup finds. -/
theorem find_eq_some {k : κ} {v : β} {l : List (κ × β)} (h : (keys l).Nodup) : find k l = some v ↔ (k, v) ∈ l := by
  refine ⟨mem_of_find, fun hm => ?_⟩
  induction l with
  | nil => cases hm
  | cons e l ih =>
    rw [keys, List.map_cons, List.nodup_cons] at h
    rcases List.mem_cons.mp hm with rfl | hm
    · simp [find]
    · have hne : e.1 ≠ k := fun he => h.1 (he ▸ List.mem_map_of_mem hm)
      have := ih h.2 hm
      simpa [find, hne] using this

theorem unique {k : κ} {v w : β} {l : List (κ × β)} (h : (keys l).Nodup) (hv : (k, v) ∈ l) (hw : (k, w) ∈ l) : v = w :=
  Option.some.inj (((find_eq_some h).mpr hv).symm.trans ((find_eq_some h).mpr hw))

theorem keys_replace (k : κ) (v : β) (l : List (κ × β)) : keys (replace k v l) = keys l := by
  induction l with
  | nil => rfl
  | cons e l ih =>
    rw [replace]
    split
    · simp [*]
    · simp only [keys, List.map_cons] at ih ⊢
      rw [ih]

theorem length_replace (k : κ) (v : β) (l : List (κ × β)) : (replace k v l).length = l.length := by
  have := congrArg List.length (keys_replace k v l)
  simpa using this

/-- Only the entry under the key is new. -/
theorem mem_replace {k : κ} {v : β} {l : List (κ × β)} (h : (keys l).Nodup) {e : κ × β} :
    e ∈ replace k v l ↔ e = (k, v) ∧ k ∈ keys l ∨ e ∈ l ∧ e.1 ≠ k := by
  induction l with
  | nil => simp [replace]
  | cons f l ih =>
    rw [keys, List.map_cons, List.nodup_cons] at h
    rw [replace]
    by_cases hf : f.1 = k
    · subst hf
      rw [if_pos rfl, List.mem_cons, List.mem_cons]
      constructor
      · rintro (rfl | he)
        · exact .inl ⟨rfl, by simp⟩
        · exact .inr ⟨.inr he, fun hk => h.1 (hk ▸ List.mem_map_of_mem he)⟩
      · rintro (⟨rfl, -⟩ | ⟨rfl | he, hk⟩)
        · exact .inl rfl
        · exact absurd rfl hk
        · exact .inr he
    · rw [if_neg hf, List.mem_cons, List.mem_cons, ih h.2, keys, keys, List.map_cons, List.mem_cons]
      constructor
      · rintro (rfl | ⟨rfl, hk⟩ | ⟨he, hk⟩)
        · exact .inr ⟨.inl rfl, hf⟩
        · exact .inl ⟨rfl, .inr hk⟩
        · exact .inr ⟨.inr he, hk⟩
      · rintro (⟨rfl, rfl | hk⟩ | ⟨rfl | he, hk⟩)
        · exact absurd rfl hf
        · exact .inr (.inl ⟨rfl, hk⟩)
        · exact .inl rfl
        · exact .inr (.inr ⟨he, hk⟩)

end QuickRelay.Lib.Assoc
