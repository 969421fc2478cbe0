import Mathlib.Data.List.DropRight
import Mathlib.Tactic.Common
import QuickRelay.Lib.Octets

/-! UTF-8 text, trimming, comma-separated lists, and fields around a separator. -/
namespace QuickRelay.Lib

/-- `s.as_bytes()`. -/
def utf8Bytes (s : String) : Bytes := s.toUTF8.data.toList

/-- `String::from_utf8(b)`. -/
def fromUtf8 (b : Bytes) : Option String := String.fromUTF8? ⟨b.toArray⟩

@[simp] theorem fromUtf8_utf8Bytes (s : String) : fromUtf8 (utf8Bytes s) = some s := by
  have hv : (ByteArray.mk s.toByteArray.data.toList.toArray).IsValidUTF8 := by
    rw [Array.toArray_toList]; exact s.isValidUTF8
  simp only [fromUtf8, utf8Bytes, String.toUTF8_eq_toByteArray, String.fromUTF8?, dif_pos hv]
  rfl

theorem utf8Bytes_of_fromUtf8 {b : Bytes} {s : String} (h : fromUtf8 b = some s) : utf8Bytes s = b := by
  unfold fromUtf8 String.fromUTF8? at h
  split at h <;> cases h
  rfl

/-- The characters of Unicode's `White_Space` property. -/
def isWhitespace (c : Char) : Bool :=
  let n := c.toNat
  (0x09 ≤ n && n ≤ 0x0D) || n == 0x20 || n == 0x85 || n == 0xA0 || n == 0x1680 || (0x2000 ≤ n && n ≤ 0x200A) ||
    n == 0x2028 || n == 0x2029 || n == 0x202F || n == 0x205F || n == 0x3000

/-- `str::trim`. -/
def trim (l : List Char) : List Char := (l.dropWhile isWhitespace).rdropWhile isWhitespace

/-- `s.split(',').map(str::trim).filter(|p| !p.is_empty())`. -/
def commaParts (s : String) : List String :=
  (((s.toList.splitOn ',').map trim).filter (· ≠ [])).map String.ofList

/-- `parts.join(",")`. -/
def commaJoin (parts : List String) : String := String.ofList ([','].intercalate (parts.map String.toList))

theorem trim_sublist (l : List Char) : (trim l).Sublist l :=
  (List.rdropWhile_prefix _ _).sublist.trans (List.dropWhile_suffix _).sublist

private theorem dropWhile_head {l : List Char} {c : Char} {t : List Char}
    (h : l.dropWhile isWhitespace = c :: t) : isWhitespace c = false := by
  have := List.dropWhile_get_zero_not (p := isWhitespace) l (by rw [h]; simp)
  simpa [h] using this

/-- Trimming twice is trimming once. -/
theorem trim_trim (l : List Char) : trim (trim l) = trim l := by
  have hd : (trim l).dropWhile isWhitespace = trim l := by
    cases ht : trim l with
    | nil => rfl
    | cons c t =>
      obtain ⟨r, hr⟩ := List.rdropWhile_prefix isWhitespace (l.dropWhile isWhitespace)
      change trim l ++ r = _ at hr
      rw [ht, List.cons_append] at hr
      rw [List.dropWhile_cons_of_neg (by rw [dropWhile_head hr.symm]; simp)]
  rw [trim, hd, trim, List.rdropWhile_idempotent]

private theorem not_mem_of_mem_splitOn {c : Char} {l piece : List Char} (h : piece ∈ l.splitOn c) : c ∉ piece := by
  induction l generalizing piece with
  | nil =>
    simp only [List.splitOn_nil, List.mem_singleton] at h
    simp [h]
  | cons x l ih =>
    rw [List.splitOn_cons_eq_if_modifyHead] at h
    by_cases hx : x = c
    · simp only [hx, beq_self_eq_true, if_true, List.mem_cons] at h
      rcases h with rfl | h
      · exact List.not_mem_nil
      · exact ih h
    · simp only [beq_iff_eq, hx, if_false] at h
      cases hs : l.splitOn c with
      | nil => simp [hs] at h
      | cons p ps =>
        simp only [hs, List.modifyHead_cons, List.mem_cons] at h
        rcases h with rfl | h
        · have hp : c ∉ p := ih (by simp [hs])
          simp [hp, Ne.symm hx]
        · exact ih (by simp [hs, h])

/-- A part is trimmed, non-empty and free of commas. -/
theorem mem_commaParts {s p : String} (h : p ∈ commaParts s) :
    trim p.toList = p.toList ∧ p.toList ≠ [] ∧ ',' ∉ p.toList := by
  simp only [commaParts, List.mem_map, List.mem_filter, decide_eq_true_eq] at h
  obtain ⟨l, ⟨⟨piece, hp, rfl⟩, hne⟩, rfl⟩ := h
  rw [String.toList_ofList]
  exact ⟨trim_trim piece, hne, fun hc => not_mem_of_mem_splitOn hp ((trim_sublist piece).subset hc)⟩

/-- Joining parts and splitting the text again gives the parts back. -/
theorem commaParts_commaJoin {parts : List String} (hne : parts ≠ [])
    (h : ∀ p ∈ parts, trim p.toList = p.toList ∧ p.toList ≠ [] ∧ ',' ∉ p.toList) :
    commaParts (commaJoin parts) = parts := by
  have hsplit : (commaJoin parts).toList.splitOn ',' = parts.map String.toList := by
    rw [commaJoin, String.toList_ofList]
    refine List.splitOn_intercalate ',' ?_ (by simpa using hne)
    simp only [List.mem_map]
    rintro _ ⟨p, hp, rfl⟩
    exact (h p hp).2.2
  have htrim : (parts.map String.toList).map trim = parts.map String.toList := by
    rw [List.map_map]
    exact List.map_congr_left fun p hp => (h p hp).1
  have hkeep : (parts.map String.toList).filter (· ≠ []) = parts.map String.toList := by
    rw [List.filter_eq_self]
    simp only [List.mem_map, decide_eq_true_eq]
    rintro _ ⟨p, hp, rfl⟩
    exact (h p hp).2.1
  rw [commaParts, hsplit, htrim, hkeep, List.map_map]
  simp [Function.comp_def]

/-! ### Fields around a separator -/

section Cut
variable {α : Type} [DecidableEq α] {s : α} {a b l : List α}

/-- What comes in front of the first `s` and what comes behind it. -/
def cut (s : α) (l : List α) : List α × List α := (l.takeWhile (· ≠ s), (l.dropWhile (· ≠ s)).tail)

theorem cut_join (h : s ∉ a) : cut s (a ++ s :: b) = (a, b) := by
  have hkeep : ∀ x ∈ a, decide (x ≠ s) = true := fun x hx => decide_eq_true (ne_of_mem_of_not_mem hx h)
  rw [cut, List.takeWhile_append_of_pos hkeep, List.dropWhile_append_of_pos hkeep]
  simp

theorem join_cut (h : s ∈ l) : (cut s l).1 ++ s :: (cut s l).2 = l := by
  induction l with
  | nil => cases h
  | cons x l ih =>
    by_cases hx : x = s
    · simp [cut, hx]
    · have hl : s ∈ l := (List.mem_cons.mp h).resolve_left (Ne.symm hx)
      simpa [cut, hx] using ih hl

/-- The first `s` comes no later than this one. -/
theorem mem_cut_snd (h : s ∈ b) : s ∈ (cut s (a ++ s :: b)).2 := by
  induction a with
  | nil => simpa [cut] using h
  | cons x a ih =>
    by_cases hx : x = s
    · simp [cut, hx]
    · simpa [cut, hx] using ih

end Cut

end QuickRelay.Lib
