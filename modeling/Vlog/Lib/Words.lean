import Mathlib

/-!
# Words between separators

The maximal runs of symbols that are not separators, and a stream taken apart at its first word.
-/

namespace Vlog.Lib

variable {α : Type*} {sep : α → Bool}

def words (sep : α → Bool) (s : List α) : List (List α) := (s.splitOnP sep).filter (· ≠ [])

/-- Nothing, or a separator and more: where a word can end. -/
def Boundary (sep : α → Bool) (rest : List α) : Prop := ∀ b ∈ rest.head?, sep b = true

@[simp] theorem words_nil (sep : α → Bool) : words sep [] = [] := by simp [words]

theorem words_sep {b : α} (h : sep b = true) (s : List α) : words sep (b :: s) = words sep s := by
  simp [words, List.splitOnP_cons_eq_if_modifyHead, h]

theorem words_dropWhile (s : List α) : words sep (s.dropWhile sep) = words sep s := by
  induction s with
  | nil => rfl
  | cons b s ih =>
      by_cases hb : sep b = true
      · rw [List.dropWhile_cons_of_pos hb, ih, words_sep hb]
      · rw [List.dropWhile_cons_of_neg hb]

theorem words_append {w rest : List α} (hne : w ≠ []) (hw : ∀ b ∈ w, sep b = false)
    (hrest : Boundary sep rest) : words sep (w ++ rest) = w :: words sep rest := by
  cases rest with
  | nil => simp [words, List.splitOnP_eq_singleton hw, hne]
  | cons b rest =>
      have hb : sep b = true := hrest b rfl
      rw [words_sep hb]
      simp [words, List.splitOnP_append_cons_of_forall_mem hw b hb, hne]

theorem boundary_dropWhile (s : List α) : Boundary sep (s.dropWhile (!sep ·)) := by
  intro b hb
  have hstop := List.head?_dropWhile_not (!sep ·) s
  rw [Option.mem_def.mp hb] at hstop
  simpa using hstop

/-- A symbol that is not a separator belongs to the first word. -/
theorem words_cons {b : α} (h : sep b = false) (s : List α) :
    words sep (b :: s) = (b :: s.takeWhile (!sep ·)) :: words sep (s.dropWhile (!sep ·)) := by
  have hword : ∀ c ∈ b :: s.takeWhile (!sep ·), sep c = false := by
    intro c hc
    cases hc with
    | head => exact h
    | tail _ hc => simpa using List.mem_takeWhile_imp hc
  have hsplit := words_append (List.cons_ne_nil b _) hword (boundary_dropWhile s)
  rwa [List.cons_append, List.takeWhile_append_dropWhile] at hsplit

/-- A separator ends the words in front of it. -/
theorem words_append_sep {b : α} (h : sep b = true) (s t : List α) :
    words sep (s ++ b :: t) = words sep s ++ words sep t := by
  rw [words, List.splitOnP_append_cons s t h, List.filter_append, words, words]

/-- What a stream without separators in front starts with. -/
theorem exists_first_word {s : List α} (hne : s ≠ []) (hs : ∀ b ∈ s.head?, sep b = false) :
    ∃ w rest, s = w ++ rest ∧ w ≠ [] ∧ (∀ b ∈ w, sep b = false) ∧ Boundary sep rest := by
  refine ⟨s.takeWhile (!sep ·), s.dropWhile (!sep ·), List.takeWhile_append_dropWhile.symm, ?_, ?_,
    boundary_dropWhile s⟩
  · obtain ⟨b, s', rfl⟩ := List.exists_cons_of_ne_nil hne
    simp [hs b rfl]
  · intro b hb
    simpa using List.mem_takeWhile_imp hb

theorem head_dropWhile (s : List α) : ∀ b ∈ (s.dropWhile sep).head?, sep b = false := by
  intro b hb
  have hstop := List.head?_dropWhile_not sep s
  rw [Option.mem_def.mp hb] at hstop
  simpa using hstop

/-! ## A run of symbols and what stops it -/

theorem takeWhile_append_stop {p : α → Bool} {w rest : List α} (hw : ∀ b ∈ w, p b = true)
    (hrest : ∀ b ∈ rest.head?, p b = false) : (w ++ rest).takeWhile p = w := by
  rw [List.takeWhile_append_of_pos hw]
  cases rest with
  | nil => simp
  | cons b rest => simp [hrest b rfl]

theorem dropWhile_append_stop {p : α → Bool} {w rest : List α} (hw : ∀ b ∈ w, p b = true)
    (hrest : ∀ b ∈ rest.head?, p b = false) : (w ++ rest).dropWhile p = rest := by
  rw [List.dropWhile_append_of_pos hw]
  cases rest with
  | nil => rfl
  | cons b rest => simp [hrest b rfl]

end Vlog.Lib
