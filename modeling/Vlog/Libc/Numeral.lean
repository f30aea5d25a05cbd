import Vlog.Lib.Words
import Vlog.Libc.Number

/-!
# Signed numerals

The words that are one signed decimal numeral, and what `strtoll` makes of a string that starts with
one.
-/

namespace Vlog.Libc

open Vlog.Lib

def IsSign (b : Byte) : Prop := b = plus ∨ b = minus

/-- An optional sign, and one or more decimal digits. -/
def Numeric (w : List Byte) : Prop :=
  ∃ sign ds, w = sign ++ ds ∧ (sign = [] ∨ ∃ b, sign = [b] ∧ IsSign b) ∧ ds ≠ [] ∧
    ∀ b ∈ ds, isDigit b = true

/-- The integer that a numeral denotes. -/
def intValue (w : List Byte) : Int :=
  match w with
  | [] => 0
  | b :: ds =>
      if b = minus then -digitsValue ds
      else if b = plus then digitsValue ds
      else digitsValue (b :: ds)

/-- The value of `long long` that is nearest to an integer. -/
def clamp (v : Int) : Int := max llongMin (min llongMax v)

theorem sign_not_digit {b : Byte} (h : IsSign b) : isDigit b = false ∧ isspace b = false := by
  rcases h with rfl | rfl <;> decide

theorem numeric_digits {ds : List Byte} (hne : ds ≠ []) (hds : ds.all isDigit = true) : Numeric ds :=
  ⟨[], ds, rfl, .inl rfl, hne, List.all_eq_true.mp hds⟩

theorem numeric_sign {b : Byte} {ds : List Byte} (hb : IsSign b) (hne : ds ≠ [])
    (hds : ds.all isDigit = true) : Numeric (b :: ds) :=
  ⟨[b], ds, rfl, .inr ⟨b, rfl, hb⟩, hne, List.all_eq_true.mp hds⟩

theorem Numeric.not_isspace {w : List Byte} (h : Numeric w) : ∀ b ∈ w, isspace b = false := by
  obtain ⟨sign, ds, rfl, hsign, _, hds⟩ := h
  intro b hb
  rcases List.mem_append.mp hb with hb | hb
  · rcases hsign with rfl | ⟨c, rfl, hc⟩
    · cases hb
    · cases List.mem_singleton.mp hb
      exact (sign_not_digit hc).2
  · exact isDigit_not_isspace (hds b hb)

theorem Numeric.ne_nil {w : List Byte} (h : Numeric w) : w ≠ [] := by
  obtain ⟨sign, ds, rfl, _, hne, _⟩ := h
  simp [hne]

/-- The scan of a numeral stops behind its last digit. -/
theorem scanNumeral_numeric {s rest : List Byte} (h : Numeric s)
    (hrest : ∀ b ∈ rest.head?, isDigit b = false) :
    ∃ n, scanNumeral (s ++ rest) = some n ∧ n.used = s.length ∧
      (if n.neg then -(n.value : Int) else n.value) = intValue s := by
  obtain ⟨sign, ds, rfl, hsign, hne, hds⟩ := h
  have hstop := takeWhile_append_stop hds hrest
  obtain ⟨d, ds', rfl⟩ := List.exists_cons_of_ne_nil hne
  have hd := hds d List.mem_cons_self
  rcases hsign with rfl | ⟨b, rfl, hb⟩
  · have hds₀ := isDigit_not_sign hd
    have hsp := isDigit_not_isspace hd
    simp only [List.cons_append] at hstop
    refine ⟨{ neg := false, value := digitsValue (d :: ds'), used := (d :: ds').length }, ?_, rfl, ?_⟩
    · simp [scanNumeral, hsp, hds₀.1, hds₀.2, hstop]
    · simp [intValue, hds₀.1, hds₀.2]
  · have hsp := (sign_not_digit hb).2
    have hsgn : b = minus ∨ b = plus := hb.symm
    simp only [List.cons_append] at hstop
    refine ⟨{ neg := b = minus, value := digitsValue (d :: ds'), used := 1 + (d :: ds').length }, ?_, ?_,
      ?_⟩
    · simp [scanNumeral, hsp, hsgn, hstop]
    · simp [Nat.add_comm]
    · rcases hb with rfl | rfl
      · have hneg : plus ≠ minus := by decide
        simp [intValue, hneg]
      · simp [intValue]

theorem Numeric.head {s : List Byte} (h : Numeric s) (t : List Byte) :
    ∃ b, (s ++ t).head? = some b ∧ (IsSign b ∨ isDigit b = true) := by
  obtain ⟨sign, ds, rfl, hsign, hne, hds⟩ := h
  rcases hsign with rfl | ⟨b, rfl, hb⟩
  · obtain ⟨d, ds', rfl⟩ := List.exists_cons_of_ne_nil hne
    exact ⟨d, rfl, .inr (hds d List.mem_cons_self)⟩
  · exact ⟨b, rfl, .inl hb⟩

theorem numeric_unique {s s' t t' : List Byte} (hs : Numeric s) (hs' : Numeric s')
    (ht : ∀ b ∈ t.head?, isDigit b = false) (ht' : ∀ b ∈ t'.head?, isDigit b = false)
    (h : s ++ t = s' ++ t') : s = s' ∧ t = t' := by
  obtain ⟨n, hn, hused, _⟩ := scanNumeral_numeric hs ht
  obtain ⟨n', hn', hused', _⟩ := scanNumeral_numeric hs' ht'
  rw [h, hn'] at hn
  cases hn
  exact List.append_inj h (hused.symm.trans hused')

/-- A scan that finds something in front of other bytes than white space has found a numeral. -/
theorem numeric_of_scanNumeral {s : List Byte} {n : Numeral} (hs : ∀ b ∈ s.head?, isspace b = false)
    (h : scanNumeral s = some n) :
    ∃ front rest, s = front ++ rest ∧ Numeric front ∧ (∀ b ∈ rest.head?, isDigit b = false) ∧
      n.used = front.length := by
  have hws : s.takeWhile isspace = [] := by
    cases s with
    | nil => rfl
    | cons b s => simp [hs b rfl]
  simp only [scanNumeral, hws, List.length_nil, List.drop_zero, Nat.zero_add] at h
  have hsign : ∃ k, (if s.head? = some minus ∨ s.head? = some plus then 1 else 0) = k ∧
      (s.take k).length = k ∧ (s.take k = [] ∨ ∃ b, s.take k = [b] ∧ IsSign b) := by
    by_cases hhead : s.head? = some minus ∨ s.head? = some plus
    · refine ⟨1, if_pos hhead, ?_⟩
      cases s with
      | nil => simp at hhead
      | cons b s =>
          have hb : IsSign b := by simpa [IsSign, or_comm] using hhead
          exact ⟨rfl, .inr ⟨b, rfl, hb⟩⟩
    · exact ⟨0, if_neg hhead, rfl, .inl rfl⟩
  obtain ⟨k, hk, hlen, hsign⟩ := hsign
  rw [hk] at h
  by_cases hds : (s.drop k).takeWhile isDigit = []
  · rw [if_pos hds] at h
    cases h
  · rw [if_neg hds] at h
    cases h
    refine ⟨s.take k ++ (s.drop k).takeWhile isDigit, (s.drop k).dropWhile isDigit, ?_,
      ⟨s.take k, _, rfl, hsign, hds, fun b hb => List.mem_takeWhile_imp hb⟩, head_dropWhile _, ?_⟩
    · rw [List.append_assoc, List.takeWhile_append_dropWhile, List.take_append_drop]
    · rw [List.length_append, hlen]

theorem strtoll_numeric {s rest : List Byte} (h : Numeric s)
    (hrest : ∀ b ∈ rest.head?, isDigit b = false) :
    strtoll (s ++ rest) = (clamp (intValue s), s.length) := by
  obtain ⟨n, hn, hused, hvalue⟩ := scanNumeral_numeric h hrest
  rw [strtoll, hn]
  simp only [hused, ← hvalue, clamp, Prod.mk.injEq, and_true]
  unfold llongMax llongMin
  split <;> omega

end Vlog.Libc
