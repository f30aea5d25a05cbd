import Mathlib

/-!
# Concatenations of whole lines

Lines that end with their only delimiter, and what the front part of a concatenation of such lines
looks like: whole lines, and the start of one more. Nothing is assumed of the symbols, so symbols
that carry the place they come from tell the occurrences of equal lines apart.
-/

namespace Vlog.Lib

variable {α : Type*} {nl : α → Bool}

def IsLine (nl : α → Bool) (l : List α) : Prop :=
  ∃ body b, l = body ++ [b] ∧ nl b = true ∧ ∀ x ∈ body, nl x = false

def EndsLine (nl : α → Bool) (bs : List α) : Prop := ∃ front b, bs = front ++ [b] ∧ nl b = true

/-- A stream cut after each delimiter. -/
def cutLines (nl : α → Bool) : List α → List (List α)
  | [] => []
  | b :: bs =>
      if nl b then [b] :: cutLines nl bs
      else match cutLines nl bs with
        | [] => [[b]]
        | l :: ls => (b :: l) :: ls

theorem cutLines_flatten (nl : α → Bool) (bs : List α) : (cutLines nl bs).flatten = bs := by
  induction bs with
  | nil => rfl
  | cons b bs ih =>
      rw [cutLines]
      split
      · simp [ih]
      · cases hcut : cutLines nl bs with
        | nil => simpa [hcut] using ih
        | cons l ls => simpa [hcut] using ih

theorem IsLine.cons {b : α} {l : List α} (hb : nl b = false) (h : IsLine nl l) :
    IsLine nl (b :: l) := by
  obtain ⟨body, d, rfl, hd, hbody⟩ := h
  refine ⟨b :: body, d, rfl, hd, ?_⟩
  intro x hx
  rcases List.mem_cons.mp hx with rfl | hx
  · exact hb
  · exact hbody x hx

theorem cutLines_isLine {bs : List α} (h : EndsLine nl bs) : ∀ l ∈ cutLines nl bs, IsLine nl l := by
  obtain ⟨front, d, rfl, hd⟩ := h
  induction front with
  | nil =>
      intro l hl
      have hone : cutLines nl ([] ++ [d]) = [[d]] := by simp [cutLines, hd]
      rw [hone] at hl
      cases List.mem_singleton.mp hl
      exact ⟨[], d, rfl, hd, by simp⟩
  | cons b front ih =>
      intro l hl
      rw [List.cons_append, cutLines] at hl
      by_cases hb : nl b = true
      · rw [if_pos hb] at hl
        rcases List.mem_cons.mp hl with rfl | hl
        · exact ⟨[], b, rfl, hb, by simp⟩
        · exact ih l hl
      · rw [if_neg hb] at hl
        cases hcut : cutLines nl (front ++ [d]) with
        | nil =>
            have hflat := cutLines_flatten nl (front ++ [d])
            simp [hcut] at hflat
        | cons l' ls =>
            simp only [hcut] at hl ih
            rcases List.mem_cons.mp hl with rfl | hl
            · exact (ih l' List.mem_cons_self).cons (by simpa using hb)
            · exact ih l (List.mem_cons_of_mem _ hl)

theorem IsLine.cutLines {l : List α} (h : IsLine nl l) : cutLines nl l = [l] := by
  obtain ⟨body, d, rfl, hd, hbody⟩ := h
  induction body with
  | nil => simp [Lib.cutLines, hd]
  | cons b body ih =>
      have hb : nl b = false := hbody b List.mem_cons_self
      have htail := ih fun x hx => hbody x (List.mem_cons_of_mem _ hx)
      simp [Lib.cutLines, hb, htail]

theorem IsLine.endsLine {l : List α} (h : IsLine nl l) : EndsLine nl l := by
  obtain ⟨body, d, rfl, hd, _⟩ := h
  exact ⟨body, d, rfl, hd⟩

/-! ## A part of a concatenation -/

theorem IsLine.start {l t u : List α} (h : IsLine nl l) (hl : l = t ++ u) (hu : u ≠ []) :
    ∀ x ∈ t, nl x = false := by
  obtain ⟨body, b, rfl, _, hbody⟩ := h
  obtain ⟨u', b', rfl⟩ := List.eq_nil_or_concat' u |>.resolve_left hu
  rw [← List.append_assoc] at hl
  obtain ⟨rfl, _⟩ := List.append_inj' hl rfl
  intro x hx
  exact hbody x (List.mem_append_left _ hx)

/-- The front of a concatenation of lines is the first of them and a part of one more. -/
theorem flatten_split {ls : List (List α)} (h : ∀ l ∈ ls, IsLine nl l) {a b : List α}
    (heq : ls.flatten = a ++ b) :
    ∃ ls₁ t, a = ls₁.flatten ++ t ∧ (∀ x ∈ t, nl x = false) ∧
      ((t = [] ∧ ∃ ls₂, ls = ls₁ ++ ls₂ ∧ b = ls₂.flatten) ∨
        ∃ l ls₂, ls = ls₁ ++ l :: ls₂ ∧ t <+: l) := by
  induction ls generalizing a with
  | nil =>
      obtain ⟨rfl, rfl⟩ := List.append_eq_nil_iff.mp heq.symm
      exact ⟨[], [], rfl, by simp, .inl ⟨rfl, [], rfl, rfl⟩⟩
  | cons l ls ih =>
      have hl := h l List.mem_cons_self
      have hls : ∀ l ∈ ls, IsLine nl l := fun l' hm => h l' (List.mem_cons_of_mem _ hm)
      rw [List.flatten_cons] at heq
      rcases List.append_eq_append_iff.mp heq with ⟨a', rfl, hrest⟩ | ⟨u, hlu, rfl⟩
      · obtain ⟨ls₁, t, rfl, ht, hcase⟩ := ih hls hrest
        refine ⟨l :: ls₁, t, by simp, ht, ?_⟩
        rcases hcase with ⟨rfl, ls₂, rfl, rfl⟩ | ⟨l', ls₂, rfl, hpre⟩
        · exact .inl ⟨rfl, ls₂, rfl, rfl⟩
        · exact .inr ⟨l', ls₂, rfl, hpre⟩
      · by_cases hu : u = []
        · subst hu
          refine ⟨[l], [], by simp [hlu], by simp, .inl ⟨rfl, ls, rfl, by simp⟩⟩
        · exact ⟨[], a, rfl, hl.start hlu hu, .inr ⟨l, ls, rfl, hlu ▸ List.prefix_append _ _⟩⟩

theorem flatten_split_boundary {ls : List (List α)} (h : ∀ l ∈ ls, IsLine nl l) {a b : List α}
    (heq : ls.flatten = a ++ b) (ha : a = [] ∨ EndsLine nl a) :
    ∃ ls₁ ls₂, ls = ls₁ ++ ls₂ ∧ a = ls₁.flatten ∧ b = ls₂.flatten := by
  obtain ⟨ls₁, t, rfl, ht, ⟨rfl, ls₂, rfl, rfl⟩ | ⟨l, ls₂, rfl, _⟩⟩ := flatten_split h heq
  · exact ⟨ls₁, ls₂, rfl, by simp, rfl⟩
  · have ht₀ : t = [] := by
      by_contra hne
      obtain ⟨t', x, rfl⟩ := List.eq_nil_or_concat' t |>.resolve_left hne
      rcases ha with ha | ⟨front, b', heq', hb'⟩
      · simp at ha
      · rw [← List.append_assoc] at heq'
        obtain ⟨_, hx⟩ := List.append_inj' heq' rfl
        cases hx
        simp [ht x (by simp)] at hb'
    subst ht₀
    refine ⟨ls₁, l :: ls₂, rfl, by simp, ?_⟩
    simpa using heq.symm

/-- The end of a concatenation is the end of one part and the parts behind it. -/
theorem suffix_flatMap {β : Type*} {f : β → List α} {ks : List β} {s : List α}
    (h : s <:+ ks.flatMap f) :
    s = [] ∨ ∃ k front ks', (k :: ks') <:+ ks ∧ front <:+ f k ∧ s = front ++ ks'.flatMap f := by
  induction ks with
  | nil => exact .inl (List.suffix_nil.mp h)
  | cons k ks ih =>
      obtain ⟨pre, hpre⟩ := h
      rw [List.flatMap_cons] at hpre
      rcases List.append_eq_append_iff.mp hpre with ⟨front, hk, hs⟩ | ⟨mid, _, hrest⟩
      · exact .inr ⟨k, front, ks, List.suffix_rfl, ⟨pre, hk.symm⟩, hs⟩
      · rcases ih ⟨mid, hrest.symm⟩ with hnil | ⟨k', front, ks', hks, hfront, hs⟩
        · exact .inl hnil
        · exact .inr ⟨k', front, ks', hks.trans (List.suffix_cons k ks), hfront, hs⟩

/-! ## What a wire carries -/

/-- Whole lines of `L` in their order, none of them twice, and the start of a later one. -/
def WholeLines (nl : α → Bool) (L : List (List α)) (wire : List α) : Prop :=
  ∃ ls t, wire = ls.flatten ++ t ∧ (∀ x ∈ t, nl x = false) ∧
    ((t = [] ∧ ls.Sublist L) ∨ ∃ l, t <+: l ∧ (ls ++ [l]).Sublist L)

theorem WholeLines.of_flatten {L ls : List (List α)} (h : ∀ l ∈ L, IsLine nl l)
    (hsub : ls.Sublist L) {wire : List α} (rest : List α) (heq : ls.flatten = wire ++ rest) :
    WholeLines nl L wire := by
  obtain ⟨ls₁, t, rfl, ht, ⟨rfl, ls₂, rfl, _⟩ | ⟨l, ls₂, rfl, hpre⟩⟩ :=
    flatten_split (fun l hl => h l (hsub.subset hl)) heq
  · exact ⟨ls₁, [], rfl, ht, .inl ⟨rfl, (List.sublist_append_left _ _).trans hsub⟩⟩
  · refine ⟨ls₁, t, rfl, ht, .inr ⟨l, hpre, List.Sublist.trans ?_ hsub⟩⟩
    simp

theorem WholeLines.append {L : List (List α)} {wire : List α} (h : WholeLines nl L wire)
    (M : List (List α)) : WholeLines nl (L ++ M) wire := by
  obtain ⟨ls, t, rfl, ht, ⟨rfl, hsub⟩ | ⟨l, hpre, hsub⟩⟩ := h
  · exact ⟨ls, [], rfl, ht, .inl ⟨rfl, hsub.trans (List.sublist_append_left _ _)⟩⟩
  · exact ⟨ls, t, rfl, ht, .inr ⟨l, hpre, hsub.trans (List.sublist_append_left _ _)⟩⟩

theorem WholeLines.front {L : List (List α)} {wire front : List α} (hL : ∀ l ∈ L, IsLine nl l)
    (h : WholeLines nl L wire) (hpre : front <+: wire) : WholeLines nl L front := by
  obtain ⟨rest, rfl⟩ := hpre
  obtain ⟨ls, t, heq, ht, ⟨rfl, hsub⟩ | ⟨l, ⟨u, rfl⟩, hsub⟩⟩ := h
  · exact .of_flatten hL hsub rest (by simpa using heq.symm)
  · refine .of_flatten hL hsub (rest ++ u) ?_
    rw [List.flatten_append, List.flatten_singleton, ← List.append_assoc, ← heq, List.append_assoc]

end Vlog.Lib
