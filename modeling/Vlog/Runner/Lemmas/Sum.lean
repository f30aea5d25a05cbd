import Vlog.Libc.Numeral
import Vlog.Runner.Lemmas.Reply

/-!
# What `fn_sum` accepts and adds

The loop of `fn_sum` goes on where `strtoll` stopped, be that in the middle of a word. So a word is
accepted if it is numerals with nothing between them, each of which is added.
-/

namespace Vlog.Runner

open Vlog.Lib Vlog.Libc

variable {payload front rest w t : List Byte} {total : Int64}

/-! ## Numerals in a row -/

/-- One numeral, or several where each but the first starts with its sign. -/
inductive Chain : List Byte → Prop
  | last {s : List Byte} : Numeric s → Chain s
  | cons {s t : List Byte} : Numeric s → (∀ b ∈ t.head?, IsSign b) → Chain t → Chain (s ++ t)

theorem Chain.head (h : Chain w) : ∃ b, w.head? = some b ∧ (IsSign b ∨ isDigit b = true) := by
  cases h with
  | last hs =>
      have hhead := hs.head []
      rwa [List.append_nil] at hhead
  | cons hs _ _ => exact hs.head _

/-- A chain starts with a numeral that no digit follows. -/
theorem Chain.first (h : Chain w) :
    ∃ s t, w = s ++ t ∧ Numeric s ∧ ∀ b ∈ t.head?, isDigit b = false := by
  cases h with
  | last hs => exact ⟨w, [], by simp, hs, by simp⟩
  | cons hs ht _ => exact ⟨_, _, rfl, hs, fun b hb => (sign_not_digit (ht b hb)).1⟩

theorem chain_append_iff (hs : Numeric front) (ht : ∀ b ∈ t.head?, isDigit b = false) :
    Chain (front ++ t) ↔ t = [] ∨ Chain t := by
  constructor
  · intro h
    generalize hw : front ++ t = w at h
    cases h with
    | last hnum =>
        have heq : front ++ t = w ++ [] := by rw [hw, List.append_nil]
        exact .inl (numeric_unique hs hnum ht (by simp) heq).2
    | cons hs' ht' hchain =>
        have hdigit := fun b hb => (sign_not_digit (ht' b hb)).1
        obtain ⟨_, rfl⟩ := numeric_unique hs hs' ht hdigit hw
        exact .inr hchain
  · intro h
    rcases h with rfl | hchain
    · rw [List.append_nil]
      exact .last hs
    · refine .cons hs ?_ hchain
      intro b hb
      obtain ⟨b', hb', hsign | hdigit⟩ := hchain.head
      · rw [hb'] at hb
        cases hb
        exact hsign
      · rw [ht b' hb'] at hdigit
        cases hdigit

/-! ## The loop -/

/-- Behind the white space: nothing, or a numeral that no digit follows, or neither. -/
inductive Ahead (payload : List Byte) : Prop
  | nothing : payload.dropWhile isspace = [] → Ahead payload
  | numeral (front w t rest : List Byte) : payload.dropWhile isspace = front ++ (t ++ rest) →
      w = front ++ t → Numeric front → (∀ b ∈ t.head?, isDigit b = false) →
      (∀ b ∈ (t ++ rest).head?, isDigit b = false) → (∀ b ∈ w, isspace b = false) →
      Boundary isspace rest → Ahead payload
  | other (w rest : List Byte) : payload.dropWhile isspace = w ++ rest → w ≠ [] →
      (∀ b ∈ w, isspace b = false) → Boundary isspace rest →
      scanNumeral (payload.dropWhile isspace) = none → Ahead payload

theorem boundary_not_digit (h : Boundary isspace rest) : ∀ b ∈ rest.head?, isDigit b = false := by
  intro b hb
  by_contra hd
  have hsp := isDigit_not_isspace (by simpa using hd)
  rw [h b hb] at hsp
  cases hsp

theorem ahead (payload : List Byte) : Ahead payload := by
  by_cases hnil : payload.dropWhile isspace = []
  · exact .nothing hnil
  obtain ⟨w, rest, hp, hne, hw, hrest⟩ := exists_first_word hnil (head_dropWhile payload)
  cases hscan : scanNumeral (payload.dropWhile isspace) with
  | none => exact .other w rest hp hne hw hrest hscan
  | some n =>
      obtain ⟨front, back, hsplit, hfront, hback, _⟩ :=
        numeric_of_scanNumeral (head_dropWhile payload) hscan
      rcases List.append_eq_append_iff.mp (hsplit.symm.trans hp) with
        ⟨t, hwt, hbt⟩ | ⟨u, hfu, hru⟩
      · have ht : ∀ b ∈ t.head?, isDigit b = false := by
          intro b hb
          apply hback b
          rw [hbt, List.head?_append, Option.mem_def.mp hb]
          rfl
        exact .numeral front w t rest (by rw [hsplit, hbt]) hwt hfront ht (hbt ▸ hback) hw hrest
      · -- The numeral holds no white space, so it cannot reach beyond the word.
        cases u with
        | nil =>
            rw [List.append_nil] at hfu
            rw [List.nil_append] at hru
            subst hfu hru
            exact .numeral front front [] rest (by simpa using hsplit) (by simp) hfront (by simp)
              (by simpa using hback) hw hrest
        | cons b u =>
            have hsp := hfront.not_isspace b (by simp [hfu])
            rw [hrest b (by simp [hru])] at hsp
            cases hsp

theorem numeral_shorter (h : payload.dropWhile isspace = front ++ rest) (hs : Numeric front) :
    rest.length < payload.length := by
  have hle := (List.dropWhile_suffix isspace (l := payload)).length_le
  have hpos := List.length_pos_iff.mpr hs.ne_nil
  rw [h, List.length_append] at hle
  omega

theorem sumWords_nothing (h : payload.dropWhile isspace = []) :
    sumWords total payload = some total := by
  rw [sumWords]
  simp [h]

theorem sumWords_numeral (h : payload.dropWhile isspace = front ++ rest) (hs : Numeric front)
    (hrest : ∀ b ∈ rest.head?, isDigit b = false) :
    sumWords total payload = sumWords (total + Int64.ofInt (clamp (intValue front))) rest := by
  have hne : front ++ rest ≠ [] := by simp [hs.ne_nil]
  have hlen : front.length ≠ 0 := by simpa using hs.ne_nil
  rw [sumWords]
  simp only [h, strtoll_numeric hs hrest, if_neg hne, if_neg hlen, List.drop_left]

theorem sumWords_other (h : payload.dropWhile isspace ≠ [])
    (hscan : scanNumeral (payload.dropWhile isspace) = none) : sumWords total payload = none := by
  rw [sumWords]
  simp [h, strtoll, hscan]

/-- The words behind a numeral: the rest of its word, if any, and the words behind that. -/
theorem words_behind (ht : ∀ b ∈ t, isspace b = false) (hrest : Boundary isspace rest) :
    words isspace (t ++ rest) = if t = [] then words isspace rest else t :: words isspace rest := by
  split
  · rename_i hnil
    rw [hnil, List.nil_append]
  · rename_i hne
    exact words_append hne ht hrest

theorem words_ahead (hp : payload.dropWhile isspace = w ++ rest) (hne : w ≠ [])
    (hw : ∀ b ∈ w, isspace b = false) (hrest : Boundary isspace rest) :
    words isspace payload = w :: words isspace rest := by
  rw [← words_dropWhile, hp, words_append hne hw hrest]

theorem sumWords_isSome_iff (total : Int64) (payload : List Byte) :
    (sumWords total payload).isSome = true ↔ ∀ w ∈ words isspace payload, Chain w := by
  cases ahead payload with
  | nothing hnil =>
      rw [sumWords_nothing hnil, ← words_dropWhile, hnil]
      simp
  | other w rest hp hne hw hrest hscan =>
      rw [sumWords_other (by simp [hp, hne]) hscan, words_ahead hp hne hw hrest]
      refine iff_of_false (by simp) ?_
      intro h
      obtain ⟨s, t, rfl, hs, ht⟩ := (h w List.mem_cons_self).first
      have hstop : ∀ b ∈ (t ++ rest).head?, isDigit b = false := by
        cases t with
        | nil => exact boundary_not_digit hrest
        | cons b t => exact ht
      obtain ⟨n, hn, _⟩ := scanNumeral_numeric hs hstop
      rw [hp, List.append_assoc, hn] at hscan
      cases hscan
  | numeral front w t rest hp hwt hfront ht hstop hw hrest =>
      have hlt : t.length + rest.length < payload.length := by simpa using numeral_shorter hp hfront
      have ih := sumWords_isSome_iff (total + Int64.ofInt (clamp (intValue front))) (t ++ rest)
      have hne : w ≠ [] := by simp [hwt, hfront.ne_nil]
      have hp' : payload.dropWhile isspace = w ++ rest := by rw [hp, hwt, List.append_assoc]
      have htw : ∀ b ∈ t, isspace b = false := fun b hb => hw b (by simp [hwt, hb])
      rw [sumWords_numeral hp hfront hstop, ih, words_behind htw hrest, words_ahead hp' hne hw hrest,
        List.forall_mem_cons, hwt, chain_append_iff hfront ht]
      split
      · rename_i hnil
        simp [hnil]
      · rename_i hcons
        simp [hcons]
termination_by payload.length

theorem fnSum_rc (payload : List Byte) (n : Nat) :
    ((fnSum payload n).1 = 0 ↔ ∀ w ∈ words isspace payload, Chain w) ∧
      ((fnSum payload n).1 = 0 ∨ (fnSum payload n).1 = -1) := by
  rw [← sumWords_isSome_iff 0 payload]
  unfold fnSum
  cases sumWords 0 payload with
  | none => simp
  | some total => simp

/-! ## The additions -/

/-- The operands of the additions `total += v` that the loop of `fn_sum` makes. -/
def sumAdds (total : Int64) (payload : List Byte) : List (Int64 × Int64) :=
  let p := payload.dropWhile isspace
  if p = [] then []
  else
    let v := strtoll p
    if v.2 = 0 then []
    else (total, Int64.ofInt v.1) :: sumAdds (total + Int64.ofInt v.1) (p.drop v.2)
termination_by payload.length
decreasing_by
  have hdrop : (payload.dropWhile isspace).length ≤ payload.length :=
    (List.dropWhile_suffix isspace).length_le
  have hpos : 0 < (payload.dropWhile isspace).length := List.length_pos_iff.mpr ‹_›
  have hused : (strtoll (payload.dropWhile isspace)).2 ≠ 0 := ‹_›
  rw [List.length_drop]
  omega

def InRange (v : Int) : Prop := llongMin ≤ v ∧ v ≤ llongMax

instance (v : Int) : Decidable (InRange v) := inferInstanceAs (Decidable (_ ∧ _))

/-- No addition leaves the range of `long long`. -/
def NoOverflow (payload : List Byte) : Prop :=
  ∀ q ∈ sumAdds 0 payload, InRange (q.1.toInt + q.2.toInt)

/-- The integers of a payload. -/
def values (payload : List Byte) : List Int := (words isspace payload).map intValue

theorem clamp_range (v : Int) : InRange (clamp v) := by
  unfold InRange clamp llongMin llongMax
  omega

theorem toInt_ofInt_of_range {v : Int} (h : InRange v) : (Int64.ofInt v).toInt = v := by
  unfold InRange llongMin llongMax at h
  have hsize : Int64.size = 18446744073709551616 := rfl
  rw [Int64.toInt_ofInt, hsize]
  exact Int.bmod_eq_of_le (by omega) (by omega)

theorem toInt_add_of_range {a b : Int64} (h : InRange (a.toInt + b.toInt)) :
    (a + b).toInt = a.toInt + b.toInt := by
  unfold InRange llongMin llongMax at h
  rw [Int64.toInt_add]
  exact Int.bmod_eq_of_le (by omega) (by omega)

theorem sumAdds_nothing (h : payload.dropWhile isspace = []) : sumAdds total payload = [] := by
  rw [sumAdds]
  simp [h]

theorem sumAdds_numeral (h : payload.dropWhile isspace = front ++ rest) (hs : Numeric front)
    (hrest : ∀ b ∈ rest.head?, isDigit b = false) :
    sumAdds total payload = (total, Int64.ofInt (clamp (intValue front))) ::
      sumAdds (total + Int64.ofInt (clamp (intValue front))) rest := by
  have hne : front ++ rest ≠ [] := by simp [hs.ne_nil]
  have hlen : front.length ≠ 0 := by simpa using hs.ne_nil
  rw [sumAdds]
  simp only [h, strtoll_numeric hs hrest, if_neg hne, if_neg hlen, List.drop_left]

/-- Where all words are numerals, the first of them is what `strtoll` takes. -/
theorem numeric_ahead (hall : ∀ w ∈ words isspace payload, Numeric w) :
    payload.dropWhile isspace = [] ∨ ∃ w rest, payload.dropWhile isspace = w ++ rest ∧ Numeric w ∧
      (∀ b ∈ rest.head?, isDigit b = false) ∧ words isspace payload = w :: words isspace rest := by
  by_cases hnil : payload.dropWhile isspace = []
  · exact .inl hnil
  · obtain ⟨w, rest, hp, hne, hw, hrest⟩ := exists_first_word hnil (head_dropWhile payload)
    have hwords := words_ahead hp hne hw hrest
    have hnum : Numeric w := hall w (by rw [hwords]; exact List.mem_cons_self)
    exact .inr ⟨w, rest, hp, hnum, boundary_not_digit hrest, hwords⟩

/-- The sums of all first parts of the values, as `strtoll` gives them, are in range. -/
def PartialSumsFit (total : Int) (vs : List Int) : Prop :=
  ∀ front, front <+: vs.map clamp → InRange (total + front.sum)

instance (total : Int) (vs : List Int) : Decidable (PartialSumsFit total vs) :=
  decidable_of_iff (∀ front ∈ (vs.map clamp).inits, InRange (total + front.sum)) (by
    simp only [PartialSumsFit, List.mem_inits])

theorem partialSumsFit_cons (total v : Int) (vs : List Int) :
    PartialSumsFit total (v :: vs) ↔ InRange total ∧ PartialSumsFit (total + clamp v) vs := by
  constructor
  · intro h
    refine ⟨by simpa using h [] List.nil_prefix, ?_⟩
    intro front hfront
    have hcons := h (clamp v :: front) (by simpa using hfront)
    simpa [add_assoc] using hcons
  · intro h front hfront
    cases front with
    | nil => simpa using h.1
    | cons c front =>
        rw [List.map_cons, List.cons_prefix_cons] at hfront
        obtain ⟨rfl, hfront⟩ := hfront
        have hrest := h.2 front hfront
        simpa [add_assoc] using hrest

theorem partialSumsFit_head {total : Int} {vs : List Int} (h : PartialSumsFit total vs) :
    InRange total := by simpa using h [] List.nil_prefix

theorem toInt_range (a : Int64) : InRange a.toInt := by
  have h₁ := a.le_toInt
  have h₂ := a.toInt_lt
  unfold InRange llongMin llongMax
  omega

/-- The additions stay in range exactly if the partial sums do. The result is then their last. -/
theorem sumAdds_range (total : Int64) (payload : List Byte)
    (hall : ∀ w ∈ words isspace payload, Numeric w) :
    ((∀ q ∈ sumAdds total payload, InRange (q.1.toInt + q.2.toInt)) ↔
        PartialSumsFit total.toInt (values payload)) ∧
      ((∀ q ∈ sumAdds total payload, InRange (q.1.toInt + q.2.toInt)) →
        ∃ t, sumWords total payload = some t ∧
          t.toInt = total.toInt + ((values payload).map clamp).sum) := by
  rcases numeric_ahead hall with hnil | ⟨w, rest, hp, hw, hrest, hwords⟩
  · have hvalues : values payload = [] := by rw [values, ← words_dropWhile, hnil]; rfl
    rw [sumAdds_nothing hnil, sumWords_nothing hnil, hvalues]
    refine ⟨iff_of_true (by simp) ?_, fun _ => ⟨total, rfl, by simp⟩⟩
    intro front hfront
    have hempty : front = [] := List.prefix_nil.mp hfront
    subst hempty
    simpa using toInt_range total
  · have hlt : rest.length < payload.length := numeral_shorter hp hw
    have hall' : ∀ w ∈ words isspace rest, Numeric w := by
      intro w' hw'
      apply hall
      rw [hwords]
      exact List.mem_cons_of_mem _ hw'
    have ih := sumAdds_range (total + Int64.ofInt (clamp (intValue w))) rest hall'
    have hvalues : values payload = intValue w :: values rest := by rw [values, hwords]; rfl
    have hclamp := toInt_ofInt_of_range (clamp_range (intValue w))
    rw [sumAdds_numeral hp hw hrest, sumWords_numeral hp hw hrest, hvalues, List.forall_mem_cons,
      partialSumsFit_cons]
    by_cases hfit : InRange (total.toInt + (Int64.ofInt (clamp (intValue w))).toInt)
    · have hadd := toInt_add_of_range hfit
      rw [hadd, hclamp] at ih
      refine ⟨?_, ?_⟩
      · rw [ih.1]
        exact ⟨fun h => ⟨toInt_range total, h.2⟩, fun h => ⟨hfit, h.2⟩⟩
      · intro h
        obtain ⟨t, ht, hsum⟩ := ih.2 h.2
        exact ⟨t, ht, by rw [hsum, List.map_cons, List.sum_cons, add_assoc]⟩
    · refine ⟨iff_of_false (fun h => hfit h.1) ?_, fun h => absurd h.1 hfit⟩
      intro h
      rw [hclamp] at hfit
      exact hfit (partialSumsFit_head h.2)
termination_by payload.length

theorem fmtD_inj {a b : Int} (h : fmtD a = fmtD b) : a = b := by
  have hscan := scanNumeral_fmtD a
  rw [h, scanNumeral_fmtD b] at hscan
  simp only [Option.some.injEq, Numeral.mk.injEq, decide_eq_decide] at hscan
  omega

end Vlog.Runner
