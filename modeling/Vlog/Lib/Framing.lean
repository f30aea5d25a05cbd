import Mathlib

/-!
# Bounded line framing

A stream of symbols is cut into lines at a delimiter, and a line longer than `m` is cut again every
`m` symbols. `framing` says this of a whole stream; `push` does it one symbol at a time with a
buffer of at most `m` symbols. `pushAll_framing` states that they agree.
-/

namespace Vlog.Lib

variable {α : Type*} [DecidableEq α]

/-! ## Lines of a stream -/

/-- The bodies of the delimited lines of a stream, and the symbols after the last delimiter. -/
def splitLines (nl : α) : List α → List (List α) × List α
  | [] => ([], [])
  | b :: bs =>
      let r := splitLines nl bs
      if b = nl then ([] :: r.1, r.2)
      else match r.1 with
        | [] => ([], b :: r.2)
        | l :: ls => ((b :: l) :: ls, r.2)

@[simp] theorem splitLines_nil (nl : α) : splitLines nl [] = ([], []) := rfl

@[simp] theorem splitLines_nl (nl : α) (bs : List α) :
    splitLines nl (nl :: bs) = ([] :: (splitLines nl bs).1, (splitLines nl bs).2) := by
  simp [splitLines]

theorem splitLines_body {nl : α} {body : List α} (h : nl ∉ body) (bs : List α) :
    splitLines nl (body ++ nl :: bs) = (body :: (splitLines nl bs).1, (splitLines nl bs).2) := by
  induction body with
  | nil => simp
  | cons b body ih =>
      have hb : b ≠ nl := fun e => h (by simp [e])
      have hbody : nl ∉ body := fun hm => h (by simp [hm])
      simp [splitLines, ih hbody, hb]

theorem splitLines_tail {nl : α} {tail : List α} (h : nl ∉ tail) :
    splitLines nl tail = ([], tail) := by
  induction tail with
  | nil => rfl
  | cons b tail ih =>
      have hb : b ≠ nl := fun e => h (by simp [e])
      have htail : nl ∉ tail := fun hm => h (by simp [hm])
      simp [splitLines, ih htail, hb]

theorem splitLines_flatMap {nl : α} {ls : List (List α)} (h : ∀ l ∈ ls, nl ∉ l) :
    splitLines nl (ls.flatMap (· ++ [nl])) = (ls, []) := by
  induction ls with
  | nil => rfl
  | cons l ls ih =>
      have hl := h l List.mem_cons_self
      have htail := ih fun l' hm => h l' (List.mem_cons_of_mem _ hm)
      simp [splitLines_body hl, htail]

theorem splitLines_length (nl : α) (bs : List α) : (splitLines nl bs).1.length = bs.count nl := by
  induction bs with
  | nil => rfl
  | cons b bs ih =>
      by_cases hb : b = nl
      · subst hb
        simp [ih]
      · rw [List.count_cons_of_ne hb, ← ih, splitLines, if_neg hb]
        split
        · rename_i h
          simp [h]
        · rename_i h
          simp [h]

theorem stream_cases (nl : α) (bs : List α) :
    nl ∉ bs ∨ ∃ body rest, bs = body ++ nl :: rest ∧ nl ∉ body := by
  by_cases h : nl ∈ bs
  · obtain ⟨body, rest, hbs, hbody⟩ := List.eq_append_cons_of_mem h
    exact Or.inr ⟨body, rest, hbs, hbody⟩
  · exact Or.inl h

/-! ## Lines of bounded length -/

/-- A line body cut every `m` symbols; the last piece is not longer than `m`. -/
def cut (m : Nat) (l : List α) : List (List α) :=
  if m = 0 ∨ l.length ≤ m then [l] else l.take m :: cut m (l.drop m)
termination_by l.length
decreasing_by simp only [List.length_drop]; omega

omit [DecidableEq α] in
theorem cut_short {m : Nat} {l : List α} (h : l.length ≤ m) : cut m l = [l] := by
  rw [cut]; simp [h]

omit [DecidableEq α] in
theorem cut_full {m : Nat} {buf l : List α} (hm : 0 < m) (hbuf : buf.length = m) (hl : l ≠ []) :
    cut m (buf ++ l) = buf :: cut m l := by
  have hlen : 0 < l.length := List.length_pos_iff.mpr hl
  rw [cut, if_neg (by simp only [List.length_append]; omega)]
  simp [← hbuf]

omit [DecidableEq α] in
theorem cut_ne_nil (m : Nat) (l : List α) : cut m l ≠ [] := by
  rw [cut]; split <;> simp

/-- The lines that a stream completes when no line is longer than `m`, and the unfinished rest. -/
def framing (nl : α) (m : Nat) (bs : List α) : List (List α) × List α :=
  let r := splitLines nl bs
  (r.1.flatMap (cut m) ++ (cut m r.2).dropLast, (cut m r.2).getLast (cut_ne_nil m r.2))

theorem framing_short {nl : α} {m : Nat} {buf : List α} (h : nl ∉ buf) (hlen : buf.length ≤ m) :
    framing nl m buf = ([], buf) := by
  simp [framing, splitLines_tail h, cut_short hlen]

theorem framing_nl {nl : α} {m : Nat} {buf : List α} (h : nl ∉ buf) (hlen : buf.length ≤ m)
    (bs : List α) :
    framing nl m (buf ++ nl :: bs) = (buf :: (framing nl m bs).1, (framing nl m bs).2) := by
  simp [framing, splitLines_body h, cut_short hlen]

theorem framing_full {nl b : α} {m : Nat} {buf : List α} (hm : 0 < m) (h : nl ∉ buf)
    (hlen : buf.length = m) (hb : b ≠ nl) (bs : List α) :
    framing nl m (buf ++ b :: bs) =
      (buf :: (framing nl m (b :: bs)).1, (framing nl m (b :: bs)).2) := by
  rcases stream_cases nl bs with ht | ⟨body, rest, rfl, hbody⟩
  · have hbt : nl ∉ b :: bs := by simp [ht, hb.symm]
    have hall : nl ∉ buf ++ b :: bs := by simp [h, ht, hb.symm]
    simp [framing, splitLines_tail hbt, splitLines_tail hall, cut_full hm hlen,
      List.dropLast_cons_of_ne_nil (cut_ne_nil m _), List.getLast_cons (cut_ne_nil m _)]
  · have hbb : nl ∉ b :: body := by simp [hbody, hb.symm]
    have hall : nl ∉ buf ++ b :: body := by simp [h, hbody, hb.symm]
    have e₁ := splitLines_body hbb rest
    have e₂ := splitLines_body hall rest
    simp only [List.cons_append, List.append_assoc] at e₁ e₂
    simp [framing, e₁, e₂, cut_full hm hlen]

/-- Lines that all fit are framed as they are. -/
theorem framing_flatMap {nl : α} {m : Nat} {ls : List (List α)} {t : List α}
    (h : ∀ l ∈ ls, nl ∉ l ∧ l.length ≤ m) (ht : nl ∉ t) (hlen : t.length ≤ m) :
    framing nl m (ls.flatMap (· ++ [nl]) ++ t) = (ls, t) := by
  induction ls with
  | nil => exact framing_short ht hlen
  | cons l ls ih =>
      obtain ⟨hnl, hfit⟩ := h l List.mem_cons_self
      have htail := ih fun l' hm => h l' (List.mem_cons_of_mem _ hm)
      have hcut := framing_nl hnl hfit (ls.flatMap (· ++ [nl]) ++ t)
      rw [htail] at hcut
      simpa using hcut

/-- The lines of a stream that a delimiter ends, when no line is longer than `m`. -/
def completed (nl : α) (m : Nat) (bs : List α) : List (List α) :=
  (splitLines nl bs).1.flatMap (cut m)

theorem completed_prefix_framing (nl : α) (m : Nat) (bs : List α) :
    completed nl m bs <+: (framing nl m bs).1 := List.prefix_append _ _

theorem splitLines_append_tail {nl : α} {tail : List α} (h : nl ∉ tail) (bs : List α) :
    (splitLines nl (bs ++ tail)).1 = (splitLines nl bs).1 := by
  induction bs with
  | nil => simp [splitLines_tail h]
  | cons b bs ih => simp only [List.cons_append, splitLines, ih]; split <;> [rfl; (split <;> rfl)]

theorem completed_append_tail {nl : α} {tail : List α} (h : nl ∉ tail) (m : Nat) (bs : List α) :
    completed nl m (bs ++ tail) = completed nl m bs := by
  rw [completed, splitLines_append_tail h, completed]

theorem splitLines_append_nl (nl : α) (bs cs : List α) :
    splitLines nl (bs ++ nl :: cs) =
      ((splitLines nl (bs ++ [nl])).1 ++ (splitLines nl cs).1, (splitLines nl cs).2) := by
  rcases stream_cases nl bs with h | ⟨body, rest, hbs, hbody⟩
  · simp [splitLines_body h]
  · have hlt : rest.length < bs.length := by
      rw [hbs, List.length_append, List.length_cons]
      omega
    have ih := splitLines_append_nl nl rest cs
    simp only [hbs, List.append_assoc, List.cons_append, splitLines_body hbody, ih]
termination_by bs.length

theorem completed_append_nl (nl : α) (m : Nat) (bs cs : List α) :
    completed nl m (bs ++ nl :: cs) = completed nl m (bs ++ [nl]) ++ completed nl m cs := by
  simp [completed, splitLines_append_nl nl bs cs]

theorem framing_append_nl (nl : α) (m : Nat) (bs : List α) :
    framing nl m (bs ++ [nl]) = (completed nl m (bs ++ [nl]), []) := by
  have htail : (splitLines nl (bs ++ [nl])).2 = [] := by
    rw [splitLines_append_nl]
    rfl
  have hcut : cut m ([] : List α) = [[]] := cut_short (Nat.zero_le _)
  simp [framing, completed, htail, hcut]

/-! ## One symbol at a time -/

/-- One symbol into a line buffer: the buffer afterwards, and the line that the symbol completes. -/
def push (nl : α) (m : Nat) (buf : List α) (b : α) : List α × Option (List α) :=
  if b = nl then ([], some buf)
  else if buf.length < m then (buf ++ [b], none)
  else ([b], some buf)

def pushAll (nl : α) (m : Nat) (buf : List α) : List α → List (List α) × List α
  | [] => ([], buf)
  | b :: bs =>
      let r := push nl m buf b
      let t := pushAll nl m r.1 bs
      (r.2.toList ++ t.1, t.2)

theorem pushAll_append (nl : α) (m : Nat) (buf bs cs : List α) :
    pushAll nl m buf (bs ++ cs) =
      ((pushAll nl m buf bs).1 ++ (pushAll nl m (pushAll nl m buf bs).2 cs).1,
        (pushAll nl m (pushAll nl m buf bs).2 cs).2) := by
  induction bs generalizing buf with
  | nil => simp [pushAll]
  | cons b bs ih => simp [pushAll, ih]

theorem pushAll_snoc (nl : α) (m : Nat) (buf bs : List α) (b : α) :
    pushAll nl m buf (bs ++ [b]) =
      ((pushAll nl m buf bs).1 ++ (push nl m (pushAll nl m buf bs).2 b).2.toList,
        (push nl m (pushAll nl m buf bs).2 b).1) := by
  simp [pushAll_append, pushAll]

def BufOk (nl : α) (m : Nat) (buf : List α) : Prop := nl ∉ buf ∧ buf.length ≤ m

theorem push_bufOk {nl : α} {m : Nat} {buf : List α} (hm : 0 < m) (h : BufOk nl m buf) (b : α) :
    BufOk nl m (push nl m buf b).1 := by
  unfold push
  split
  · simp [BufOk]
  · rename_i hb
    split
    · rename_i hlt
      exact ⟨by simp [h.1, Ne.symm hb], by simp only [List.length_append, List.length_singleton]; omega⟩
    · exact ⟨by simp [Ne.symm hb], hm⟩

theorem pushAll_bufOk {nl : α} {m : Nat} {buf : List α} (hm : 0 < m) (h : BufOk nl m buf)
    (bs : List α) : BufOk nl m (pushAll nl m buf bs).2 := by
  induction bs generalizing buf with
  | nil => exact h
  | cons b bs ih => exact ih (push_bufOk hm h b)

theorem push_line {nl : α} {m : Nat} {buf l : List α} {b : α} (h : (push nl m buf b).2 = some l) :
    l = buf := by
  unfold push at h
  split at h
  · simpa using h.symm
  · split at h <;> simp_all

/-- Pushing a stream through a buffer frames the buffer's symbols followed by the stream. -/
theorem pushAll_eq_framing {nl : α} {m : Nat} {buf : List α} (hm : 0 < m) (h : BufOk nl m buf)
    (bs : List α) : pushAll nl m buf bs = framing nl m (buf ++ bs) := by
  induction bs generalizing buf with
  | nil => simp [pushAll, framing_short h.1 h.2]
  | cons b bs ih =>
      have hnext := ih (push_bufOk hm h b)
      simp only [pushAll, hnext]
      by_cases hb : b = nl
      · subst hb
        simp [push, framing_nl h.1 h.2]
      · by_cases hlt : buf.length < m
        · simp [push, hb, hlt]
        · have hfull : buf.length = m := le_antisymm h.2 (by omega)
          simp [push, hb, hlt, framing_full hm h.1 hfull hb]

theorem pushAll_framing {nl : α} {m : Nat} (hm : 0 < m) (bs : List α) :
    pushAll nl m [] bs = framing nl m bs := by
  have h : BufOk nl m [] := ⟨by simp, by simp⟩
  simpa using pushAll_eq_framing hm h bs

/-- A delimiter in what is still to come completes a line beyond those completed so far. -/
theorem completed_length_lt {nl : α} {m : Nat} (hm : 0 < m) {rest : List α} (h : nl ∈ rest)
    (bs : List α) : (framing nl m bs).1.length < (completed nl m (bs ++ rest)).length := by
  obtain ⟨body, rest', rfl, _⟩ := List.eq_append_cons_of_mem h
  have hpush := pushAll_append nl m [] bs (body ++ [nl])
  have hlast := pushAll_snoc nl m (pushAll nl m [] bs).2 body nl
  have hone : (push nl m (pushAll nl m (pushAll nl m [] bs).2 body).2 nl).2.toList.length = 1 := by
    simp [push]
  rw [hlast, pushAll_framing hm, pushAll_framing hm, ← List.append_assoc, framing_append_nl] at hpush
  have hlen := congrArg (fun r => r.1.length) hpush
  simp only [List.length_append, pushAll_framing hm] at hlen hone
  rw [← List.append_assoc, completed_append_nl, List.length_append]
  omega

theorem pushAll_line {nl : α} {m : Nat} (hm : 0 < m) {body : List α} (h : nl ∉ body)
    (hlen : body.length ≤ m) (bs : List α) :
    pushAll nl m [] (body ++ nl :: bs) = (body :: (pushAll nl m [] bs).1, (pushAll nl m [] bs).2) := by
  rw [pushAll_framing hm, pushAll_framing hm, framing_nl h hlen]

end Vlog.Lib
