import Vlog.Lib.Words
import Vlog.Runner.Address

/-!
# `parse_ipv4` accepts the dotted quads

The scan over a buffer does what `parseIpv4` does on the string in front of the terminator, and never
faults. `parseIpv4` reads one field a round, and a field is the digits in front of what is no digit.
-/

namespace Vlog.Runner

open Vlog.Lib Vlog.Libc

variable {s t rest : List Byte} {k a : Nat} {v v' : UInt32} {r : UInt32 × List Byte}

/-! ## No faults -/

/-- A scan of the string, as one of the buffer that goes on with the terminator. -/
def terminated {β : Type} : Option (β × List Byte) → Except Stop (β × List Byte)
  | none => .error .reject
  | some (x, rest) => .ok (x, rest ++ [nul])

/-- An octet of at most 255 takes one digit more without an overflow, and the loop ends in front of the
terminator at the latest. -/
theorem octetLoop_terminated {octet : Nat} (h : octet ≤ 255) (s : List Byte) :
    octetLoop octet (s ++ [nul]) = terminated (parseOctet octet s) := by
  induction s generalizing octet with
  | nil => rfl
  | cons c s ih =>
      rw [List.cons_append, octetLoop, parseOctet]
      by_cases hc : isDigit c = true
      · have hrange := isDigit_iff.mp hc
        have hfits : ¬ 2 ^ 32 ≤ octet * 10 + (c.toNat - 48) := by omega
        simp only [hc, ↓reduceIte, hfits]
        by_cases hlarge : 255 < octet * 10 + (c.toNat - 48)
        · simp [hlarge, terminated]
        · simp only [hlarge, ↓reduceIte]
          exact ih (by omega)
      · simp [hc, terminated]

theorem skipDot_terminated (s : List Byte) :
    skipDot (s ++ [nul]) =
      if s.head? = some dot then .ok (s.tail ++ [nul]) else .error .reject := by
  cases s with
  | nil => rfl
  | cons c s =>
      by_cases hc : c = dot
      · simp [skipDot, hc]
      · simp [skipDot, hc]

/-- The octet of a round of `parseOctets`. -/
def parseField (s : List Byte) : Option (Nat × List Byte) :=
  match s with
  | [] => none
  | c :: s => if isDigit c then parseOctet 0 (c :: s) else none

/-- What a round does with its octet. -/
def nextRound (k : Nat) (v : UInt32) (p : Option (Nat × List Byte)) : Option (UInt32 × List Byte) :=
  p.bind fun p => parseOctets k ((v <<< 8) ||| UInt32.ofNat p.1) p.2

theorem parseOctets_first (v : UInt32) (s : List Byte) :
    parseOctets 4 v s = nextRound 3 v (parseField s) := by
  cases s with
  | nil => rfl
  | cons c s =>
      by_cases hc : isDigit c = true
      · cases hp : parseOctet 0 (c :: s) <;> simp [parseOctets, nextRound, parseField, hc, hp]
      · simp [parseOctets, nextRound, parseField, hc]

theorem parseOctets_next (hk : k < 3) (v : UInt32) (s : List Byte) :
    parseOctets (k + 1) v s =
      if s.head? = some dot then nextRound k v (parseField s.tail) else none := by
  have hne : k + 1 ≠ 4 := by omega
  rw [parseOctets]
  by_cases hdot : s.head? = some dot
  · simp only [hne, hdot, ne_eq, not_false_eq_true, ↓reduceIte]
    cases s.tail with
    | nil => rfl
    | cons c t =>
        by_cases hc : isDigit c = true
        · cases hp : parseOctet 0 (c :: t) <;> simp [nextRound, parseField, hc, hp]
        · simp [nextRound, parseField, hc]
  · simp [hne, hdot]

theorem octetAt_terminated (s : List Byte) : octetAt (s ++ [nul]) = terminated (parseField s) := by
  rw [octetAt, octetLoop_terminated (Nat.zero_le _)]
  cases s with
  | nil => rfl
  | cons c s =>
      by_cases hc : isDigit c = true
      · simp [deref, parseField, hc, bind, Except.bind]
      · simp [deref, parseField, hc, terminated, bind, Except.bind]

theorem octetsLoop_terminated (hk : k ≤ 4) (v : UInt32) (s : List Byte) :
    octetsLoop k v (s ++ [nul]) = terminated (parseOctets k v s) := by
  induction k generalizing v s with
  | zero => rfl
  | succ k ih =>
      have hround : ∀ s, (octetAt (s ++ [nul]) >>= fun p =>
          octetsLoop k ((v <<< 8) ||| UInt32.ofNat p.1) p.2) =
            terminated (nextRound k v (parseField s)) := by
        intro s
        rw [octetAt_terminated]
        cases hp : parseField s with
        | none => rfl
        | some p => exact ih (by omega) _ _
      rw [octetsLoop]
      by_cases hfour : k = 3
      · subst hfour
        rw [parseOctets_first]
        exact hround s
      · have hne : k + 1 ≠ 4 := by omega
        rw [parseOctets_next (by omega), if_pos hne, skipDot_terminated]
        by_cases hdot : s.head? = some dot
        · rw [if_pos hdot, if_pos hdot]
          exact hround s.tail
        · rw [if_neg hdot, if_neg hdot]
          rfl

/-! ## Fields -/

theorem parseOctet_eq {octet : Nat} (h : octet ≤ 255) (s : List Byte) :
    parseOctet octet s =
      if digitsFrom octet (s.takeWhile isDigit) ≤ 255 then
        some (digitsFrom octet (s.takeWhile isDigit), s.dropWhile isDigit)
      else none := by
  induction s generalizing octet with
  | nil => simp [parseOctet, digitsFrom, h]
  | cons c s ih =>
      rw [parseOctet]
      by_cases hc : isDigit c = true
      · have hcomm : octet * 10 + (c.toNat - 48) = 10 * octet + (c.toNat - 48) := by
          rw [Nat.mul_comm]
        simp only [hc, ↓reduceIte, hcomm, List.takeWhile_cons_of_pos, List.dropWhile_cons_of_pos,
          digitsFrom_cons]
        by_cases hlarge : 255 < 10 * octet + (c.toNat - 48)
        · have hmore := le_digitsFrom (10 * octet + (c.toNat - 48)) (s.takeWhile isDigit)
          rw [if_pos hlarge, if_neg (by omega)]
        · rw [if_neg hlarge, ih (by omega)]
      · simp [hc, digitsFrom, h]

theorem parseField_iff :
    parseField s = some (a, t) ↔
      ∃ f, IsOctet f a ∧ s = f ++ t ∧ ∀ b ∈ t.head?, isDigit b = false := by
  cases s with
  | nil =>
      constructor
      · intro h
        cases h
      · rintro ⟨f, hf, hs, _⟩
        exact absurd (List.nil_eq_append_iff.mp hs).1 hf.ne_nil
  | cons c s =>
      have hcut := (List.takeWhile_append_dropWhile (p := isDigit) (l := c :: s)).symm
      constructor
      · intro h
        have hc : isDigit c = true := by
          by_contra hc
          simp [parseField, hc] at h
        simp only [parseField, hc, ↓reduceIte, parseOctet_eq (Nat.zero_le _), digitsFrom_zero,
          Option.ite_none_right_eq_some, Option.some.injEq, Prod.mk.injEq] at h
        obtain ⟨hle, hvalue, hrest⟩ := h
        refine ⟨(c :: s).takeWhile isDigit, ⟨?_, ?_, hvalue, hvalue ▸ hle⟩, ?_, ?_⟩
        · simp [hc]
        · intro b hb
          exact List.mem_takeWhile_imp hb
        · rw [← hrest]
          exact hcut
        · rw [← hrest]
          exact head_dropWhile _
      · rintro ⟨f, hf, hs, hend⟩
        have hfit : digitsFrom 0 f ≤ 255 := by
          rw [digitsFrom_zero, hf.value]
          exact hf.le
        have hc : isDigit c = true := by
          obtain ⟨d, f', rfl⟩ := List.exists_cons_of_ne_nil hf.ne_nil
          cases hs
          exact hf.digits c List.mem_cons_self
        simp only [parseField, hc, ↓reduceIte, parseOctet_eq (Nat.zero_le _)]
        rw [hs, takeWhile_append_stop hf.digits hend, dropWhile_append_stop hf.digits hend, if_pos hfit,
          digitsFrom_zero, hf.value]

theorem nextRound_iff :
    nextRound k v (parseField s) = some r ↔
      ∃ f a t, s = f ++ t ∧ IsOctet f a ∧ (∀ b ∈ t.head?, isDigit b = false) ∧
        parseOctets k ((v <<< 8) ||| UInt32.ofNat a) t = some r := by
  rw [nextRound, Option.bind_eq_some_iff]
  constructor
  · rintro ⟨⟨a, t⟩, hfield, hround⟩
    obtain ⟨f, hf, hs, hend⟩ := parseField_iff.mp hfield
    exact ⟨f, a, t, hs, hf, hend, hround⟩
  · rintro ⟨f, a, t, hs, hf, hend, hround⟩
    exact ⟨(a, t), parseField_iff.mpr ⟨f, hf, hs, hend⟩, hround⟩

theorem parseOctets_dot_iff (hk : k < 3) :
    parseOctets (k + 1) v s = some r ↔
      ∃ f a t, s = dot :: (f ++ t) ∧ IsOctet f a ∧ (∀ b ∈ t.head?, isDigit b = false) ∧
        parseOctets k ((v <<< 8) ||| UInt32.ofNat a) t = some r := by
  rw [parseOctets_next hk, Option.ite_none_right_eq_some, nextRound_iff]
  constructor
  · rintro ⟨hdot, f, a, t, hs, hround⟩
    obtain ⟨s', rfl⟩ := List.head?_eq_some_iff.mp hdot
    exact ⟨f, a, t, congrArg (dot :: ·) hs, hround⟩
  · rintro ⟨f, a, t, rfl, hround⟩
    exact ⟨rfl, f, a, t, rfl, hround⟩

/-! ## Quads -/

/-- An octet shifted in is added behind the others. -/
theorem shift_or (v : UInt32) (h : a ≤ 255) :
    (v <<< 8) ||| UInt32.ofNat a = v * 256 + UInt32.ofNat a := by
  have hsplit : v.toNat * 2 ^ 8 % 2 ^ 32 = v.toNat % 2 ^ 24 * 2 ^ 8 := by omega
  have hor := Nat.shiftLeft_add_eq_or_of_lt (b := a) (i := 8) (by omega) (v.toNat % 2 ^ 24)
  have hlt : a < UInt32.size := by
    unfold UInt32.size
    omega
  rw [Nat.shiftLeft_eq] at hor
  rw [← UInt32.toNat_inj]
  calc ((v <<< 8) ||| UInt32.ofNat a).toNat = v.toNat * 2 ^ 8 % 2 ^ 32 ||| a := by
        rw [UInt32.toNat_or, UInt32.toNat_shiftLeft, UInt32.toNat_ofNat_of_lt' hlt,
          Nat.shiftLeft_eq]
        rfl
    _ = v.toNat % 2 ^ 24 * 2 ^ 8 + a := by rw [hsplit, hor]
    _ = (v * 256 + UInt32.ofNat a).toNat := by
        rw [UInt32.toNat_add, UInt32.toNat_mul, UInt32.toNat_ofNat_of_lt' hlt]
        have hbase : (256 : UInt32).toNat = 256 := rfl
        rw [hbase]
        omega

theorem shifted_octets {b c d : Nat} (ha : a ≤ 255) (hb : b ≤ 255) (hc : c ≤ 255) (hd : d ≤ 255) :
    ((((((((0 : UInt32) <<< 8) ||| UInt32.ofNat a) <<< 8) ||| UInt32.ofNat b) <<< 8) ||| UInt32.ofNat c) <<< 8) |||
        UInt32.ofNat d = UInt32.ofNat (((a * 256 + b) * 256 + c) * 256 + d) := by
  rw [shift_or _ ha, shift_or _ hb, shift_or _ hc, shift_or _ hd]
  simp [UInt32.ofNat_add, UInt32.ofNat_mul]

theorem parseIpv4_eq_some : parseIpv4 s = some v ↔ parseOctets 4 0 s = some (v, []) := by
  unfold parseIpv4
  split
  · rename_i h
    rw [h]
    simp
  · rename_i h
    constructor
    · intro hv
      cases hv
    · intro hv
      exact absurd hv (h v)

theorem parseIpv4_quad {b c d : Nat} (h : DottedQuad s a b c d) :
    parseIpv4 s = some (UInt32.ofNat (((a * 256 + b) * 256 + c) * 256 + d)) := by
  obtain ⟨f₁, f₂, f₃, f₄, rfl, h₁, h₂, h₃, h₄⟩ := h
  have hdot : ∀ s, ∀ x ∈ (dot :: s).head?, isDigit x = false := by
    intro s x hx
    cases hx
    decide
  rw [parseIpv4_eq_some, parseOctets_first, nextRound_iff]
  refine ⟨f₁, a, _, rfl, h₁, hdot _, ?_⟩
  rw [parseOctets_dot_iff (by decide)]
  refine ⟨f₂, b, _, rfl, h₂, hdot _, ?_⟩
  rw [parseOctets_dot_iff (by decide)]
  refine ⟨f₃, c, _, rfl, h₃, hdot _, ?_⟩
  rw [parseOctets_dot_iff (by decide)]
  refine ⟨f₄, d, [], by simp, h₄, by simp, ?_⟩
  rw [parseOctets, shifted_octets h₁.le h₂.le h₃.le h₄.le]

theorem quad_of_parseIpv4 (h : parseIpv4 s = some v) : ∃ a b c d, DottedQuad s a b c d := by
  rw [parseIpv4_eq_some, parseOctets_first, nextRound_iff] at h
  obtain ⟨f₁, a, t₁, rfl, h₁, _, h⟩ := h
  obtain ⟨f₂, b, t₂, rfl, h₂, _, h⟩ := (parseOctets_dot_iff (by decide)).mp h
  obtain ⟨f₃, c, t₃, rfl, h₃, _, h⟩ := (parseOctets_dot_iff (by decide)).mp h
  obtain ⟨f₄, d, t₄, rfl, h₄, _, h⟩ := (parseOctets_dot_iff (by decide)).mp h
  cases h
  exact ⟨a, b, c, d, f₁, f₂, f₃, f₄, by simp, h₁, h₂, h₃, h₄⟩

/-! ## The whole scan -/

theorem parseOctets_suffix (hk : k ≤ 4) (h : parseOctets k v s = some r) : r.2 <:+ s := by
  induction k generalizing v s with
  | zero =>
      cases h
      exact List.suffix_rfl
  | succ k ih =>
      by_cases hfour : k = 3
      · subst hfour
        rw [parseOctets_first, nextRound_iff] at h
        obtain ⟨f, a, t, rfl, _, _, h⟩ := h
        exact (ih (by omega) h).trans (List.suffix_append f t)
      · obtain ⟨f, a, t, rfl, _, _, h⟩ := (parseOctets_dot_iff (by omega)).mp h
        exact (ih (by omega) h).trans (List.suffix_append (dot :: f) t)

/-- `parseIpv4` is the scan with its pointer, over the string and its terminator. -/
theorem parseIpv4At_string (hnul : nul ∉ s) (out : UInt32) :
    parseIpv4At (s ++ [nul]) out =
      match parseIpv4 s with
      | some v => some (0, v)
      | none => some (-1, out) := by
  have hloop := octetsLoop_terminated (Nat.le_refl 4) 0 s
  cases hp : parseOctets 4 0 s with
  | none =>
      rw [hp] at hloop
      simp [parseIpv4At, scanIpv4, hloop, parseIpv4, hp, terminated, bind, Except.bind]
  | some r =>
      obtain ⟨v, rest⟩ := r
      rw [hp] at hloop
      cases rest with
      | nil =>
          simp [parseIpv4At, scanIpv4, hloop, parseIpv4, hp, terminated, deref, bind, Except.bind]
      | cons c rest =>
          have hc : c ≠ nul := by
            intro he
            have hmem := (parseOctets_suffix (Nat.le_refl 4) hp).subset List.mem_cons_self
            exact hnul (he ▸ hmem)
          simp [parseIpv4At, scanIpv4, hloop, parseIpv4, hp, terminated, deref, hc, bind, Except.bind]

end Vlog.Runner
