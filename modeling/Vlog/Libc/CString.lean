import Vlog.Lib.Decimal

/-!
# C strings

Byte buffers as the C library reads them: the string of a buffer ends at its first NUL.
-/

namespace Vlog.Libc

abbrev Byte := UInt8

/-- The bytes of an ASCII literal of the source. -/
def lit (s : String) : List Byte := s.toList.map fun c => UInt8.ofNat c.toNat

def nul : Byte := 0
def newline : Byte := 10
def cr : Byte := 13
def space : Byte := 32

def cstr (buf : List Byte) : List Byte := buf.takeWhile (· ≠ nul)

/-- `strchr(s, c) - s` for a C string `s` and `c` not NUL, or `none` for a null result. -/
def strchr (s : List Byte) (c : Byte) : Option Nat := s.findIdx? (· == c)

def isspace (b : Byte) : Bool := b == space || (9 ≤ b && b ≤ 13)

/-- `while (len && (s[len - 1] == '\n' || s[len - 1] == '\r')) len--;` -/
def stripEnd (s : List Byte) : List Byte := s.rdropWhile fun b => b == newline || b == cr

/-! ## The string of a buffer -/

theorem cstr_prefix_buf (buf : List Byte) : cstr buf <+: buf := List.takeWhile_prefix _

theorem nul_not_mem_cstr (buf : List Byte) : nul ∉ cstr buf := by
  intro h
  simpa using List.mem_takeWhile_imp h

theorem cstr_of_not_mem {buf : List Byte} (h : nul ∉ buf) : cstr buf = buf := by
  apply List.takeWhile_eq_self_iff.mpr
  intro b hb
  have hne : b ≠ nul := fun e => h (e ▸ hb)
  simpa using hne

/-- The string of a buffer runs through what has no NUL in front. -/
theorem cstr_append {s : List Byte} (h : nul ∉ s) (rest : List Byte) :
    cstr (s ++ rest) = s ++ cstr rest := by
  apply List.takeWhile_append_of_pos
  intro b hb
  have hne : b ≠ nul := fun e => h (e ▸ hb)
  simpa using hne

/-! ## The end of a line -/

theorem stripEnd_newline (s : List Byte) : stripEnd (s ++ [newline]) = stripEnd s :=
  List.rdropWhile_concat_pos _ _ _ rfl

/-- What is stripped is newlines and carriage returns, and nothing else ends with one. -/
theorem stripEnd_spec (s : List Byte) :
    ∃ tail, s = stripEnd s ++ tail ∧ (∀ b ∈ tail, b = newline ∨ b = cr) ∧
      ∀ front b, stripEnd s = front ++ [b] → b ≠ newline ∧ b ≠ cr := by
  refine ⟨s.rtakeWhile fun b => b == newline || b == cr,
    List.rdropWhile_append_rtakeWhile.symm, ?_, ?_⟩
  · intro b hb
    simpa using List.mem_rtakeWhile_imp hb
  · intro front b h
    have hne : stripEnd s ≠ [] := by simp [h]
    have hlast := List.rdropWhile_last_not _ _ hne
    have hb : (stripEnd s).getLast hne = b := by simp [h]
    change ¬ (((stripEnd s).getLast hne == newline || (stripEnd s).getLast hne == cr) = true)
      at hlast
    simpa [hb] using hlast

/-! ## `strchr` -/

theorem strchr_append {s : List Byte} {c : Byte} (h : c ∉ s) (rest : List Byte) :
    strchr (s ++ c :: rest) c = some s.length := by
  have hs : s.findIdx? (· == c) = none := by
    rw [List.findIdx?_eq_none_iff]
    intro b hb
    have hne : b ≠ c := fun e => h (e ▸ hb)
    simpa using hne
  simp [strchr, List.findIdx?_append, hs, List.findIdx?_cons]

theorem strchr_none {s : List Byte} {c : Byte} (h : c ∉ s) : strchr s c = none := by
  rw [strchr, List.findIdx?_eq_none_iff]
  intro b hb
  have hne : b ≠ c := fun e => h (e ▸ hb)
  simpa using hne

theorem strchr_cases (s : List Byte) (c : Byte) :
    (c ∉ s ∧ strchr s c = none) ∨
      ∃ p q, s = p ++ c :: q ∧ c ∉ p ∧ strchr s c = some p.length := by
  by_cases h : c ∈ s
  · obtain ⟨p, q, rfl, hp⟩ := List.eq_append_cons_of_mem h
    exact Or.inr ⟨p, q, rfl, hp, strchr_append hp q⟩
  · exact Or.inl ⟨h, strchr_none h⟩

end Vlog.Libc
