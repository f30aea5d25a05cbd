import Vlog.Lib.Words
import Vlog.Runner.Protocol

/-!
# Counting words

The loop of `fn_wordcount` counts a word where it enters one. Inside a word, what is left of it does not
count again.
-/

namespace Vlog.Runner

open Vlog.Lib Vlog.Libc

/-- The words still to come: those behind the rest of the word that the loop is in. -/
def wordsAhead (inWord : Bool) (p : List Byte) : List (List Byte) :=
  words isspace (if inWord then p.dropWhile (!isspace ·) else p)

theorem countWords_eq (inWord : Bool) (n : Nat) (p : List Byte) :
    countWords inWord n p = n + (wordsAhead inWord p).length := by
  induction p generalizing inWord n with
  | nil => cases inWord <;> simp [countWords, wordsAhead]
  | cons b p ih =>
      cases hb : isspace b with
      | true =>
          have hahead : wordsAhead inWord (b :: p) = words isspace p := by
            cases inWord <;> simp [wordsAhead, hb, words_sep hb]
          rw [countWords, if_pos hb, ih, hahead]
          rfl
      | false =>
          have hnot : ¬ isspace b = true := by simp [hb]
          cases inWord with
          | true =>
              rw [countWords, if_neg hnot, if_pos rfl, ih]
              simp [wordsAhead, hb]
          | false =>
              rw [countWords, if_neg hnot, if_neg Bool.false_ne_true, ih]
              simp [wordsAhead, words_cons hb]
              omega

theorem countWords_words (payload : List Byte) :
    countWords false 0 payload = (words isspace payload).length := by
  rw [countWords_eq, Nat.zero_add]
  rfl

theorem fnWordcount_text (payload : List Byte) (n : Nat) :
    fnWordcount payload n = (0, (decimal (words isspace payload).length).take (n - 1)) := by
  rw [fnWordcount, countWords_words]
  rfl

end Vlog.Runner
