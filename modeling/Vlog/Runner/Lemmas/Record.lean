import Vlog.Emulator.Lemmas.Collector
import Vlog.Runner.LogSink

/-!
# A record on its way to the collector

The line that `logrec` builds, and what the collector's `feed` and `process_line` make of it.
-/

namespace Vlog.Runner

open Vlog.Lib Vlog.Libc Vlog.Emulator

/-! ## The line -/

def recordHead (level : Int32) : List Byte := fmtD level.toInt ++ [space]

def recordText (level : Int32) (text : List Byte) : List Byte :=
  text.take (lineMaxLen - 2 - (recordHead level).length)

theorem recordHead_length (level : Int32) : (recordHead level).length ≤ 12 := by
  have hle : (decimal level.toInt.natAbs).length ≤ 10 := by
    rw [decimal_length_le (by decide)]
    have h₁ := level.toInt_lt
    have h₂ := level.le_toInt
    omega
  unfold recordHead fmtD
  split <;> simp <;> omega

theorem not_mem_fmtD {n : Int} {b : Byte} (hd : isDigit b = false) (hm : b ≠ minus) :
    b ∉ fmtD n := by
  unfold fmtD
  split
  · simp [hm, not_mem_decimal hd]
  · exact not_mem_decimal hd

theorem vsnprintf_of_le {text : List Byte} (h : text.length ≤ intMax) (size : Nat) :
    vsnprintf size text = ((text.length : Int), text.take (size - 1)) := by
  rw [vsnprintf, if_pos h]

/-- The clamp leaves room for the newline, and takes nothing that `vsnprintf` had not cut off. -/
theorem record_clamp (head text : List Byte) (h : head.length ≤ 12) :
    (head ++ text.take (lineMaxLen - head.length - 1)).take
        (if lineMaxLen - 2 < head.length + text.length then lineMaxLen - 2
          else head.length + text.length) =
      head ++ text.take (lineMaxLen - 2 - head.length) := by
  unfold lineMaxLen
  rw [List.take_append]
  split
  · rw [List.take_of_length_le (by omega), List.take_take]
    congr 2
    omega
  · rw [List.take_of_length_le (by omega), List.take_take, List.take_of_length_le (by omega),
      List.take_of_length_le (by omega)]

theorem logrec_line (level : Int32) (text : List Byte)
    (h : (recordHead level).length + text.length ≤ intMax) :
    logrec level text = .line (recordHead level ++ recordText level text ++ [newline]) := by
  have hlen := recordHead_length level
  have hhead : vsnprintf lineMaxLen (recordHead level) =
      (((recordHead level).length : Int), recordHead level) := by
    rw [vsnprintf_of_le (by omega), List.take_of_length_le (by unfold lineMaxLen; omega)]
  have htail := vsnprintf_of_le (show text.length ≤ intMax by omega)
  have hfold : fmtD level.toInt ++ [space] = recordHead level := rfl
  unfold logrec
  simp only [hfold, hhead, htail, Int.toNat_natCast]
  rw [if_neg (by unfold lineMaxLen; omega), if_neg (by omega), if_neg (by omega),
    record_clamp _ _ hlen, recordText]

theorem logrec_huge (level : Int32) {text : List Byte} (h : intMax < text.length) :
    logrec level text = .nothing := by
  have htail : ∀ size, (vsnprintf size text).1 = -1 := fun size => by
    rw [vsnprintf, if_neg (by omega)]
  unfold logrec
  simp only [htail]
  split
  · rfl
  · rfl

/-! ## What the collector makes of it -/

theorem record_newline {level : Int32} {text : List Byte} (h : newline ∉ text) :
    newline ∉ recordHead level ++ text := by
  have hd : newline ∉ fmtD level.toInt := not_mem_fmtD (by decide) (by decide)
  have hs : newline ≠ space := by decide
  simp [recordHead, hd, hs, h]

theorem parseLine_record (level : Int32) {text : List Byte} (h : nul ∉ text) :
    parseLine (recordHead level ++ text) = (level.toUInt32, text) := by
  have hd : nul ∉ fmtD level.toInt := not_mem_fmtD (by decide) (by decide)
  have hsp : space ∉ fmtD level.toInt := not_mem_fmtD (by decide) (by decide)
  have hline : recordHead level ++ text = fmtD level.toInt ++ space :: text := by
    simp [recordHead]
  rw [hline, parseLine_space hd hsp, strtoul_fmtD, cstr_of_not_mem h]

theorem feed_record (nl : Netlog) (c : Conn) (level : Int32) {text : List Byte} (hc : c.buf = [])
    (hnul : nul ∉ text) (hnl : newline ∉ text) (hlen : text.length ≤ 4094) (rest : List Byte) :
    feed nl c (recordHead level ++ text ++ newline :: rest) =
      let r : Record := { seq := nl.seq, level := level.toUInt32, bytes := text }
      let t := feed { store := logstoreAppend nl.store r, seq := nl.seq + 1 } c rest
      (t.1, t.2.1, .line c.serial (recordHead level ++ text) r :: t.2.2) := by
  have hhead := recordHead_length level
  have hlen : (recordHead level ++ text).length ≤ lineBound := by
    simp only [lineBound, nlLineMax, List.length_append]
    omega
  rw [feed_line nl c hc (record_newline hnl) hlen rest]
  simp [processLine, parseLine_record level hnul]

end Vlog.Runner
