import Vlog.Lib.Framing
import Vlog.Emulator.Logstore

/-!
# What a log file says

A reader of the log file, written from its format `[<seq>] <LEVEL> <message>` and not from the code
that writes it, and what one whole call of a producer leaves on the stream.
-/

namespace Vlog.Emulator

open Vlog.Lib Vlog.Libc

structure Entry where
  seq : UInt32
  level : List Byte
  bytes : List Byte
  deriving DecidableEq

def Record.entry (r : Record) : Entry :=
  { seq := r.seq, level := levelName r.level, bytes := r.bytes }

def decodeEntry (seq : Nat) (rest : List Byte) : Option Entry :=
  match strchr rest space with
  | none => none
  | some i =>
      some { seq := UInt32.ofNat seq, level := rest.take i, bytes := rest.drop (i + 1) }

def decodeLine (line : List Byte) : Option Entry :=
  if line.take 1 = lit "[" then
    let ds := (line.drop 1).takeWhile isDigit
    let rest := line.drop (1 + ds.length)
    if ds ≠ [] ∧ rest.take 2 = lit "] " then decodeEntry (digitsValue ds) (rest.drop 2) else none
  else none

/-- The entries of a file; `none` where a line does not have the format, or the last has no end. -/
def decodeLog (file : List Byte) : Option (List Entry) :=
  let r := splitLines newline file
  if r.2 = [] then r.1.mapM decodeLine else none

/-! ## One record, one line -/

def Record.line (r : Record) : List Byte := r.header ++ r.bytes

theorem levelName_clean (level : UInt32) : newline ∉ levelName level ∧ space ∉ levelName level := by
  unfold levelName
  split <;> decide

theorem newline_not_mem_header (r : Record) : newline ∉ r.header := by
  have hd : newline ∉ fmtU r.seq := not_mem_decimal (by decide)
  have h₁ : newline ∉ lit "[" := by decide
  have h₂ : newline ∉ lit "] " := by decide
  have h₃ : newline ∉ lit " " := by decide
  simp [Record.header, hd, h₁, h₂, h₃, (levelName_clean r.level).1]

theorem newline_not_mem_line {r : Record} (h : newline ∉ r.bytes) : newline ∉ r.line := by
  simp [Record.line, newline_not_mem_header, h]

theorem decodeEntry_line (r : Record) :
    decodeEntry r.seq.toNat (levelName r.level ++ space :: r.bytes) = some r.entry := by
  simp [decodeEntry, strchr_append (levelName_clean r.level).2, Record.entry]

/-- The numeral ends at the first byte that is not a digit, whatever the message holds. -/
theorem decodeLine_line (r : Record) : decodeLine r.line = some r.entry := by
  have hline : r.line =
      91 :: (fmtU r.seq ++ 93 :: 32 :: (levelName r.level ++ space :: r.bytes)) := by
    simp [Record.line, Record.header, lit, space]
  have hds : (fmtU r.seq ++ 93 :: 32 :: (levelName r.level ++ space :: r.bytes)).takeWhile isDigit =
      fmtU r.seq := takeWhile_decimal (by decide) _
  have hne : fmtU r.seq ≠ [] := decimal_ne_nil _
  have hrest : (r.line).drop (1 + (fmtU r.seq).length) =
      93 :: 32 :: (levelName r.level ++ space :: r.bytes) := by
    rw [hline, Nat.add_comm, List.drop_succ_cons, List.drop_left]
  have hv : digitsValue (fmtU r.seq) = r.seq.toNat := digitsValue_decimal _
  have h₁ : r.line.take 1 = lit "[" := by rw [hline]; rfl
  have h₂ : r.line.drop 1 = fmtU r.seq ++ 93 :: 32 :: (levelName r.level ++ space :: r.bytes) := by
    rw [hline]; rfl
  unfold decodeLine
  rw [if_pos h₁, h₂, hds]
  simp only [hrest, hv]
  rw [if_pos ⟨hne, rfl⟩]
  exact decodeEntry_line r

theorem flatMap_text (rs : List Record) :
    rs.flatMap Record.text = (rs.map Record.line).flatMap (· ++ [newline]) := by
  rw [List.flatMap_map]
  rfl

theorem splitLines_text {rs : List Record} (h : ∀ r ∈ rs, newline ∉ r.bytes) :
    splitLines newline (rs.flatMap Record.text) = (rs.map Record.line, []) := by
  rw [flatMap_text]
  apply splitLines_flatMap
  intro l hl
  obtain ⟨r, hr, rfl⟩ := List.mem_map.mp hl
  exact newline_not_mem_line (h r hr)

/-- The reader finds in a file exactly the records appended to it. -/
theorem decodeLog_text {rs : List Record} (h : ∀ r ∈ rs, newline ∉ r.bytes) :
    decodeLog (rs.flatMap Record.text) = some (rs.map Record.entry) := by
  simp only [decodeLog, splitLines_text h, ↓reduceIte]
  induction rs with
  | nil => rfl
  | cons r rs ih =>
      have htail := ih fun r' hr => h r' (List.mem_cons_of_mem _ hr)
      simp [decodeLine_line, htail]

theorem count_newline_text (r : Record) : r.text.count newline = r.bytes.count newline + 1 := by
  simp [Record.text, List.count_eq_zero.mpr (newline_not_mem_header r)]

theorem length_le_count_text (rs : List Record) :
    rs.length ≤ (rs.flatMap Record.text).count newline := by
  induction rs with
  | nil => exact Nat.zero_le _
  | cons r rs ih =>
      rw [List.flatMap_cons, List.count_append, count_newline_text, List.length_cons]
      omega

theorem count_text_iff (rs : List Record) :
    (rs.flatMap Record.text).count newline = rs.length ↔ ∀ r ∈ rs, newline ∉ r.bytes := by
  induction rs with
  | nil => simp
  | cons r rs ih =>
      have hle := length_le_count_text rs
      rw [List.flatMap_cons, List.count_append, count_newline_text, List.length_cons,
        List.forall_mem_cons, ← ih, ← List.count_eq_zero]
      omega

theorem count_text {rs : List Record} (h : ∀ r ∈ rs, newline ∉ r.bytes) :
    (rs.flatMap Record.text).count newline = rs.length := (count_text_iff rs).mpr h

theorem decodeLines_length {ls : List (List Byte)} {es : List Entry}
    (h : ls.mapM decodeLine = some es) : es.length = ls.length := by
  induction ls generalizing es with
  | nil =>
      cases h
      rfl
  | cons l ls ih =>
      rw [List.mapM_cons] at h
      obtain ⟨e, _, h⟩ := Option.bind_eq_some_iff.mp h
      obtain ⟨es', hes', h⟩ := Option.bind_eq_some_iff.mp h
      cases h
      rw [List.length_cons, List.length_cons, ih hes']

/-- A reader that accepts a file finds as many entries as the file has newlines. -/
theorem decodeLog_length {file : List Byte} {es : List Entry} (h : decodeLog file = some es) :
    es.length = file.count newline := by
  simp only [decodeLog] at h
  split at h
  · rw [decodeLines_length h, splitLines_length]
  · cases h

theorem decodeLog_length_iff (rs : List Record) :
    (∃ es, decodeLog (rs.flatMap Record.text) = some es ∧ es.length = rs.length) ↔
      ∀ r ∈ rs, newline ∉ r.bytes := by
  constructor
  · intro h
    obtain ⟨es, hes, hlen⟩ := h
    exact (count_text_iff rs).mp ((decodeLog_length hes).symm.trans hlen)
  · intro h
    exact ⟨_, decodeLog_text h, by simp⟩

theorem decodeLog_text_iff (rs : List Record) :
    decodeLog (rs.flatMap Record.text) = some (rs.map Record.entry) ↔
      ∀ r ∈ rs, newline ∉ r.bytes := by
  constructor
  · intro h
    exact (decodeLog_length_iff rs).mp ⟨_, h, by simp⟩
  · exact decodeLog_text

theorem foldl_logstoreAppend (ls : Logstore) (rs : List Record) :
    (rs.foldl logstoreAppend ls).file = ls.file ++ rs.flatMap Record.text := by
  induction rs generalizing ls with
  | nil => simp
  | cons r rs ih => simp [ih]

/-! ## One call on the stream -/

def Call.text : Call → List Byte
  | .append r => r.text
  | .flush => []

theorem Stream.put_total {bs : List Byte} {f g : Stream} (h : Stream.put bs f g) :
    g.file ++ g.buf = f.file ++ f.buf ++ bs := by
  obtain ⟨k, rfl⟩ := h
  simp

theorem exec_puts (bss : List (List Byte)) {f g : Stream}
    (h : Mutex.Exec (bss.map Stream.put ++ [Stream.fflush]) f g) :
    g.file = f.file ++ f.buf ++ bss.flatten ∧ g.buf = [] := by
  induction bss generalizing f with
  | nil =>
      obtain ⟨_, rfl, rfl⟩ := h
      simp
  | cons bs bss ih =>
      obtain ⟨z, hput, hrest⟩ := h
      obtain ⟨hfile, hbuf⟩ := ih hrest
      refine ⟨?_, hbuf⟩
      rw [hfile, Stream.put_total hput]
      simp

theorem exec_body {c : Call} {f g : Stream} (h : Mutex.Exec c.body f g) (hbuf : f.buf = []) :
    g.file = f.file ++ c.text ∧ g.buf = [] := by
  cases c with
  | flush =>
      have h' := exec_puts [] h
      simpa [hbuf, Call.text] using h'
  | append r =>
      by_cases hr : r.bytes = []
      · have h' := exec_puts [r.header, [newline]] (by simpa [Call.body, hr] using h)
        simpa [hbuf, Call.text, Record.text, hr] using h'
      · have h' := exec_puts [r.header, r.bytes, [newline]]
          (by simpa [Call.body, hr] using h)
        simpa [hbuf, Call.text, Record.text] using h'

theorem serial_file {ι : Type*} {cs : List (ι × Call)} {f : Stream}
    (h : Mutex.Serial Call.body cs { file := [], buf := [] } f) :
    f.file = cs.flatMap (fun p => p.2.text) ∧ f.buf = [] := by
  refine h.invariant (I := fun cs f => f.file = cs.flatMap (fun p => p.2.text) ∧ f.buf = [])
    ⟨rfl, rfl⟩ ?_
  rintro cs p y z ⟨hfile, hbuf⟩ hex
  obtain ⟨hfile', hbuf'⟩ := exec_body hex hbuf
  exact ⟨by simp [hfile', hfile], hbuf'⟩

def appended {ι : Type*} (cs : List (ι × Call)) : List Record :=
  cs.filterMap fun p => match p.2 with | .append r => some r | .flush => none

theorem flatMap_callText {ι : Type*} (cs : List (ι × Call)) :
    cs.flatMap (fun p => p.2.text) = (appended cs).flatMap Record.text := by
  induction cs with
  | nil => rfl
  | cons p cs ih =>
      obtain ⟨i, c⟩ := p
      cases c with
      | append r => exact congrArg (r.text ++ ·) ih
      | flush => exact ih

end Vlog.Emulator
