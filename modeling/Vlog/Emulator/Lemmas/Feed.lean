import Vlog.Emulator.Netlog

/-!
# `feed` cuts the bytes of a connection into lines

`feedByte` is `push` of the framing library at the collector's bound, with `process_line` on every
line completed.
-/

namespace Vlog.Emulator

open Vlog.Lib Vlog.Libc

/-- The longest line that a line buffer holds in front of its terminating NUL. -/
abbrev lineBound : Nat := nlLineMax - 1

def processLines (nl : Netlog) (serial : Nat) : List (List Byte) → Netlog × List Event
  | [] => (nl, [])
  | l :: ls =>
      let p := processLine nl l
      let t := processLines p.1 serial ls
      (t.1, .line serial l p.2 :: t.2)

theorem processLines_append (nl : Netlog) (serial : Nat) (ls ls' : List (List Byte)) :
    processLines nl serial (ls ++ ls') =
      ((processLines (processLines nl serial ls).1 serial ls').1,
        (processLines nl serial ls).2 ++
          (processLines (processLines nl serial ls).1 serial ls').2) := by
  induction ls generalizing nl with
  | nil => simp [processLines]
  | cons l ls ih => simp [processLines, ih]

theorem feedByte_push (nl : Netlog) (c : Conn) (ch : Byte) :
    feedByte nl c ch =
      let r := push newline lineBound c.buf ch
      let p := processLines nl c.serial r.2.toList
      (p.1, { c with buf := r.1 }, p.2) := by
  unfold feedByte push Conn.len
  split
  · simp [processLines]
  · split <;> simp [processLines]

theorem feed_pushAll (nl : Netlog) (c : Conn) (data : List Byte) :
    feed nl c data =
      let r := pushAll newline lineBound c.buf data
      let p := processLines nl c.serial r.1
      (p.1, { c with buf := r.2 }, p.2) := by
  induction data generalizing nl c with
  | nil => simp [feed, pushAll, processLines]
  | cons ch data ih => simp [feed, pushAll, feedByte_push, ih, processLines_append]

theorem feed_append (nl : Netlog) (c : Conn) (data data' : List Byte) :
    feed nl c (data ++ data') =
      let r := feed nl c data
      let t := feed r.1 r.2.1 data'
      (t.1, t.2.1, r.2.2 ++ t.2.2) := by
  simp [feed_pushAll, pushAll_append, processLines_append]

def feedChunks (nl : Netlog) (c : Conn) : List (List Byte) → Netlog × Conn × List Event
  | [] => (nl, c, [])
  | data :: chunks =>
      let r := feed nl c data
      let t := feedChunks r.1 r.2.1 chunks
      (t.1, t.2.1, r.2.2 ++ t.2.2)

theorem feedChunks_flatten (nl : Netlog) (c : Conn) (chunks : List (List Byte)) :
    feedChunks nl c chunks = feed nl c chunks.flatten := by
  induction chunks generalizing nl c with
  | nil => rfl
  | cons data chunks ih => simp [feedChunks, ih, feed_append]

/-- A line that fits, fed on an empty buffer, is handed on whole and leaves the buffer empty. -/
theorem feed_line (nl : Netlog) (c : Conn) {body : List Byte} (hc : c.buf = [])
    (hbody : newline ∉ body) (hlen : body.length ≤ lineBound) (rest : List Byte) :
    feed nl c (body ++ newline :: rest) =
      let p := processLine nl body
      let t := feed p.1 c rest
      (t.1, t.2.1, .line c.serial body p.2 :: t.2.2) := by
  have hb : 0 < lineBound := by decide
  simp [feed_pushAll, hc, pushAll_line hb hbody hlen, processLines]

/-! ## What is appended -/

/-- The first space ends the level, and the string behind it is the message. -/
theorem parseLine_space {front : List Byte} (hnul : nul ∉ front) (hsp : space ∉ front)
    (rest : List Byte) :
    parseLine (front ++ space :: rest) = ((strtoul front).toUInt32, cstr rest) := by
  have hcstr : cstr (front ++ space :: rest) = front ++ space :: cstr rest := by
    rw [cstr_append hnul]
    rfl
  rw [parseLine, hcstr, strchr_append hsp]
  simp

theorem mem_parseLine {line : List Byte} {b : Byte} (h : b ∈ (parseLine line).2) : b ∈ line := by
  cases hsp : strchr (cstr line) space with
  | none => simp [parseLine, hsp] at h
  | some i =>
      simp only [parseLine, hsp] at h
      exact (cstr_prefix_buf line).subset (List.mem_of_mem_drop h)

theorem newline_not_mem_parseLine {line : List Byte} (h : newline ∉ line) :
    newline ∉ (parseLine line).2 := fun hm => h (mem_parseLine hm)

end Vlog.Emulator
