import Vlog.Runner.Lemmas.Record
import Vlog.Runner.Protocol

/-!
# What a request can put into the log

Every text that `handleLine` logs is short and holds no NUL. It holds a newline only if the name that
a `RUN ` line starts with does.
-/

namespace Vlog.Runner

open Vlog.Lib Vlog.Libc Vlog.Emulator

def requestLine (request : List Byte) : List Byte := stripEnd (cstr request)

/-- `RUN `, any number of spaces, and then a newline among the next 63 bytes and in front of the next
space. -/
def Smuggles (request : List Byte) : Prop :=
  ∃ pad front back, requestLine request = lit "RUN " ++ (pad ++ (front ++ newline :: back)) ∧
    (∀ b ∈ pad, b = space) ∧ space ∉ front ∧ front.length < nameSize - 1

/-! ## Texts without NUL and newline -/

def Plain (text : List Byte) : Prop := nul ∉ text ∧ newline ∉ text

instance (text : List Byte) : Decidable (Plain text) := inferInstanceAs (Decidable (_ ∧ _))

theorem Plain.append {s t : List Byte} (hs : Plain s) (ht : Plain t) : Plain (s ++ t) := by
  simp [Plain, hs.1, hs.2, ht.1, ht.2]

theorem Plain.take {s : List Byte} (hs : Plain s) (n : Nat) : Plain (s.take n) :=
  ⟨fun h => hs.1 (List.mem_of_mem_take h), fun h => hs.2 (List.mem_of_mem_take h)⟩

theorem plain_fmtD (n : Int) : Plain (fmtD n) :=
  ⟨not_mem_fmtD (by decide) (by decide), not_mem_fmtD (by decide) (by decide)⟩

theorem funcs_out {f : List Byte × (List Byte → Nat → Int × List Byte)} (hf : f ∈ funcs)
    (payload : List Byte) :
    (f.2 payload outSize).2.length < outSize ∧ Plain (f.2 payload outSize).2 := by
  have hprint : ∀ text, Plain text → (vsnprintf outSize text).2.length < outSize ∧
      Plain (vsnprintf outSize text).2 := by
    intro text ht
    refine ⟨?_, ht.take _⟩
    simp only [vsnprintf, outSize, List.length_take]
    omega
  simp only [funcs, List.mem_cons, List.not_mem_nil, or_false] at hf
  rcases hf with rfl | rfl
  · exact hprint _ (plain_fmtD _)
  · simp only [fnSum]
    split
    · exact hprint _ (by decide)
    · exact hprint _ (plain_fmtD _)

/-! ## The name -/

theorem splitRun_name (line : List Byte) :
    (splitRun line).1.length < nameSize ∧ ∀ b ∈ (splitRun line).1, b ∈ line := by
  have hrest : ∀ b ∈ (line.drop 4).dropWhile (· == space), b ∈ line := fun b hb =>
    List.mem_of_mem_drop ((List.dropWhile_suffix _).subset hb)
  unfold splitRun
  simp only
  split
  · refine ⟨by simp only [nameSize, List.length_take]; omega, fun b hb => hrest b ?_⟩
    exact List.mem_of_mem_take (List.mem_of_mem_take hb)
  · refine ⟨by simp only [nameSize, List.length_take]; omega, fun b hb => hrest b ?_⟩
    exact List.mem_of_mem_take hb

theorem splitRun_takeWhile (line : List Byte) :
    (splitRun line).1 = (((line.drop 4).dropWhile (· == space)).takeWhile (· != space)).take
      (nameSize - 1) := by
  unfold splitRun
  simp only
  rcases strchr_cases ((line.drop 4).dropWhile (· == space)) space with
    ⟨hno, hnone⟩ | ⟨p, q, hpq, hp, hsome⟩
  · rw [hnone, List.takeWhile_eq_self_iff.mpr]
    intro b hb
    have hne : b ≠ space := fun e => hno (e ▸ hb)
    simpa using hne
  · rw [hsome, hpq, List.takeWhile_append_of_pos]
    · simp
    · intro b hb
      have hne : b ≠ space := fun e => hp (e ▸ hb)
      simpa using hne

theorem mem_take_takeWhile {s : List Byte} {p : Byte → Bool} {k : Nat} {b : Byte} :
    b ∈ (s.takeWhile p).take k ↔
      ∃ front back, s = front ++ b :: back ∧ (∀ a ∈ front ++ [b], p a = true) ∧ front.length < k := by
  constructor
  · intro h
    obtain ⟨front, tail, hsplit⟩ := List.append_of_mem h
    have hpre := (List.take_prefix k (s.takeWhile p)).trans (List.takeWhile_prefix p)
    obtain ⟨back, hback⟩ := hsplit ▸ hpre
    refine ⟨front, tail ++ back, by simp [← hback], ?_, ?_⟩
    · intro a ha
      have hin : a ∈ (s.takeWhile p).take k := by
        rw [hsplit, List.append_cons]
        exact List.mem_append_left _ ha
      exact List.mem_takeWhile_imp (List.mem_of_mem_take hin)
    · have hlen := congrArg List.length hsplit
      simp only [List.length_take, List.length_append, List.length_cons] at hlen
      omega
  · rintro ⟨front, back, rfl, hp, hlen⟩
    rw [List.append_cons, List.takeWhile_append_of_pos hp, List.append_assoc]
    apply List.mem_take_iff_getElem.mpr
    have hin : front.length < min k ((front ++ [b]) ++ back.takeWhile p).length := by
      simp only [List.length_append, List.length_cons, lt_inf_iff]
      omega
    exact ⟨front.length, by simpa using hin, by simp⟩

theorem smuggles_iff (request : List Byte) :
    Smuggles request ↔ (requestLine request).take 4 = lit "RUN " ∧
      newline ∈ (splitRun (requestLine request)).1 := by
  rw [splitRun_takeWhile, mem_take_takeWhile]
  constructor
  · rintro ⟨pad, front, back, hline, hpad, hsp, hlen⟩
    have hpad' : ∀ b ∈ pad, (b == space) = true := fun b hb => by simp [hpad b hb]
    have hfront : ∀ b ∈ front ++ [newline], (b != space) = true := by
      intro b hb
      have hne : b ≠ space := by
        rintro rfl
        rcases List.mem_append.mp hb with hb | hb
        · exact hsp hb
        · cases List.mem_singleton.mp hb
      simpa using hne
    have hstop : (front ++ newline :: back).dropWhile (· == space) = front ++ newline :: back := by
      cases front with
      | nil => rfl
      | cons b front =>
          have hb : b ≠ space := by simpa using hfront b (by simp)
          simp [hb]
    have hdrop : (lit "RUN " ++ (pad ++ (front ++ newline :: back))).drop 4 =
        pad ++ (front ++ newline :: back) := rfl
    refine ⟨by rw [hline]; rfl, front, back, ?_, hfront, hlen⟩
    rw [hline, hdrop, List.dropWhile_append_of_pos hpad', hstop]
  · rintro ⟨hrun, front, back, hrest, hfront, hlen⟩
    refine ⟨((requestLine request).drop 4).takeWhile (· == space), front, back, ?_, ?_, ?_, hlen⟩
    · rw [← hrest, List.takeWhile_append_dropWhile, ← hrun, List.take_append_drop]
    · intro b hb
      simpa using List.mem_takeWhile_imp hb
    · intro hm
      have hne := hfront space (List.mem_append_left _ hm)
      simp at hne

theorem nul_not_mem_requestLine (request : List Byte) : nul ∉ requestLine request := fun h =>
  nul_not_mem_cstr request ((List.rdropWhile_prefix _ _).subset h)

/-! ## The texts logged -/

/-- A text that a record holds whole, with a newline in it only if `p` holds. -/
structure Fits (p : Prop) (text : List Byte) : Prop where
  short : text.length ≤ 4000
  nul : nul ∉ text
  newline : newline ∈ text → p

theorem Fits.plain {p : Prop} {text : List Byte} (h : Plain text) (hlen : text.length ≤ 4000) :
    Fits p text := ⟨hlen, h.1, fun hm => absurd hm h.2⟩

theorem runFunction_fits {name payload : List Byte} {rn : Nat} (hlen : name.length < nameSize)
    (hnul : nul ∉ name) {q : Int32 × List Byte} (hq : q ∈ (runFunction name payload rn).logs) :
    Fits (newline ∈ name) q.2 := by
  have hname : name.length ≤ 63 := Nat.le_of_lt_succ hlen
  -- A text that is the name between two literals.
  have hfits : ∀ a b : List Byte, Plain a → Plain b → a.length ≤ 100 → b.length ≤ 400 →
      Fits (newline ∈ name) (a ++ name ++ b) := by
    intro a b ha hb hla hlb
    refine ⟨by simp only [List.length_append]; omega, by simp [ha.1, hnul, hb.1], ?_⟩
    intro hm
    simpa [ha.2, hb.2] using hm
  unfold runFunction at hq
  split at hq
  · rename_i f hf
    obtain ⟨hout, hplain⟩ := funcs_out (List.mem_of_find?_eq_some hf) payload
    have hinvoke := hfits (lit "invoke ") [] (by decide) (by decide) (by decide) (by decide)
    rw [List.append_nil] at hinvoke
    have hle : (f.2 payload outSize).2.length ≤ 255 := Nat.le_of_lt_succ hout
    have hfailed := hfits [] (lit " failed: " ++ (f.2 payload outSize).2) (by decide)
      (Plain.append (by decide) hplain) (by decide)
      (by have h₀ : (lit " failed: ").length = 9 := by decide
          simp only [List.length_append]; omega)
    have hdone := hfits [] (lit " -> " ++ (f.2 payload outSize).2) (by decide)
      (Plain.append (by decide) hplain) (by decide)
      (by have h₀ : (lit " -> ").length = 4 := by decide
          simp only [List.length_append]; omega)
    simp only [List.nil_append, ← List.append_assoc] at hfailed hdone
    simp only at hq
    split at hq
    · rcases List.mem_cons.mp hq with rfl | hq
      · exact hinvoke
      · cases List.mem_singleton.mp hq
        exact hfailed
    · rcases List.mem_cons.mp hq with rfl | hq
      · exact hinvoke
      · cases List.mem_singleton.mp hq
        exact hdone
  · cases List.mem_singleton.mp hq
    have hnone := hfits (lit "no such function: ") [] (by decide) (by decide) (by decide) (by decide)
    rwa [List.append_nil] at hnone

theorem handleLine_fits {info : Nat → Int × List Byte} {request : List Byte} {rn : Nat}
    {q : Int32 × List Byte} (hq : q ∈ (handleLine info request rn).logs) :
    Fits (Smuggles request) q.2 := by
  unfold handleLine at hq
  simp only at hq
  split at hq
  · cases List.mem_singleton.mp hq
    exact .plain (by decide) (by decide)
  split at hq
  · cases List.mem_singleton.mp hq
    exact .plain (by decide) (by decide)
  split at hq
  · cases List.mem_singleton.mp hq
    exact .plain (by decide) (by decide)
  split at hq
  · rename_i hrun
    obtain ⟨hlen, hsub⟩ := splitRun_name (requestLine request)
    have hnul : nul ∉ (splitRun (requestLine request)).1 := fun h =>
      nul_not_mem_requestLine request (hsub _ h)
    have hfits := runFunction_fits hlen hnul hq
    exact ⟨hfits.short, hfits.nul, fun hm => (smuggles_iff request).mpr ⟨hrun, hfits.newline hm⟩⟩
  · cases List.mem_singleton.mp hq
    exact .plain (by decide) (by decide)

theorem handleLine_smuggled {info : Nat → Int × List Byte} {request : List Byte} {rn : Nat}
    (h : Smuggles request) : ∃ q ∈ (handleLine info request rn).logs, newline ∈ q.2 := by
  obtain ⟨hrun, hnl⟩ := (smuggles_iff request).mp h
  have hne : ∀ s : String, (lit s).take 4 ≠ lit "RUN " → requestLine request ≠ lit s := by
    intro s hs he
    exact hs (he ▸ hrun)
  have hfind : funcs.find? (fun f => f.1 = (splitRun (requestLine request)).1) = none := by
    rw [List.find?_eq_none]
    intro f hf he
    rw [← of_decide_eq_true he] at hnl
    simp only [funcs, List.mem_cons, List.not_mem_nil, or_false] at hf
    rcases hf with rfl | rfl <;> revert hnl <;> decide
  refine ⟨(logWarn, lit "no such function: " ++ (splitRun (requestLine request)).1), ?_, by simp [hnl]⟩
  have hreq : stripEnd (cstr request) = requestLine request := rfl
  unfold handleLine
  simp only [hreq]
  rw [if_neg (hne "PING" (by decide)), if_neg (hne "INFO" (by decide)),
    if_neg (hne "FUNCS" (by decide)), if_pos hrun, runFunction, hfind]
  simp

/-! ## The log stream -/

/-- One line and one record for each call, with the call's level and text. -/
def OneRecordEach (logs : List (Int32 × List Byte)) : Prop :=
  (∀ q ∈ logs, newline ∉ q.2) ∧
  logStream logs = logs.flatMap (fun q => recordHead q.1 ++ q.2 ++ [newline]) ∧
  ∀ nl c, c.buf = [] → ((records (feed nl c (logStream logs)).2.2).map fun r => (r.level, r.bytes)) =
    logs.map fun q => (q.1.toUInt32, q.2)

theorem logrec_fits {level : Int32} {text : List Byte} (h : text.length ≤ 4000) :
    logrec level text = .line (recordHead level ++ text ++ [newline]) := by
  have hhead := recordHead_length level
  rw [logrec_line level text (by unfold intMax; omega), recordText,
    List.take_of_length_le (by unfold lineMaxLen; omega)]

theorem logStream_fits {logs : List (Int32 × List Byte)} (h : ∀ q ∈ logs, q.2.length ≤ 4000) :
    logStream logs = logs.flatMap fun q => recordHead q.1 ++ q.2 ++ [newline] := by
  apply List.flatMap_congr
  intro q hq
  rw [logrec_fits (h q hq)]

theorem oneRecordEach {logs : List (Int32 × List Byte)}
    (h : ∀ q ∈ logs, Fits False q.2) : OneRecordEach logs := by
  have hstream := logStream_fits fun q hq => (h q hq).short
  refine ⟨fun q hq hm => (h q hq).newline hm, hstream, ?_⟩
  intro nl c hc
  rw [hstream]
  clear hstream
  induction logs generalizing nl with
  | nil => rfl
  | cons q logs ih =>
      have hq := h q List.mem_cons_self
      have htail := ih (fun q' hm => h q' (List.mem_cons_of_mem _ hm))
      have hfeed := feed_record nl c q.1 hc hq.nul hq.newline (hq.short.trans (by decide))
        (logs.flatMap fun q => recordHead q.1 ++ q.2 ++ [newline])
      simp only [List.flatMap_cons, List.append_assoc, List.singleton_append] at hfeed ⊢
      rw [hfeed]
      simp only [List.append_assoc] at htail
      exact congrArg (List.cons (q.1.toUInt32, q.2)) (htail _)

end Vlog.Runner
