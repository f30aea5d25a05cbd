import Vlog.Runner.Lemmas.Reply
import Vlog.Runner.Lemmas.Shipping
import Vlog.Runner.Server

/-!
# One read, and writes that end the process

What the first piece of a line is answered, and which answers to `write` a live process gets.
-/

namespace Vlog.Runner

open Vlog.Lib Vlog.Libc

/-! ## Pieces of a line -/

section

variable {info : Nat → Int × List Byte} {request request' line first : List Byte} {rn : Nat}

def commands : List (List Byte) := [lit "PING", lit "INFO", lit "FUNCS", lit "RUN "]

def StartsCommand (line : List Byte) : Prop := ∃ c ∈ commands, c <+: line

def badCommand : List Byte := lit "ERR bad command" ++ [newline]

theorem handleLine_congr (h : requestLine request = requestLine request') :
    handleLine info request rn = handleLine info request' rn := by
  rw [requestLine, requestLine] at h
  simp only [handleLine, h]

theorem requestLine_front (request : List Byte) : requestLine request <+: request :=
  (List.rdropWhile_prefix _ _).trans (cstr_prefix_buf request)

theorem StartsCommand.of_prefix (h : StartsCommand first) (hpre : first <+: line) :
    StartsCommand line := by
  obtain ⟨c, hc, hstart⟩ := h
  exact ⟨c, hc, hstart.trans hpre⟩

theorem startsCommand_of_take (h : line.take 4 = lit "RUN ") : StartsCommand line := by
  refine ⟨lit "RUN ", by decide, ?_⟩
  rw [← h]
  exact List.take_prefix 4 line

theorem handleLine_notCommand (h : ¬ StartsCommand (requestLine request)) :
    (handleLine info request replySize).reply = badCommand := by
  have hne : ∀ c ∈ commands, requestLine request ≠ c := by
    intro c hc he
    exact h ⟨c, hc, he ▸ List.prefix_rfl⟩
  rw [handleLine_bad (hne _ (by decide)) (hne _ (by decide)) (hne _ (by decide))
    fun htake => h (startsCommand_of_take htake)]
  decide

theorem replyTo_singleton (hne : first ≠ []) :
    replyTo info [first] =
      some (cstr (handleLine info (first.take (lineMaxLen - 1)) replySize).reply) := by
  have hlen : ¬ (first.take (lineMaxLen - 1)).length = 0 := by
    have hpos := List.length_pos_iff.mpr hne
    rw [List.length_take]
    unfold lineMaxLen
    omega
  simp only [replyTo, if_neg hlen]

theorem replyTo_notCommand (hne : first ≠ [])
    (h : ¬ StartsCommand (requestLine (first.take (lineMaxLen - 1)))) :
    replyTo info [first] = some badCommand := by
  rw [replyTo_singleton hne, handleLine_notCommand h]
  decide

/-- A text without NUL and line ends stays in front when the line is stripped. -/
theorem prefix_requestLine {c : List Byte} (hnul : nul ∉ c) (hnl : newline ∉ c) (hcr : cr ∉ c)
    (h : c <+: request) : c <+: requestLine request := by
  obtain ⟨rest, rfl⟩ := h
  have hcstr : cstr (c ++ rest) = c ++ cstr rest := by
    apply List.takeWhile_append_of_pos
    intro b hb
    have hne : b ≠ nul := fun e => hnul (e ▸ hb)
    simpa using hne
  obtain ⟨tail, hs, htail, _⟩ := stripEnd_spec (c ++ cstr rest)
  rw [requestLine, hcstr]
  generalize stripEnd (c ++ cstr rest) = p at hs
  have hpre : p <+: c ++ cstr rest := ⟨tail, hs.symm⟩
  rcases List.prefix_or_prefix_of_prefix (List.prefix_append c (cstr rest)) hpre with h | h
  · exact h
  · -- What `c` has beyond the stripped line is line ends, and it has none of these.
    obtain ⟨more, rfl⟩ := h
    cases more with
    | nil =>
        rw [List.append_nil]
    | cons b more =>
        have htl : b :: (more ++ cstr rest) = tail := by
          rw [List.append_assoc] at hs
          exact List.append_cancel_left hs
        rcases htail b (by simp [← htl]) with rfl | rfl
        · exact absurd (by simp) hnl
        · exact absurd (by simp) hcr

theorem prefix_requestLine_command {c : List Byte} (hc : c ∈ commands) (h : c <+: request) :
    c <+: requestLine request := by
  have hclean : ∀ c ∈ commands, nul ∉ c ∧ newline ∉ c ∧ cr ∉ c := by decide
  obtain ⟨hnul, hnl, hcr⟩ := hclean c hc
  exact prefix_requestLine hnul hnl hcr h

/-! ## The answer to a piece -/

theorem badCommand_head {text : List Byte} (h : cstr text = badCommand) :
    text.head? = some 69 := by
  cases text with
  | nil => cases h
  | cons b text =>
      by_cases hb : b = nul
      · subst hb
        cases h
      · have hcons : cstr (b :: text) = b :: cstr text := by simp [cstr, hb]
        rw [hcons] at h
        have hhead := congrArg List.head? h
        exact hhead

theorem handleLine_fixed_ne_bad (h : requestLine request ∈ commands.take 3) :
    cstr (handleLine info request replySize).reply ≠ badCommand := by
  intro hbad
  have hhead := badCommand_head hbad
  simp only [commands, List.take_succ_cons, List.take_zero, List.mem_cons, List.not_mem_nil,
    or_false] at h
  rcases h with h | h | h
  · rw [handleLine_ping h] at hhead
    revert hhead
    decide
  · rw [(handleLine_info h).1] at hhead
    have hlit : lit "OK " = [79, 75, 32] := by decide
    simp [vsnprintf, replySize, hlit] at hhead
  · rw [handleLine_funcs h] at hhead
    revert hhead
    decide

theorem handleLine_run_ne_bad (hlen : request.length ≤ 4095)
    (h : (requestLine request).take 4 = lit "RUN ") :
    cstr (handleLine info request replySize).reply ≠ badCommand := by
  obtain ⟨r, hr, hrn⟩ := runFunction_answered ((requestLine_length_le request).trans hlen) h
  rw [handleLine_run h, hrn _ (Nat.le_refl _)]
  have hok : ∀ text, cstr (lit "OK " ++ text) ≠ badCommand := by
    intro text he
    have hhead := badCommand_head he
    have hlit : lit "OK " = [79, 75, 32] := by decide
    simp [hlit] at hhead
  have herr : ∀ text ∈ [lit "ERR not a number", lit "ERR no such function"],
      cstr (text ++ [newline]) ≠ badCommand := by decide
  cases hr with
  | done _ _ _ _ =>
      simp only [List.append_assoc]
      exact hok _
  | failed _ _ _ => exact herr _ (by decide)
  | unknown _ _ => exact herr _ (by decide)
  | ping hline => exact absurd hline (ne_lit_of_run h (by decide))
  | info hline => exact absurd hline (ne_lit_of_run h (by decide))
  | funcs hline => exact absurd hline (ne_lit_of_run h (by decide))
  | bad _ _ _ h₄ => exact absurd h h₄

/-- A line that starts like a command has a first piece that is answered otherwise: its first byte,
or the word of the command where the whole line is no command. -/
theorem exists_other_answer (h : StartsCommand line) :
    ∃ first, first ≠ [] ∧ first <+: line ∧ replyTo info [first] ≠ replyTo info [line] := by
  obtain ⟨c, hc, hpre⟩ := h
  have hlen : ∀ c ∈ commands, 2 ≤ c.length ∧ c.length ≤ 5 := by decide
  obtain ⟨hc₂, hc₅⟩ := hlen c hc
  have hline : line ≠ [] := by
    rintro rfl
    rw [List.prefix_nil.mp hpre] at hc₂
    exact absurd hc₂ (by decide)
  -- The one read of the whole line has the command in front, too.
  have hread : c <+: line.take (lineMaxLen - 1) := by
    rw [List.prefix_take_iff]
    exact ⟨hpre, by unfold lineMaxLen; omega⟩
  have hstart := prefix_requestLine_command hc hread
  by_cases hgood : cstr (handleLine info (line.take (lineMaxLen - 1)) replySize).reply = badCommand
  · have hword : c ∈ commands.take 3 := by
      have hfour : ∀ c ∈ commands, c ∈ commands.take 3 ∨ c = lit "RUN " := by decide
      rcases hfour c hc with h₃ | rfl
      · exact h₃
      · have hrun := (List.prefix_iff_eq_take.mp hstart).symm
        refine absurd hgood (handleLine_run_ne_bad ?_ hrun)
        rw [List.length_take]
        unfold lineMaxLen
        omega
    have hne : c ≠ [] := by
      rintro rfl
      exact absurd hc₂ (by decide)
    have htake : c.take (lineMaxLen - 1) = c :=
      List.take_of_length_le (by unfold lineMaxLen; omega)
    have hself : ∀ c ∈ commands.take 3, requestLine c = c := by decide
    refine ⟨c, hne, hpre, ?_⟩
    rw [replyTo_singleton hne, replyTo_singleton hline, hgood, htake]
    intro he
    exact handleLine_fixed_ne_bad ((hself c hword).symm ▸ hword) (Option.some.inj he)
  · obtain ⟨b, rest, rfl⟩ := List.exists_cons_of_ne_nil hline
    have hbyte : ¬ StartsCommand (requestLine ([b].take (lineMaxLen - 1))) := by
      intro h
      obtain ⟨c', hc', hpre'⟩ := h
      have hle := (hpre'.trans (requestLine_front _)).length_le
      have hlow := (hlen c' hc').1
      rw [List.length_take, List.length_singleton] at hle
      omega
    refine ⟨[b], by simp, ⟨rest, rfl⟩, ?_⟩
    rw [replyTo_notCommand (by simp) hbyte, replyTo_singleton hline]
    intro he
    exact hgood (Option.some.inj he).symm

end

/-! ## SIGPIPE -/

section

variable {α : Type*} {s : LogSink α} {x : Answers}

theorem sigpipe_wrote (w : Nat) (errno : Errno) : (WriteAnswer.wrote w errno).sigpipe = false := rfl

theorem sigpipe_eq_false_iff {y : WriteAnswer} : y.sigpipe = false ↔ y ≠ .failed epipe := by
  cases y with
  | wrote w errno => simp [WriteAnswer.sigpipe]
  | failed errno => simp [WriteAnswer.sigpipe]

theorem sendWrites_sigpipe_iff :
    (s.sendWrites x).any WriteAnswer.sigpipe = false ↔
      (s.pend ≠ [] → x.flush ≠ .failed epipe) ∧
      (s.pend = [] ∨ (∃ errno, x.flush = .wrote s.pend.length errno) →
        x.direct ≠ .failed epipe) := by
  unfold LogSink.sendWrites
  by_cases hp : s.pend = []
  · simp [hp, sigpipe_eq_false_iff]
  · have hlen : s.pend.length ≠ 0 := by simpa using hp
    rw [if_pos hlen]
    cases hx : x.flush with
    | failed errno => simp [hp, WriteAnswer.sigpipe]
    | wrote w errno =>
        by_cases hall : w = s.pend.length
        · simp [hp, hall, sigpipe_wrote, sigpipe_eq_false_iff]
        · simp [hp, hall, sigpipe_wrote]

theorem logSinkWrites_sigpipe_iff :
    (logSinkWrites s x).any WriteAnswer.sigpipe = false ↔
      (s.Reaches x → (s.pend ≠ [] → x.flush ≠ .failed epipe) ∧
        (s.pend = [] ∨ (∃ errno, x.flush = .wrote s.pend.length errno) →
          x.direct ≠ .failed epipe)) := by
  rw [← sendWrites_sigpipe_iff]
  unfold logSinkWrites LogSink.Reaches
  cases hhost : s.host with
  | none => simp
  | some host =>
      cases hfd : s.fd with
      | some c => simp
      | none =>
          by_cases hskip : s.skip = 0
          · by_cases hconn : (logSinkConnect s x.connect).1 = true
            · simp [hskip, hconn]
            · simp [hskip, hconn]
          · have hpos : 0 < s.skip := Nat.pos_of_ne_zero hskip
            simp [hskip, hpos]

end

/-! ## The life of the process -/

variable {p p' : Proc} {es : List ServerEvent}

theorem next_alive_iff {e : ServerEvent} (h : p.next e = some p') :
    p.terminated = false ∧ (p'.terminated = false ↔ p.Intact e) := by
  unfold Proc.next at h
  split at h
  · cases h
  · rename_i hlive
    refine ⟨by simpa using hlive, ?_⟩
    cases e with
    | record line x =>
        obtain ⟨r, hr, rfl⟩ := Option.map_eq_some_iff.mp h
        exact logSinkWrites_sigpipe_iff
    | reply bytes y =>
        cases h
        exact sigpipe_eq_false_iff

/-- No step is made behind the end of the process, so one that is alive has made intact steps only. -/
theorem run_alive_iff {p₀ : Proc} (h₀ : p₀.terminated = false) (hr : Run Proc.Step p₀ es p) :
    p.terminated = false ↔ Run Proc.IntactStep p₀ es p := by
  constructor
  · intro hlive
    induction hr with
    | refl => exact .refl
    | snoc hr hst ih =>
        obtain ⟨e, rfl, hnext⟩ := hst
        obtain ⟨hbefore, hiff⟩ := next_alive_iff hnext
        exact (ih hbefore).snoc ⟨e, rfl, hnext, hiff.mp hlive⟩
  · intro hr
    cases hr with
    | refl => exact h₀
    | snoc hr hst =>
        obtain ⟨e, rfl, hnext, hintact⟩ := hst
        exact (next_alive_iff hnext).2.mpr hintact

end Vlog.Runner
