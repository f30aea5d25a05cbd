import Vlog.Runner.Lemmas.Protocol
import Vlog.Runner.Server

/-!
# What a request is answered

The branch that `handleLine` takes, from the line alone, and the text that each built-in function
prints, which no buffer cuts.
-/

namespace Vlog.Runner

open Vlog.Lib Vlog.Libc

variable {info : Nat → Int × List Byte} {request line name payload : List Byte} {rn : Nat}
  {f : List Byte × (List Byte → Nat → Int × List Byte)}

/-- `RUN `, any number of spaces and the name, and behind them nothing, or one space and the payload. -/
def Calls (line name payload : List Byte) : Prop :=
  ∃ pad, (∀ b ∈ pad, b = space) ∧
    (line = lit "RUN " ++ (pad ++ name) ∧ payload = [] ∨
      line = lit "RUN " ++ (pad ++ (name ++ space :: payload)))

/-! ## The branches -/

theorem handleLine_ping (h : requestLine request = lit "PING") :
    handleLine info request rn =
      { reply := (vsnprintf rn (lit "PONG" ++ [newline])).2, logs := [(logDebug, lit "ping")]
        invoked := [] } := by
  rw [requestLine] at h
  simp [handleLine, h]

theorem handleLine_info (h : requestLine request = lit "INFO") :
    (handleLine info request rn).reply = (vsnprintf rn (lit "OK " ++
        (if (info outSize).1 ≠ 0 then (vsnprintf outSize (lit "unavailable")).2
          else (info outSize).2) ++ [newline])).2 ∧
      (handleLine info request rn).logs = [(logDebug, lit "info")] ∧
      (handleLine info request rn).invoked = [] := by
  rw [requestLine] at h
  have hne : lit "INFO" ≠ lit "PING" := by decide
  simp [handleLine, h, hne]

theorem handleLine_funcs (h : requestLine request = lit "FUNCS") :
    handleLine info request rn =
      { reply := (appendText rn (funcs.foldl (fun r f => appendText rn r (lit " " ++ f.1))
          (appendText rn ([], 0) (lit "OK"))) [newline]).1
        logs := [(logDebug, lit "funcs")], invoked := [] } := by
  rw [requestLine] at h
  have hne : lit "FUNCS" ≠ lit "PING" := by decide
  have hne' : lit "FUNCS" ≠ lit "INFO" := by decide
  simp [handleLine, h, hne, hne']

theorem ne_lit_of_run (h : line.take 4 = lit "RUN ") {s : String}
    (hs : (lit s).take 4 ≠ lit "RUN ") : line ≠ lit s := by
  intro he
  exact hs (he ▸ h)

theorem handleLine_run (h : (requestLine request).take 4 = lit "RUN ") :
    handleLine info request rn =
      runFunction (splitRun (requestLine request)).1 (splitRun (requestLine request)).2 rn := by
  have h₁ := ne_lit_of_run h (s := "PING") (by decide)
  have h₂ := ne_lit_of_run h (s := "INFO") (by decide)
  have h₃ := ne_lit_of_run h (s := "FUNCS") (by decide)
  rw [requestLine] at h h₁ h₂ h₃
  simp [handleLine, h, h₁, h₂, h₃, requestLine]

theorem handleLine_bad (h₁ : requestLine request ≠ lit "PING")
    (h₂ : requestLine request ≠ lit "INFO") (h₃ : requestLine request ≠ lit "FUNCS")
    (h₄ : (requestLine request).take 4 ≠ lit "RUN ") :
    handleLine info request rn =
      { reply := (vsnprintf rn (lit "ERR bad command" ++ [newline])).2
        logs := [(logWarn, lit "bad command")], invoked := [] } := by
  rw [requestLine] at h₁ h₂ h₃ h₄
  simp [handleLine, h₁, h₂, h₃, h₄]

/-! ## The built-in functions -/

theorem funcs_name (hf : f ∈ funcs) :
    f.1 ≠ [] ∧ space ∉ f.1 ∧ f.1.length < nameSize - 1 := by
  simp only [funcs, List.mem_cons, List.not_mem_nil, or_false] at hf
  rcases hf with rfl | rfl <;> decide

theorem countWords_le (inWord : Bool) (words : Nat) (p : List Byte) :
    countWords inWord words p ≤ words + p.length := by
  induction p generalizing inWord words with
  | nil => exact Nat.le_refl _
  | cons b p ih =>
      have h₁ := ih false words
      have h₂ := ih true words
      have h₃ := ih true (words + 1)
      rw [countWords, List.length_cons]
      split
      · omega
      split
      · omega
      · omega

theorem fmtD_length_le {k : Int} {d : Nat} (hd : 0 < d) (h : k.natAbs < 10 ^ d) :
    (fmtD k).length ≤ d + 1 := by
  have hdec := (decimal_length_le hd).mpr h
  unfold fmtD
  split
  · rw [List.length_cons]
    omega
  · omega

theorem fmtD_int64_length (v : Int64) : (fmtD v.toInt).length ≤ 20 := by
  apply fmtD_length_le (by decide)
  have h₁ := v.le_toInt
  have h₂ := v.toInt_lt
  omega

/-- A built-in prints a number, or the reason that it reports. -/
theorem funcs_result (hf : f ∈ funcs)
    (hlen : payload.length ≤ 4095) :
    (∃ k, (fmtD k).length ≤ 20 ∧ ∀ n, f.2 payload n = (0, (vsnprintf n (fmtD k)).2)) ∨
      ∀ n, f.2 payload n = (-1, (vsnprintf n (lit "not a number")).2) := by
  simp only [funcs, List.mem_cons, List.not_mem_nil, or_false] at hf
  rcases hf with rfl | rfl
  · refine .inl ⟨countWords false 0 payload, ?_, fun n => rfl⟩
    have hle := countWords_le false 0 payload
    have hfew : (fmtD (countWords false 0 payload)).length ≤ 4 + 1 := by
      apply fmtD_length_le (by decide)
      simp only [Int.natAbs_natCast]
      omega
    omega
  · cases hsum : sumWords 0 payload with
    | none => exact .inr fun n => by simp [fnSum, hsum]
    | some total =>
        exact .inl ⟨total.toInt, fmtD_int64_length total, fun n => by simp [fnSum, hsum]⟩

/-! ## A call of a built-in -/

theorem dropWhile_space_append {pad : List Byte} (hpad : ∀ b ∈ pad, b = space) (rest : List Byte) :
    (pad ++ rest).dropWhile (· == space) = rest.dropWhile (· == space) := by
  apply List.dropWhile_append_of_pos
  intro b hb
  simp [hpad b hb]

theorem dropWhile_space_name (hne : name ≠ []) (hsp : space ∉ name) (rest : List Byte) :
    (name ++ rest).dropWhile (· == space) = name ++ rest := by
  obtain ⟨b, name', rfl⟩ := List.exists_cons_of_ne_nil hne
  have hb : b ≠ space := fun e => hsp (by simp [e])
  simp [hb]

theorem splitRun_of_calls (hne : name ≠ []) (hsp : space ∉ name) (hlen : name.length < nameSize)
    (h : Calls line name payload) :
    line.take 4 = lit "RUN " ∧ splitRun line = (name, payload) := by
  have htake : name.take (nameSize - 1) = name := List.take_of_length_le (by omega)
  obtain ⟨pad, hpad, h⟩ := h
  rcases h with ⟨rfl, rfl⟩ | rfl
  · refine ⟨rfl, ?_⟩
    have hdrop : (lit "RUN " ++ (pad ++ name)).drop 4 = pad ++ name := rfl
    have hname := dropWhile_space_name hne hsp []
    rw [List.append_nil] at hname
    simp only [splitRun, hdrop, dropWhile_space_append hpad, hname, strchr_none hsp, htake]
  · refine ⟨rfl, ?_⟩
    have hdrop : (lit "RUN " ++ (pad ++ (name ++ space :: payload))).drop 4 =
        pad ++ (name ++ space :: payload) := rfl
    simp only [splitRun, hdrop, dropWhile_space_append hpad, dropWhile_space_name hne hsp,
      strchr_append hsp]
    simp [htake]

/-- A name that was not cut off is the whole of the first token. -/
theorem calls_of_splitRun (hlen : name.length < nameSize - 1) (hrun : line.take 4 = lit "RUN ")
    (h : splitRun line = (name, payload)) : Calls line name payload := by
  have hline : line = lit "RUN " ++ ((line.drop 4).takeWhile (· == space) ++
      (line.drop 4).dropWhile (· == space)) := by
    rw [List.takeWhile_append_dropWhile, ← hrun, List.take_append_drop]
  have hpad : ∀ b ∈ (line.drop 4).takeWhile (· == space), b = space := by
    intro b hb
    simpa using List.mem_takeWhile_imp hb
  -- Fewer bytes than the copy has room for: nothing of the token is left out.
  have hwhole : ∀ token : List Byte, token.take (nameSize - 1) = name → token = name := by
    intro token htoken
    rw [← htoken, List.length_take] at hlen
    rw [← htoken, List.take_of_length_le (by omega)]
  refine ⟨_, hpad, ?_⟩
  simp only [splitRun] at h
  rcases strchr_cases ((line.drop 4).dropWhile (· == space)) space with
    ⟨_, hnone⟩ | ⟨p, q, hpq, _, hsome⟩
  · rw [hnone] at h
    cases h
    rw [hwhole _ rfl] at hline
    exact .inl ⟨hline, rfl⟩
  · rw [hsome, hpq] at h
    simp only [List.take_left, Prod.mk.injEq] at h
    obtain ⟨hname, hpayload⟩ := h
    have hq : q = payload := by simpa using hpayload
    rw [hpq, hwhole p hname, hq] at hline
    exact .inr hline

theorem calls_iff (hf : f ∈ funcs) :
    Calls line f.1 payload ↔ line.take 4 = lit "RUN " ∧ splitRun line = (f.1, payload) := by
  obtain ⟨hne, hsp, hlen⟩ := funcs_name hf
  constructor
  · exact splitRun_of_calls hne hsp (by omega)
  · intro h
    exact calls_of_splitRun hlen h.1 h.2

theorem find_func (hf : f ∈ funcs) :
    (funcs.find? fun g => g.1 = f.1) = some f := by
  have hdiff : lit "wordcount" ≠ lit "sum" := by decide
  simp only [funcs, List.mem_cons, List.not_mem_nil, or_false] at hf
  rcases hf with rfl | rfl
  · simp [funcs]
  · simp [funcs, hdiff]

/-! ## The answers -/

/-- What comes of a line, with no word of the sizes of buffers. -/
inductive Answered (line : List Byte) : Handled → Prop
  | ping : line = lit "PING" → Answered line
      { reply := lit "PONG" ++ [newline], logs := [(logDebug, lit "ping")], invoked := [] }
  | info : line = lit "INFO" → Answered line
      { reply := lit "OK platform=posix" ++ [newline], logs := [(logDebug, lit "info")]
        invoked := [] }
  | funcs : line = lit "FUNCS" → Answered line
      { reply := lit "OK wordcount sum" ++ [newline], logs := [(logDebug, lit "funcs")]
        invoked := [] }
  | done {g arg k} : g ∈ Runner.funcs → Calls line g.1 arg → (fmtD k).length ≤ 20 →
      g.2 arg outSize = (0, fmtD k) → Answered line
      { reply := lit "OK " ++ fmtD k ++ [newline]
        logs := [(logInfo, lit "invoke " ++ g.1), (logInfo, g.1 ++ lit " -> " ++ fmtD k)]
        invoked := [g.1] }
  | failed {g arg} : g ∈ Runner.funcs → Calls line g.1 arg →
      g.2 arg outSize = (-1, lit "not a number") → Answered line
      { reply := lit "ERR not a number" ++ [newline]
        logs := [(logInfo, lit "invoke " ++ g.1),
          (logError, g.1 ++ lit " failed: " ++ lit "not a number")]
        invoked := [] }
  | unknown {n} : line.take 4 = lit "RUN " →
      (∀ g ∈ Runner.funcs, ∀ arg, ¬ Calls line g.1 arg) → Answered line
      { reply := lit "ERR no such function" ++ [newline]
        logs := [(logWarn, lit "no such function: " ++ n)], invoked := [] }
  | bad : line ≠ lit "PING" → line ≠ lit "INFO" → line ≠ lit "FUNCS" →
      line.take 4 ≠ lit "RUN " → Answered line
      { reply := lit "ERR bad command" ++ [newline], logs := [(logWarn, lit "bad command")]
        invoked := [] }

theorem vsnprintf_fits {n : Nat} {text : List Byte} (h : text.length < n) :
    (vsnprintf n text).2 = text := List.take_of_length_le (by omega)

theorem requestLine_length_le (request : List Byte) :
    (requestLine request).length ≤ request.length :=
  ((List.rdropWhile_prefix _ _).trans (cstr_prefix_buf request)).length_le

theorem calls_length {line name payload : List Byte} (h : Calls line name payload) :
    payload.length ≤ line.length := by
  obtain ⟨pad, _, ⟨rfl, rfl⟩ | rfl⟩ := h
  · exact Nat.zero_le _
  · simp only [List.length_append, List.length_cons]
    omega

theorem runFunction_answered {line : List Byte} (hlen : line.length ≤ 4095)
    (hrun : line.take 4 = lit "RUN ") :
    ∃ h, Answered line h ∧ ∀ rn, replySize ≤ rn →
      runFunction (splitRun line).1 (splitRun line).2 rn = h := by
  cases hfind : funcs.find? fun f => f.1 = (splitRun line).1 with
  | some f =>
      have hf : f ∈ funcs := List.mem_of_find?_eq_some hfind
      have hname : f.1 = (splitRun line).1 := by simpa using List.find?_some hfind
      have hcalls : Calls line f.1 (splitRun line).2 := (calls_iff hf).mpr ⟨hrun, by rw [hname]⟩
      have hpayload := (calls_length hcalls).trans hlen
      rcases funcs_result hf hpayload with ⟨k, hk, hout⟩ | hout
      · have hout' : f.2 (splitRun line).2 outSize = (0, fmtD k) := by
          rw [hout, vsnprintf_fits (by unfold outSize; omega)]
        refine ⟨_, .done hf hcalls hk hout', ?_⟩
        intro rn hrn
        have hfit : (lit "OK " ++ fmtD k ++ [newline]).length < rn := by
          have h₀ : (lit "OK ").length = 3 := by decide
          simp only [List.length_append, List.length_singleton]
          unfold replySize at hrn
          omega
        simp only [runFunction, ← hname, find_func hf, hout', ne_eq, not_true_eq_false, ↓reduceIte,
          vsnprintf_fits hfit]
      · have hout' : f.2 (splitRun line).2 outSize = (-1, lit "not a number") := by
          rw [hout, vsnprintf_fits (by decide)]
        refine ⟨_, .failed hf hcalls hout', ?_⟩
        intro rn hrn
        have hfit : (lit "ERR " ++ lit "not a number" ++ [newline]).length < rn :=
          Nat.lt_of_lt_of_le (by decide) hrn
        have htext : lit "ERR " ++ lit "not a number" ++ [newline] =
            lit "ERR not a number" ++ [newline] := by decide
        simp only [runFunction, ← hname, find_func hf, hout']
        rw [if_pos (by decide), vsnprintf_fits hfit, htext]
  | none =>
      refine ⟨_, .unknown (n := (splitRun line).1) hrun ?_, ?_⟩
      · intro f hf payload hcalls
        have hname := congrArg Prod.fst ((calls_iff hf).mp hcalls).2
        have hno := List.find?_eq_none.mp hfind f hf
        exact hno (decide_eq_true hname.symm)
      · intro rn hrn
        rw [runFunction, hfind, vsnprintf_fits (Nat.lt_of_lt_of_le (by decide) hrn)]

theorem appendText_fits {n : Nat} {text more : List Byte} (h : (text ++ more).length < n) :
    appendText n (text, text.length) more = (text ++ more, (text ++ more).length) := by
  rw [List.length_append] at h
  rw [appendText, if_pos (by omega), vsnprintf_fits (by omega), List.length_append]

theorem handleLine_answered (hlen : request.length ≤ 4095) :
    ∃ h, Answered (requestLine request) h ∧ ∀ rn, replySize ≤ rn →
      handleLine runnerPlatformInfo request rn = h := by
  have hline := (requestLine_length_le request).trans hlen
  by_cases h₁ : requestLine request = lit "PING"
  · refine ⟨_, .ping h₁, ?_⟩
    intro rn hrn
    rw [handleLine_ping h₁, vsnprintf_fits (Nat.lt_of_lt_of_le (by decide) hrn)]
  by_cases h₂ : requestLine request = lit "INFO"
  · refine ⟨_, .info h₂, ?_⟩
    intro rn hrn
    obtain ⟨hreply, hlogs, hinvoked⟩ := @handleLine_info runnerPlatformInfo request rn h₂
    have hinfo : runnerPlatformInfo outSize = (0, lit "platform=posix") := by decide
    have htext : lit "OK " ++ lit "platform=posix" ++ [newline] =
        lit "OK platform=posix" ++ [newline] := by decide
    rw [hinfo, if_neg (by decide), htext,
      vsnprintf_fits (Nat.lt_of_lt_of_le (by decide) hrn)] at hreply
    rw [← hreply, ← hlogs, ← hinvoked]
  by_cases h₃ : requestLine request = lit "FUNCS"
  · refine ⟨_, .funcs h₃, ?_⟩
    intro rn hrn
    have hfits : ∀ text more : List Byte, (text ++ more).length < replySize →
        appendText rn (text, text.length) more = (text ++ more, (text ++ more).length) := by
      intro text more hlt
      exact appendText_fits (Nat.lt_of_lt_of_le hlt hrn)
    have hok : appendText rn ([], 0) (lit "OK") = ([] ++ lit "OK", ([] ++ lit "OK").length) :=
      hfits [] _ (by decide)
    rw [handleLine_funcs h₃, hok, funcs, List.foldl_cons, List.foldl_cons, List.foldl_nil, hfits _ _ (by decide),
      hfits _ _ (by decide), hfits _ _ (by decide)]
    rfl
  by_cases h₄ : (requestLine request).take 4 = lit "RUN "
  · obtain ⟨h, hanswered, hrn⟩ := runFunction_answered hline h₄
    refine ⟨h, hanswered, ?_⟩
    intro rn hle
    rw [handleLine_run h₄, hrn rn hle]
  · refine ⟨_, .bad h₁ h₂ h₃ h₄, ?_⟩
    intro rn hrn
    rw [handleLine_bad h₁ h₂ h₃ h₄, vsnprintf_fits (Nat.lt_of_lt_of_le (by decide) hrn)]

/-! ## The answers tell the lines apart -/

/-- The lines that always get the same answer, with that answer. -/
def fixedAnswers : List (List Byte × List Byte) :=
  [(lit "PING", lit "PONG"), (lit "INFO", lit "OK platform=posix"),
    (lit "FUNCS", lit "OK wordcount sum")]

theorem ok_fmtD_ne_fixed {p : List Byte × List Byte} (hp : p ∈ fixedAnswers) (k : Int) :
    lit "OK " ++ fmtD k ≠ p.2 := by
  have hletter : ∃ b ∈ p.2.drop 3, isDigit b = false ∧ b ≠ minus := by
    revert p
    decide
  obtain ⟨b, hb, hd, hm⟩ := hletter
  intro he
  rw [← he] at hb
  exact not_mem_fmtD hd hm hb

theorem Answered.fixed_iff {line : List Byte} {h : Handled} (ha : Answered line h)
    {p : List Byte × List Byte} (hp : p ∈ fixedAnswers) :
    h.reply = p.2 ++ [newline] ↔ line = p.1 := by
  have hsame : ∀ q ∈ fixedAnswers, q.2 ++ [newline] = p.2 ++ [newline] ↔ q.1 = p.1 := by
    revert p
    decide
  have herr : ∀ text ∈ [lit "ERR not a number", lit "ERR no such function", lit "ERR bad command"],
      text ++ [newline] ≠ p.2 ++ [newline] := by
    revert p
    decide
  have htake : p.1.take 4 ≠ lit "RUN " := by
    revert p
    decide
  have hrun : line.take 4 = lit "RUN " → line ≠ p.1 := by
    intro h₄ he
    exact htake (he ▸ h₄)
  cases ha with
  | ping hline =>
      rw [hline]
      exact hsame (lit "PING", lit "PONG") (by decide)
  | info hline =>
      rw [hline]
      exact hsame (lit "INFO", lit "OK platform=posix") (by decide)
  | funcs hline =>
      rw [hline]
      exact hsame (lit "FUNCS", lit "OK wordcount sum") (by decide)
  | done hg hcalls _ _ =>
      have hne := hrun ((calls_iff hg).mp hcalls).1
      refine iff_of_false ?_ hne
      intro he
      exact ok_fmtD_ne_fixed hp _ (List.append_cancel_right he)
  | failed hg hcalls _ =>
      have hne := hrun ((calls_iff hg).mp hcalls).1
      exact iff_of_false (herr _ (by decide)) hne
  | unknown htake _ => exact iff_of_false (herr _ (by decide)) (hrun htake)
  | bad h₁ h₂ h₃ _ =>
      refine iff_of_false (herr _ (by decide)) ?_
      intro he
      simp only [fixedAnswers, List.mem_cons, List.not_mem_nil, or_false] at hp
      rcases hp with rfl | rfl | rfl
      · exact h₁ he
      · exact h₂ he
      · exact h₃ he

/-- The reply is one line and fits the buffer. -/
theorem Answered.oneLine {line : List Byte} {h : Handled} (ha : Answered line h) :
    (∃ body, h.reply = body ++ [newline] ∧ newline ∉ body) ∧ h.reply.length < replySize := by
  have hfixed : ∀ text ∈ [lit "PONG", lit "OK platform=posix", lit "OK wordcount sum",
      lit "ERR not a number", lit "ERR no such function", lit "ERR bad command"],
      (∃ body, text ++ [newline] = body ++ [newline] ∧ newline ∉ body) ∧
        (text ++ [newline]).length < replySize := by
    intro text htext
    have hclean : newline ∉ text ∧ (text ++ [newline]).length < replySize := by
      revert text
      decide
    exact ⟨⟨text, rfl, hclean.1⟩, hclean.2⟩
  cases ha with
  | done _ _ hk _ =>
      have hplain : Plain (lit "OK ") := by decide
      refine ⟨⟨_, rfl, (hplain.append (plain_fmtD _)).2⟩, ?_⟩
      have h₀ : (lit "OK ").length = 3 := by decide
      simp only [List.length_append, List.length_singleton]
      unfold replySize
      omega
  | ping _ => exact hfixed _ (by decide)
  | info _ => exact hfixed _ (by decide)
  | funcs _ => exact hfixed _ (by decide)
  | failed _ _ _ => exact hfixed _ (by decide)
  | unknown _ _ => exact hfixed _ (by decide)
  | bad _ _ _ _ => exact hfixed _ (by decide)

theorem calls_unique {f g : List Byte × (List Byte → Nat → Int × List Byte)} {line arg arg' : List Byte}
    (hf : f ∈ funcs) (hg : g ∈ funcs) (h : Calls line f.1 arg) (h' : Calls line g.1 arg') :
    f = g ∧ arg = arg' := by
  have hsplit := ((calls_iff hf).mp h).2.symm.trans ((calls_iff hg).mp h').2
  simp only [Prod.mk.injEq] at hsplit
  obtain ⟨hname, harg⟩ := hsplit
  have hfind := find_func hf
  rw [hname, find_func hg] at hfind
  exact ⟨(Option.some.inj hfind).symm, harg⟩

/-- The reply of a call is the result of the built-in. It is counted exactly if it is OK. -/
theorem Answered.calls {line : List Byte} {h : Handled} (ha : Answered line h)
    (hf : f ∈ Runner.funcs) (hcalls : Calls line f.1 payload) :
    h.reply = (if (f.2 payload outSize).1 = 0 then lit "OK " else lit "ERR ") ++
        (f.2 payload outSize).2 ++ [newline] ∧
      h.invoked = if (f.2 payload outSize).1 = 0 then [f.1] else [] := by
  have hrun := ((calls_iff hf).mp hcalls).1
  cases ha with
  | ping hline => exact absurd hline (ne_lit_of_run hrun (by decide))
  | info hline => exact absurd hline (ne_lit_of_run hrun (by decide))
  | funcs hline => exact absurd hline (ne_lit_of_run hrun (by decide))
  | done hg hcalls' _ hout =>
      obtain ⟨rfl, rfl⟩ := calls_unique hf hg hcalls hcalls'
      simp [hout]
  | failed hg hcalls' hout =>
      obtain ⟨rfl, rfl⟩ := calls_unique hf hg hcalls hcalls'
      have htext : lit "ERR not a number" = lit "ERR " ++ lit "not a number" := by decide
      have hne : ¬ (-1 : Int) = 0 := by decide
      rw [hout, if_neg hne, if_neg hne, htext]
      exact ⟨rfl, rfl⟩
  | unknown _ hno => exact absurd hcalls (hno f hf payload)
  | bad _ _ _ h₄ => exact absurd hrun h₄

theorem Answered.others {line : List Byte} {h : Handled} (ha : Answered line h)
    (hfixed : ∀ p ∈ fixedAnswers, line ≠ p.1)
    (hno : ∀ f ∈ Runner.funcs, ∀ payload, ¬ Calls line f.1 payload) :
    lit "ERR " <+: h.reply ∧ h.invoked = [] ∧ ∃ text, h.logs = [(logWarn, text)] := by
  cases ha with
  | ping hline => exact absurd hline (hfixed (lit "PING", lit "PONG") (by decide))
  | info hline => exact absurd hline (hfixed (lit "INFO", lit "OK platform=posix") (by decide))
  | funcs hline => exact absurd hline (hfixed (lit "FUNCS", lit "OK wordcount sum") (by decide))
  | done hg hcalls _ _ => exact absurd hcalls (hno _ hg _)
  | failed hg hcalls _ => exact absurd hcalls (hno _ hg _)
  | unknown _ _ =>
      have hpre : lit "ERR " <+: lit "ERR no such function" ++ [newline] := by decide
      exact ⟨hpre, rfl, _, rfl⟩
  | bad _ _ _ _ =>
      have hpre : lit "ERR " <+: lit "ERR bad command" ++ [newline] := by decide
      exact ⟨hpre, rfl, _, rfl⟩

/-- The buffer of a result cuts nothing off. -/
theorem funcs_outSize (hf : f ∈ funcs) (hlen : payload.length ≤ 4095) {n : Nat} (hn : outSize ≤ n) :
    f.2 payload n = f.2 payload outSize := by
  unfold outSize at *
  rcases funcs_result hf hlen with ⟨k, hk, hout⟩ | hout
  · rw [hout, hout, vsnprintf_fits (by omega), vsnprintf_fits (by omega)]
  · rw [hout, hout, vsnprintf_fits (Nat.lt_of_lt_of_le (by decide) hn), vsnprintf_fits (by decide)]

end Vlog.Runner
