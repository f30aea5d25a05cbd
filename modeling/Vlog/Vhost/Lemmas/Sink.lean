import Vlog.Emulator.Lemmas.Feed
import Vlog.Vhost.Sink

/-!
# Two readers of one format

The sink of the virtio backend takes one digit for the level and everything behind the space for the
message, less the carriage returns at the end. The network collector takes a numeral up to the first
space, and a message that a NUL ends.
-/

namespace Vlog.Vhost

open Vlog.Lib Vlog.Libc Vlog.Emulator

variable {line : List Byte}

/-- A one-digit level, a space, and a message without NUL; no carriage return at the end. -/
def LevelFirst (line : List Byte) : Prop :=
  ∃ d rest, line = d :: space :: rest ∧ isDigit d = true ∧ nul ∉ rest ∧
    ∀ front, line ≠ front ++ [cr]

theorem splitLevel_digit {d : Byte} (hd : isDigit d = true) (rest : List Byte) :
    splitLevel (d :: space :: rest) = (UInt32.ofNat (d.toNat - 48), rest) := by
  simp [splitLevel, hd]

theorem splitLevel_cases (p : List Byte) :
    (∃ d rest, p = d :: space :: rest ∧ isDigit d = true) ∨ (splitLevel p).2 = p := by
  unfold splitLevel
  split
  · rename_i d s rest
    split
    · rename_i h
      obtain ⟨hd, rfl⟩ := h
      exact .inl ⟨d, rest, rfl, hd⟩
    · exact .inr rfl
  · exact .inr rfl

theorem digit_ne {d b : Byte} (hd : isDigit d = true) (hb : isDigit b = false) : d ≠ b := by
  intro he
  rw [he, hb] at hd
  cases hd

theorem strtoul_digit {d : Byte} (hd : isDigit d = true) :
    (strtoul [d]).toUInt32 = UInt32.ofNat (d.toNat - 48) := by
  have hdigits : ∀ b ∈ [d], isDigit b = true := by simpa using hd
  have hval : digitsValue [d] = d.toNat - 48 := by simp [digitsValue]
  have hle := d.toNat_lt
  rw [strtoul, scanNumeral_digits (by simp) hdigits]
  simp only [hval]
  rw [if_neg (by unfold ulongMax; omega), if_neg (by simp)]
  exact UInt64.toUInt32_ofNat' ..

theorem parseLine_digit {d : Byte} (hd : isDigit d = true) (rest : List Byte) :
    parseLine (d :: space :: rest) = (UInt32.ofNat (d.toNat - 48), cstr rest) := by
  have hnul : nul ∉ [d] := by simpa using (digit_ne hd (by decide)).symm
  have hsp : space ∉ [d] := by simpa using (digit_ne hd (by decide)).symm
  rw [← strtoul_digit hd]
  exact parseLine_space hnul hsp rest

/-- A message that the collector finds in a line is not the whole line without its end. -/
theorem parseLine_ne_stripped {p tail : List Byte} (hne : p ≠ []) (htail : ∀ b ∈ tail, b = cr)
    (hlast : ∀ front b, p = front ++ [b] → b ≠ cr) : (parseLine (p ++ tail)).2 ≠ p := by
  intro he
  rcases strchr_cases (cstr (p ++ tail)) space with ⟨_, hnone⟩ | ⟨q, msg, hq, _, hsome⟩
  · rw [parseLine, hnone] at he
    exact hne he.symm
  · have hmsg : msg = p := by
      rw [parseLine, hsome, hq] at he
      simpa using he
    subst hmsg
    have hnul : nul ∉ msg ++ tail := by
      have hm : nul ∉ msg := fun h => nul_not_mem_cstr (msg ++ tail) (by simp [hq, h])
      have ht : nul ∉ tail := fun h => absurd (htail _ h) (by decide)
      simp [hm, ht]
    rw [cstr_of_not_mem hnul] at hq
    -- The line ends with a carriage return, and so does what is behind the space.
    have htne : tail ≠ [] := by
      rintro rfl
      have hlen := congrArg List.length hq
      simp only [List.length_append, List.length_cons, List.length_nil] at hlen
      omega
    obtain ⟨tail', b, rfl⟩ := List.eq_nil_or_concat' tail |>.resolve_left htne
    obtain ⟨msg', b', rfl⟩ := List.eq_nil_or_concat' msg |>.resolve_left hne
    have hb : b = b' := by
      have h : (msg' ++ [b'] ++ tail') ++ [b] = (q ++ space :: msg') ++ [b'] := by
        rw [List.append_assoc, hq, List.append_assoc, List.cons_append]
      exact List.singleton_inj.mp (List.append_inj' h rfl).2
    exact hlast msg' b' rfl (hb ▸ htail b (by simp))

theorem stripEnd_line (hnl : newline ∉ line) (hcr : ∃ b ∈ line, b ≠ cr) :
    ∃ tail, line = stripEnd line ++ tail ∧ stripEnd line ≠ [] ∧ (∀ b ∈ tail, b = cr) ∧
      ∀ front b, stripEnd line = front ++ [b] → b ≠ cr := by
  obtain ⟨tail, hline, htail, hlast⟩ := stripEnd_spec line
  have hcrs : ∀ b ∈ tail, b = cr := by
    intro b hb
    rcases htail b hb with rfl | hb'
    · exact absurd (hline ▸ List.mem_append_right _ hb) hnl
    · exact hb'
  refine ⟨tail, hline, ?_, hcrs, fun front b h => (hlast front b h).2⟩
  intro hnil
  obtain ⟨b, hb, hne⟩ := hcr
  rw [hline, hnil, List.nil_append] at hb
  exact hne (hcrs b hb)

/-- The two readers find the same level name and message exactly in a line of the common format. -/
theorem readers_agree_iff (hnl : newline ∉ line) (hcr : ∃ b ∈ line, b ≠ cr) :
    levelName (splitLevel (stripEnd line)).1 = levelName (parseLine line).1 ∧
      (splitLevel (stripEnd line)).2 = (parseLine line).2 ↔ LevelFirst line := by
  obtain ⟨tail, hline, hne, htail, hlast⟩ := stripEnd_line hnl hcr
  generalize stripEnd line = p at *
  subst hline
  have hfirst : LevelFirst (p ++ tail) → tail = [] := by
    rintro ⟨_, _, _, _, _, hend⟩
    by_contra htne
    obtain ⟨tail', b, rfl⟩ := List.eq_nil_or_concat' tail |>.resolve_left htne
    obtain rfl := htail b (by simp)
    exact hend (p ++ tail') (by simp)
  rcases splitLevel_cases p with ⟨d, rest, rfl, hd⟩ | hwhole
  · rw [splitLevel_digit hd, List.cons_append, List.cons_append, parseLine_digit hd]
    constructor
    · rintro ⟨_, he⟩
      replace he : rest = cstr (rest ++ tail) := he
      have hr : nul ∉ rest := fun h => nul_not_mem_cstr (rest ++ tail) (he ▸ h)
      have ht : nul ∉ tail := fun h => absurd (htail _ h) (by decide)
      rw [cstr_of_not_mem (by simp [hr, ht])] at he
      obtain rfl : tail = [] := List.self_eq_append_right.mp he
      refine ⟨d, rest, by simp, hd, hr, fun front h => ?_⟩
      exact hlast front cr (by simpa using h) rfl
    · intro h
      obtain rfl := hfirst h
      obtain ⟨_, rest', heq, _, hr, _⟩ := h
      simp only [List.append_nil, List.cons.injEq, true_and] at heq
      obtain ⟨rfl, rfl⟩ := heq
      simp [cstr_of_not_mem hr]
  · constructor
    · rintro ⟨_, he⟩
      rw [hwhole] at he
      exact absurd he.symm (parseLine_ne_stripped hne htail hlast)
    · intro h
      obtain rfl := hfirst h
      obtain ⟨d, rest, heq, hd, _⟩ := h
      rw [List.append_nil] at heq
      rw [heq, splitLevel_digit hd] at hwhole
      have hlen := congrArg List.length hwhole
      simp only [List.length_cons] at hlen
      omega

/-! ## The file of a sequence of chains -/

theorem stripEnd_eq_nil_iff {bytes : List Byte} : stripEnd bytes = [] ↔ ¬ Kept bytes := by
  obtain ⟨tail, hbytes, htail, hlast⟩ := stripEnd_spec bytes
  constructor
  · intro hnil hkept
    obtain ⟨b, hb, hne, hne'⟩ := hkept
    rw [hbytes, hnil, List.nil_append] at hb
    rcases htail b hb with h | h
    · exact hne h
    · exact hne' h
  · intro hkept
    by_contra hne
    obtain ⟨front, b, hfront⟩ := List.eq_nil_or_concat' _ |>.resolve_left hne
    apply hkept
    refine ⟨b, ?_, hlast front b hfront⟩
    rw [hbytes, hfront]
    simp

theorem newline_mem_splitLevel (p : List Byte) : newline ∈ (splitLevel p).2 ↔ newline ∈ p := by
  rcases splitLevel_cases p with ⟨d, rest, rfl, hd⟩ | hwhole
  · have hnl : newline ≠ d := (digit_ne hd (by decide)).symm
    have hsp : newline ≠ space := by decide
    rw [splitLevel_digit hd]
    simp [hnl, hsp]
  · rw [hwhole]

/-- The record of a chain that comes after `i` others. -/
def chainRecord (i : Nat) (bytes : List Byte) : Record :=
  { seq := UInt32.ofNat i, level := (splitLevel (stripEnd bytes)).1
    bytes := (splitLevel (stripEnd bytes)).2 }

def chainRecords (chains : List (List Byte)) : List Record :=
  (chains.filter Kept).mapIdx chainRecord

theorem map_entry_chainRecords (chains : List (List Byte)) :
    (chainRecords chains).map Record.entry = chainEntries chains := by
  simp [chainRecords, chainEntries, List.mapIdx_eq_zipIdx_map, chainRecord, Record.entry]

theorem length_chainRecords (chains : List (List Byte)) :
    (chainRecords chains).length = (chains.filter Kept).length := List.length_mapIdx

theorem vlogSinkEmit_dropped {sink : VlogSink} {bytes : List Byte} (h : ¬ Kept bytes) :
    (vlogSinkEmit sink bytes).1 = sink := by
  simp [vlogSinkEmit, stripEnd_eq_nil_iff.mpr h]

theorem vlogSinkEmit_kept {sink : VlogSink} {bytes : List Byte} {i : Nat} (h : Kept bytes)
    (hseq : sink.seq = UInt32.ofNat i) :
    (vlogSinkEmit sink bytes).1 =
      { store := logstoreAppend sink.store (chainRecord i bytes), seq := UInt32.ofNat (i + 1) } := by
  have hne : stripEnd bytes ≠ [] := fun hnil => stripEnd_eq_nil_iff.mp hnil h
  simp [vlogSinkEmit, hne, hseq, chainRecord]

/-- By induction on the chains from their end: the file has the records of those before, and the
next number is their count. -/
theorem vlogSinkEmits_eq (chains : List (List Byte)) :
    (vlogSinkEmits chains).store.file = (chainRecords chains).flatMap Record.text ∧
      (vlogSinkEmits chains).seq = UInt32.ofNat (chains.filter Kept).length := by
  induction chains using List.reverseRecOn with
  | nil => exact ⟨rfl, rfl⟩
  | append_singleton chains bytes ih =>
      obtain ⟨hfile, hseq⟩ := ih
      have hstep : vlogSinkEmits (chains ++ [bytes]) =
          (vlogSinkEmit (vlogSinkEmits chains) bytes).1 := by
        rw [vlogSinkEmits, List.foldl_append]
        rfl
      rw [hstep]
      by_cases h : Kept bytes
      · rw [vlogSinkEmit_kept h hseq]
        simp [chainRecords, h, List.mapIdx_append, hfile]
      · rw [vlogSinkEmit_dropped h]
        simpa [chainRecords, h] using ⟨hfile, hseq⟩

theorem newline_not_mem_chainRecords (chains : List (List Byte)) :
    (∀ r ∈ chainRecords chains, newline ∉ r.bytes) ↔ ∀ c ∈ chains, newline ∉ stripEnd c := by
  constructor
  · intro h c hc hnl
    have hkept : Kept c := by
      by_contra hdrop
      rw [stripEnd_eq_nil_iff.mpr hdrop] at hnl
      cases hnl
    obtain ⟨i, hi, hget⟩ := List.mem_iff_getElem.mp
      (List.mem_filter.mpr ⟨hc, decide_eq_true hkept⟩ : c ∈ chains.filter Kept)
    apply h (chainRecord i c)
    · refine List.mem_mapIdx.mpr ⟨i, hi, ?_⟩
      rw [hget]
    · exact (newline_mem_splitLevel _).mpr hnl
  · intro h r hr hnl
    obtain ⟨i, hi, rfl⟩ := List.mem_mapIdx.mp hr
    have hmem := List.mem_of_mem_filter (List.getElem_mem hi)
    exact h _ hmem ((newline_mem_splitLevel _).mp hnl)

end Vlog.Vhost
