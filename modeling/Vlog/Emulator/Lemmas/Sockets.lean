import Vlog.Emulator.Sockets
import Vlog.Emulator.Lemmas.Listener

/-!
# What is lost when a connection is closed

Nothing that arrived is lost before it is read, and everything read has been fed when its connection
is closed. What a close loses is what it leaves in the receive queue.
-/

namespace Vlog.Emulator

open Vlog.Lib Vlog.Libc

/-! ## Records and lines -/

def Parsed (es : List Event) : Prop :=
  ∀ k l r, .line k l r ∈ es → (r.level, r.bytes) = parseLine l

theorem Parsed.processLines (nl : Netlog) (k : Nat) (ls : List (List Byte)) :
    Parsed (processLines nl k ls).2 := by
  induction ls generalizing nl with
  | nil =>
      intro k' l r h
      simp [Emulator.processLines] at h
  | cons l₀ ls ih =>
      intro k' l r h
      rcases List.mem_cons.mp h with h | h
      · cases h
        rfl
      · exact ih _ k' l r h

theorem Parsed.append {es fs : List Event} (h : Parsed es) (h' : Parsed fs) : Parsed (es ++ fs) := by
  intro k l r hm
  rcases List.mem_append.mp hm with hm | hm
  · exact h k l r hm
  · exact h' k l r hm

theorem Collector.Step.parsed {h h' : Collector} {es : List Event} (hst : Collector.Step h es h') :
    Parsed es := by
  cases hst with
  | byte _ _ =>
      rw [feedByte_push]
      exact Parsed.processLines _ _ _
  | stay | accept | read | fed | close | leave =>
      intro k l r hm
      simp at hm

theorem Collector.run_parsed {store : Logstore} {es : List Event} {h : Collector}
    (hr : Run Collector.Step (Collector.start store) es h) : Parsed es := by
  refine hr.invariant (I := fun es _ => Parsed es) ?_ fun _ _ _ _ _ hp hst => hp.append hst.parsed
  intro k l r hm
  cases hm

theorem recordsOf_lines {es : List Event} (h : Parsed es) (k : Nat) :
    ((recordsOf k es).map fun r => (r.level, r.bytes)) = (linesOf k es).map parseLine := by
  induction es with
  | nil => rfl
  | cons e es ih =>
      have htail := ih fun k' l r hm => h k' l r (List.mem_cons_of_mem _ hm)
      rw [← List.singleton_append, recordsOf_append, linesOf_append, List.map_append,
        List.map_append, htail]
      congr 1
      cases e with
      | line k' l r =>
          have hr := h k' l r List.mem_cons_self
          by_cases hk : k' = k <;> simp [recordsOf, linesOf, hk, hr]
      | read | close => rfl

/-! ## The queues -/

variable {lfd : Int} {store : Logstore} {conns : Nat → Conn} {pfds : Nat → Pollfd}
  {l₀ : Listener} {es fs gs : List Event} {w w₁ w₂ w' : World} {k : Nat}

theorem World.listener_run (hr : Run World.Step (World.start l₀) es w) :
    Run Emulator.Step l₀ es w.l := by
  induction hr with
  | refl => exact .refl
  | snoc _ hst ih =>
      cases hst with
      | arrive _ _ | hangup _ => simpa using ih
      | read hst _ => exact .snoc ih hst
      | listen hst _ => exact .snoc ih hst

theorem World.conserved (hr : Run World.Step (World.start l₀) es w) (k : Nat) :
    w.sent k = bytesOf k es ++ w.rx k := by
  refine hr.invariant (I := fun es w => w.sent k = bytesOf k es ++ w.rx k) rfl ?_
  intro es w fs w' _ hi hst
  cases hst with
  | @arrive j bytes _ =>
      by_cases hj : k = j
      · subst hj
        simp [hi]
      · simp [hi, Function.update_of_ne hj]
  | hangup j => simpa using hi
  | @read l j bytes rest _ hrx =>
      by_cases hj : k = j
      · subst hj
        simp [hi, hrx]
      · simp [hi, Function.update_of_ne hj, Ne.symm hj]
  | listen _ hno => simp [hi, hno]

/-! ## The close -/

theorem close_not_mem_processLines (nl : Netlog) (j : Nat) (ls : List (List Byte)) :
    .close k ∉ (processLines nl j ls).2 := by
  induction ls generalizing nl with
  | nil => simp [processLines]
  | cons l ls ih => simpa [processLines] using ih _

/-- A connection is closed once everything read from it has been fed. -/
theorem Move.close_unfed {s t : Listener} (hm : Move s es t) (hk : .close k ∈ es) (j : Nat) :
    unfedOf j s.abs.unfed = [] := by
  cases hm with
  | stop h | pollBreak h | pollAgain h | pollStop _ h | polled _ h | store _ h | noStore h
  | readFails _ _ h | noRead _ _ h | wrap _ _ h => simp [Listener.abs, h, unfedOf]
  | read => simp at hk
  | fed _ _ _ h => simp [Listener.abs, h, unfedOf]
  | byte =>
      rw [feedByte_push] at hk
      exact absurd hk (close_not_mem_processLines _ _ _)

theorem noLoss_iff (hr : Run World.Step (World.start (listenerStart lfd store conns pfds)) es w)
    (hst : World.Step w fs w') (hk : .close k ∈ fs) :
    NoLoss k es (w.sent k) ↔ newline ∉ w.rx k := by
  have hrun := listener_refines (World.listener_run hr)
  obtain ⟨fed, hbytes, hlines⟩ := Collector.run_framing hrun k
  have hunfed : unfedOf k w.l.abs.unfed = [] := by
    cases hst with
    | arrive | hangup | read => simp at hk
    | listen hst _ => exact hst.move.close_unfed hk k
  rw [hunfed, List.append_nil] at hbytes
  have hsent := World.conserved hr k
  rw [hbytes] at hsent
  unfold NoLoss
  rw [recordsOf_lines (Collector.run_parsed hrun), hlines, hsent]
  constructor
  · intro hpre hnl
    have hlen := hpre.length_le
    have hlt := completed_length_lt (m := lineBound) (by decide) hnl fed
    simp only [List.length_map] at hlen
    omega
  · intro hnl
    rw [completed_append_tail hnl]
    exact (completed_prefix_framing newline lineBound fed).map _

/-! ## The turn of one connection -/

theorem read_not_mem_processLines (nl : Netlog) (j : Nat) (ls : List (List Byte))
    (bytes : List Byte) : .read k bytes ∉ (processLines nl j ls).2 := by
  induction ls generalizing nl with
  | nil => simp [processLines]
  | cons l ls ih => simpa [processLines] using ih _

theorem Move.of_read {s t : Listener} {bytes : List Byte} (hm : Move s es t)
    (h : .read k bytes ∈ es) :
    ∃ i keep, s.pc = .service i keep ∧ (s.conns i).serial = k ∧
      t.pc = .feeding i keep (s.pfds (i + 1)).revents bytes ∧ t.conns = s.conns ∧ bytes ≠ [] := by
  cases hm with
  | stop | pollBreak | pollStop => simp [Listener.finish] at h
  | pollAgain | polled | store | noStore | wrap => cases h
  | readFails => simp [Listener.settle] at h
  | noRead | fed =>
      unfold Listener.settle at h
      split at h <;> simp at h
  | read i keep bytes' hpc _ _ hlen =>
      cases List.mem_singleton.mp h
      exact ⟨i, keep, hpc, rfl, rfl, rfl, List.ne_nil_of_length_pos hlen⟩
  | byte =>
      rw [feedByte_push] at h
      exact absurd h (read_not_mem_processLines _ _ _ _)

theorem Move.turn {s t : Listener} {i keep : Nat} {re : UInt16} {data : List Byte}
    (hm : Move s es t) (hpc : s.pc = .feeding i keep re data) (hre : hangup re = true) :
    .close (s.conns i).serial ∈ es ∨
      ∃ data', t.pc = .feeding i keep re data' ∧ (t.conns i).serial = (s.conns i).serial := by
  cases hm with
  | stop h | pollBreak h | pollAgain h | pollStop _ h | polled _ h | store _ h | noStore h
  | readFails _ _ h | noRead _ _ h | wrap _ _ h | read _ _ _ h => simp [hpc] at h
  | fed i' keep' re' h =>
      rw [hpc] at h
      cases h
      exact .inl (by simp [Listener.settle, hre])
  | byte i' keep' re' ch data' h =>
      rw [hpc] at h
      cases h
      exact .inr ⟨data', rfl, by simp [feedByte_serial]⟩

/-- Between the read of a turn that ends with a close and that close, the queue of a producer that
has hung up stays as it is. -/
theorem turn_rx {i keep : Nat} {re : UInt16} {data : List Byte} (hr : Run World.Step w₁ gs w₂)
    (hpc : w₁.l.pc = .feeding i keep re data) (hre : hangup re = true) (hhup : w₁.hup k = true)
    (hser : (w₁.l.conns i).serial = k) (hno : .close k ∉ gs) :
    w₂.rx k = w₁.rx k := by
  suffices h : w₂.rx k = w₁.rx k ∧ w₂.hup k = true ∧ (w₂.l.conns i).serial = k ∧
      ∃ data', w₂.l.pc = .feeding i keep re data' from h.1
  induction hr with
  | refl => exact ⟨rfl, hhup, hser, data, hpc⟩
  | snoc _ hst ih =>
      obtain ⟨hrx, hhup', hser', data', hpc'⟩ := ih fun h => hno (List.mem_append_left _ h)
      cases hst with
      | @arrive j bytes hj =>
          have hne : k ≠ j := fun e => by simp [← e, hhup'] at hj
          exact ⟨by simp [Function.update_of_ne hne, hrx], hhup', hser', data', hpc'⟩
      | hangup j =>
          refine ⟨hrx, ?_, hser', data', hpc'⟩
          by_cases hj : k = j
          · simp [hj]
          · simpa [Function.update_of_ne hj] using hhup'
      | read hst _ =>
          obtain ⟨_, _, hsv, _⟩ := hst.move.of_read List.mem_cons_self
          rw [hpc'] at hsv
          cases hsv
      | listen hst _ =>
          rcases hst.move.turn hpc' hre with h | ⟨data'', hpc'', hser''⟩
          · rw [hser'] at h
            exact absurd (List.mem_append_right _ h) hno
          · exact ⟨hrx, hhup', hser''.trans hser', data'', hpc''⟩

/-- A turn that reads from a producer that has hung up, and that has seen the hang-up, loses the
complete lines behind what its one read took. -/
theorem turn_noLoss_iff {i keep : Nat} {bytes : List Byte}
    (hr : Run World.Step (World.start (listenerStart lfd store conns pfds)) es w)
    (hpc : w.l.pc = .service i keep) (hre : hangup (w.l.pfds (i + 1)).revents = true)
    (hhup : w.hup k = true) (hread : World.Step w [.read k bytes] w₁)
    (hturn : Run World.Step w₁ gs w₂) (hno : .close k ∉ gs) (hst : World.Step w₂ fs w')
    (hk : .close k ∈ fs) :
    NoLoss k (es ++ [.read k bytes] ++ gs) (w₂.sent k) ↔ newline ∉ (w.rx k).drop bytes.length := by
  have hr₂ := (hr.snoc hread).append hturn
  cases hread with
  | listen hl hno =>
      obtain ⟨_, _, _, _, _, _, hne⟩ := hl.move.of_read List.mem_cons_self
      exact absurd (by simpa using hno k) hne
  | @read l _ _ rest hl hrx =>
      obtain ⟨i', keep', hpc', hser, hpc₁, hconns, _⟩ := hl.move.of_read List.mem_cons_self
      rw [hpc] at hpc'
      cases hpc'
      have hrx₂ := turn_rx hturn hpc₁ hre hhup (by simp [hconns, hser]) hno
      rw [noLoss_iff hr₂ hst hk, hrx₂, hrx]
      simp

/-! ## Runs of the listener between two arrivals -/

theorem World.run_listener {l : Listener} (hr : Run Emulator.Step w.l es l)
    (hno : ∀ k, bytesOf k es = []) : Run World.Step w es { w with l := l } := by
  induction hr with
  | refl => exact .refl
  | snoc _ hst ih =>
      have hparts : ∀ j, bytesOf j _ = [] ∧ bytesOf j _ = [] := fun j =>
        List.append_eq_nil_iff.mp ((bytesOf_append j _ _).symm.trans (hno j))
      exact .snoc (ih fun j => (hparts j).1) (.listen hst fun j => (hparts j).2)

theorem feeding_run {s : Listener} {i keep : Nat} {re : UInt16} {data : List Byte}
    (hpc : s.pc = .feeding i keep re data) :
    ∃ es t, Run Step s es t ∧ (∀ k, bytesOf k es = []) ∧ .close (s.conns i).serial ∉ es ∧
      t.pc = .feeding i keep re [] ∧ (t.conns i).serial = (s.conns i).serial ∧
      t.polled = s.polled := by
  induction data generalizing s with
  | nil => exact ⟨[], s, .refl, fun _ => rfl, by simp, hpc, rfl, rfl⟩
  | cons ch data ih =>
      let t : Listener := { s with
        nl := (feedByte s.nl (s.conns i) ch).1
        conns := Function.update s.conns i (feedByte s.nl (s.conns i) ch).2.1
        pc := .feeding i keep re data }
      have hst : Step s (feedByte s.nl (s.conns i) ch).2.2 t := ⟨.next, by simp [step, hpc, t]⟩
      have hser : (t.conns i).serial = (s.conns i).serial := by simp [t, feedByte_serial]
      obtain ⟨fs, u, hr, hno, hclose, hpcu, hseru, hpolled⟩ := ih (s := t) rfl
      refine ⟨_, u, (Run.single hst).append hr, ?_, ?_, hpcu, hseru.trans hser, hpolled⟩
      · intro k
        simp [hno, feedByte_push, bytesOf_processLines]
      · rw [hser] at hclose
        simp only [List.mem_append, not_or]
        refine ⟨?_, hclose⟩
        rw [feedByte_push]
        exact close_not_mem_processLines _ _ _

theorem step_read {s : Listener} {i keep : Nat} {bytes : List Byte} (hpc : s.pc = .service i keep)
    (hi : i < s.nc) (hre : (s.pfds (i + 1)).revents &&& pollin ≠ 0) (hlen : 0 < bytes.length)
    (hle : bytes.length ≤ 2048) :
    Step s [.read (s.conns i).serial bytes]
      { s with pc := .feeding i keep (s.pfds (i + 1)).revents bytes } :=
  ⟨.serve (some bytes), by simp [step, hpc, hi, hre, hlen, hle]⟩

theorem step_hangup {s : Listener} {i keep : Nat} {re : UInt16} (hpc : s.pc = .feeding i keep re [])
    (hre : hangup re = true) :
    Step s [.close (s.conns i).serial] { s with pc := .service (i + 1) keep } :=
  ⟨.next, by simp [step, hpc, Listener.settle, hre]⟩

end Vlog.Emulator
