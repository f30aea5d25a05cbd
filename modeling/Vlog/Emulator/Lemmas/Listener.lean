import Vlog.Emulator.Lemmas.Collector

/-!
# The listener refines the collector

`Move` lists the transitions of `step`; what the listener keeps is proved from it. Seen through
`Listener.abs`, which forgets the arrays, every transition is a step of the collector.
-/

namespace Vlog.Emulator

open Vlog.Lib Vlog.Libc

/-! ## The transitions -/

inductive Move (s : Listener) : List Event → Listener → Prop
  | stop : s.pc = .top → Move s s.finish.2 s.finish.1
  | pollBreak : s.pc = .top → Move s s.fillPfds.finish.2 s.fillPfds.finish.1
  | pollAgain : s.pc = .top → Move s [] s.fillPfds
  | pollStop (revents) : s.pc = .top →
      Move s (s.fillPfds.report revents).finish.2 (s.fillPfds.report revents).finish.1
  | polled (revents) : s.pc = .top → Move s [] { s.fillPfds.report revents with pc := .accept }
  | store (fd) : s.pc = .accept → (s.pfds 0).revents &&& pollin ≠ 0 → s.nc < nlMaxConn →
      Move s [] { s.store fd with pc := .service 0 0 }
  | noStore : s.pc = .accept → Move s [] { s with pc := .service 0 0 }
  | readFails (i keep) : s.pc = .service i keep → i < s.nc →
      (s.pfds (i + 1)).revents &&& pollin ≠ 0 →
      Move s (s.settle i keep true).2 (s.settle i keep true).1
  | read (i keep bytes) : s.pc = .service i keep → i < s.nc →
      (s.pfds (i + 1)).revents &&& pollin ≠ 0 → 0 < bytes.length → bytes.length ≤ 2048 →
      Move s [.read (s.conns i).serial bytes]
        { s with pc := .feeding i keep (s.pfds (i + 1)).revents bytes }
  | noRead (i keep) : s.pc = .service i keep → i < s.nc →
      (s.pfds (i + 1)).revents &&& pollin = 0 →
      Move s (s.settle i keep (hangup (s.pfds (i + 1)).revents)).2
        (s.settle i keep (hangup (s.pfds (i + 1)).revents)).1
  | fed (i keep re) : s.pc = .feeding i keep re [] →
      Move s (s.settle i keep (hangup re)).2 (s.settle i keep (hangup re)).1
  | byte (i keep re ch data) : s.pc = .feeding i keep re (ch :: data) →
      Move s (feedByte s.nl (s.conns i) ch).2.2
        { s with
          nl := (feedByte s.nl (s.conns i) ch).1
          conns := Function.update s.conns i (feedByte s.nl (s.conns i) ch).2.1
          pc := .feeding i keep re data }
  | wrap (i keep) : s.pc = .service i keep → ¬ i < s.nc → Move s [] { s with nc := keep, pc := .top }

theorem Move.of_some {s t : Listener} {es : List Event} {p : Listener × List Event}
    (h : some p = some (t, es)) (hm : Move s p.2 p.1) : Move s es t := by
  obtain rfl := Option.some.inj h
  exact hm

theorem Step.move {s t : Listener} {es : List Event} (h : Step s es t) : Move s es t := by
  obtain ⟨x, h⟩ := h
  unfold step at h
  split at h
  case h_1 _ _ hpc =>
    cases h
    exact .stop hpc
  case h_2 _ _ _ hpc =>
    split at h <;> cases h
    · exact .pollAgain hpc
    · exact .pollBreak hpc
  case h_3 _ _ _ _ hpc =>
    simp only at h
    split at h <;> cases h
    · exact .pollStop _ hpc
    · exact .polled _ hpc
  case h_4 _ _ _ hpc =>
    simp only at h
    split at h
    case isTrue hc =>
      cases h
      exact .store _ hpc hc.1 hc.2.2
    case isFalse =>
      cases h
      exact .noStore hpc
  case h_5 _ _ i keep data hpc =>
    by_cases hi : i < s.nc
    · rw [if_pos hi] at h
      by_cases hre : (s.pfds (i + 1)).revents &&& pollin = 0
      · simp only [hre, ne_eq, not_true_eq_false, ↓reduceIte] at h
        exact Move.of_some h (.noRead i keep hpc hi hre)
      · simp only [ne_eq, hre, not_false_eq_true, ↓reduceIte] at h
        cases data with
        | none =>
            cases h
            exact .readFails i keep hpc hi hre
        | some bytes =>
            simp only at h
            split at h
            · rename_i hb
              cases h
              exact .read i keep bytes hpc hi hre hb.1 hb.2
            · cases h
    · rw [if_neg hi] at h
      cases h
      exact .wrap i keep hpc hi
  case h_6 _ _ i keep re data hpc =>
    cases data with
    | nil =>
        exact Move.of_some h (.fed i keep re hpc)
    | cons ch data =>
        cases h
        exact .byte i keep re ch data hpc
  case h_7 => cases h

/-! ## The slots in use -/

structure Slots (s : Listener) : Prop where
  nc_le : s.nc ≤ nlMaxConn
  bufs : ∀ j, j < s.nc → BufOk newline lineBound (s.conns j).buf
  service : ∀ i keep, s.pc = .service i keep → keep ≤ i ∧ i ≤ s.nc
  feeding : ∀ i keep re data, s.pc = .feeding i keep re data → keep ≤ i ∧ i < s.nc

theorem Slots.outside {s : Listener} (hn : s.nc ≤ nlMaxConn)
    (hb : ∀ j, j < s.nc → BufOk newline lineBound (s.conns j).buf)
    (hpc : s.pc = .top ∨ s.pc = .accept ∨ s.pc = .done) : Slots s := by
  constructor
  case nc_le => exact hn
  case bufs => exact hb
  case service =>
    intro i keep h
    rcases hpc with hpc | hpc | hpc <;> simp [hpc] at h
  case feeding =>
    intro i keep re data h
    rcases hpc with hpc | hpc | hpc <;> simp [hpc] at h

theorem Slots.serving {s : Listener} {i keep : Nat} (hpc : s.pc = .service i keep)
    (hn : s.nc ≤ nlMaxConn) (hb : ∀ j, j < s.nc → BufOk newline lineBound (s.conns j).buf)
    (hk : keep ≤ i) (hi : i ≤ s.nc) : Slots s := by
  constructor
  case nc_le => exact hn
  case bufs => exact hb
  case service =>
    intro i' keep' h
    rw [hpc] at h
    cases h
    exact ⟨hk, hi⟩
  case feeding =>
    intro i' keep' re data h
    simp [hpc] at h

theorem Slots.reading {s : Listener} {i keep : Nat} {re : UInt16} {data : List Byte}
    (hpc : s.pc = .feeding i keep re data) (hn : s.nc ≤ nlMaxConn)
    (hb : ∀ j, j < s.nc → BufOk newline lineBound (s.conns j).buf) (hk : keep ≤ i) (hi : i < s.nc) :
    Slots s := by
  constructor
  case nc_le => exact hn
  case bufs => exact hb
  case service =>
    intro i' keep' h
    simp [hpc] at h
  case feeding =>
    intro i' keep' re' data' h
    rw [hpc] at h
    cases h
    exact ⟨hk, hi⟩

theorem Slots.of_settle {s : Listener} {i keep : Nat} (h : Slots s) (hk : keep ≤ i)
    (hi : i < s.nc) (drop : Bool) : Slots (s.settle i keep drop).1 := by
  cases drop with
  | true => exact .serving rfl h.nc_le h.bufs (Nat.le_succ_of_le hk) hi
  | false =>
      apply Slots.serving
      · rfl
      · exact h.nc_le
      · intro j hj
        by_cases hjk : j = keep
        · simpa [Listener.settle, hjk] using h.bufs i hi
        · simpa [Listener.settle, Function.update_of_ne hjk] using h.bufs j hj
      · exact Nat.succ_le_succ hk
      · exact hi

theorem Slots.step {s t : Listener} {es : List Event} (h : Slots s) (hm : Move s es t) :
    Slots t := by
  have hn := h.nc_le
  have hb := h.bufs
  cases hm with
  | stop hpc | pollBreak hpc | pollStop _ hpc => exact .outside hn hb (.inr (.inr rfl))
  | pollAgain hpc => exact .outside hn hb (.inl hpc)
  | polled _ hpc => exact .outside hn hb (.inr (.inl rfl))
  | store fd hpc _ hlt =>
      apply Slots.serving
      · rfl
      · exact hlt
      · intro j hj
        by_cases hjn : j = s.nc
        · simp [Listener.store, hjn, BufOk]
        · have hlt : j < s.nc := lt_of_le_of_ne (Nat.le_of_lt_succ hj) hjn
          simpa [Listener.store, Function.update_of_ne hjn] using hb j hlt
      · exact Nat.le_refl _
      · exact Nat.zero_le _
  | noStore hpc => exact .serving rfl hn hb (Nat.le_refl _) (Nat.zero_le _)
  | readFails i keep hpc hi _ => exact h.of_settle (h.service i keep hpc).1 hi true
  | read i keep bytes hpc hi _ _ _ => exact .reading rfl hn hb (h.service i keep hpc).1 hi
  | noRead i keep hpc hi _ => exact h.of_settle (h.service i keep hpc).1 hi _
  | fed i keep re hpc =>
      obtain ⟨hk, hi⟩ := h.feeding i keep re [] hpc
      exact h.of_settle hk hi _
  | byte i keep re ch data hpc =>
      obtain ⟨hk, hi⟩ := h.feeding i keep re (ch :: data) hpc
      apply Slots.reading
      · rfl
      · exact hn
      · intro j hj
        by_cases hji : j = i
        · simpa [hji, feedByte_push] using push_bufOk (by decide) (hb i hi) ch
        · simpa [Function.update_of_ne hji] using hb j hj
      · exact hk
      · exact hi
  | wrap i keep hpc _ =>
      obtain ⟨hk, hi⟩ := h.service i keep hpc
      apply Slots.outside
      · exact (hk.trans hi).trans hn
      · intro j hj
        exact hb j (lt_of_lt_of_le hj (hk.trans hi))
      · exact .inl rfl

theorem Slots.pfdsUsed_le {s : Listener} (h : Slots s) : ∀ k ∈ s.pfdsUsed, k ≤ nlMaxConn := by
  have hn := h.nc_le
  intro k hk
  unfold Listener.pfdsUsed at hk
  split at hk
  · have hlt := List.mem_range.mp hk
    omega
  · cases List.mem_singleton.mp hk
    exact Nat.zero_le _
  · split at hk
    · cases List.mem_singleton.mp hk
      omega
    · cases hk
  · cases hk
  · cases hk

/-! ## The open connections -/

/-- The connections that the listener holds open, in the order of their slots. In the service loop
they are the slots kept so far and the slots not yet served. -/
def Listener.opens (s : Listener) : List Conn :=
  match s.pc with
  | .top | .accept => (List.range s.nc).map s.conns
  | .service i keep | .feeding i keep _ _ =>
      (List.range keep).map s.conns ++ (List.range' i (s.nc - i)).map s.conns
  | .done => []

def Listener.abs (s : Listener) : Collector where
  nl := s.nl
  conns := s.opens
  accepted := s.accepted
  unfed :=
    match s.pc with
    | .feeding i _ _ data => some ((s.conns i).serial, data)
    | _ => none

theorem map_update_of_not_mem {β : Type*} {l : List Nat} {k : Nat} (h : k ∉ l) (f : Nat → β)
    (b : β) : l.map (Function.update f k b) = l.map f := by
  apply List.map_congr_left
  intro j hj
  have hne : j ≠ k := fun e => h (e ▸ hj)
  exact Function.update_of_ne hne ..

theorem opens_serving {s : Listener} {i keep : Nat} (hi : i < s.nc) :
    (List.range keep).map s.conns ++ (List.range' i (s.nc - i)).map s.conns =
      (List.range keep).map s.conns ++
        s.conns i :: (List.range' (i + 1) (s.nc - (i + 1))).map s.conns := by
  have hlen : s.nc - i = s.nc - (i + 1) + 1 := by omega
  rw [hlen, List.range'_succ, List.map_cons]

theorem opens_kept {s : Listener} {i keep : Nat} (hk : keep ≤ i) (hi : i < s.nc) :
    (s.settle i keep false).1.opens =
      (List.range keep).map s.conns ++ (List.range' i (s.nc - i)).map s.conns := by
  have h₁ : keep ∉ List.range keep := by simp
  have h₂ : keep ∉ List.range' (i + 1) (s.nc - (i + 1)) := by
    rw [List.mem_range'_1]
    omega
  rw [opens_serving hi]
  simp [Listener.settle, Listener.opens, List.range_succ, map_update_of_not_mem h₁,
    map_update_of_not_mem h₂]

theorem opens_dropped {s : Listener} {i keep : Nat} :
    (s.settle i keep true).1.opens =
      (List.range keep).map s.conns ++ (List.range' (i + 1) (s.nc - (i + 1))).map s.conns := by
  simp [Listener.settle, Listener.opens]

/-! ## The refinement -/

theorem abs_finish {s : Listener} (hpc : s.pc = .top) :
    Collector.Step s.abs s.finish.2 s.finish.1.abs := by
  have h := Collector.Step.leave (h := s.abs)
  simpa [Listener.abs, Listener.opens, Listener.finish, hpc, Function.comp_def] using h

theorem abs_settle {s : Listener} {i keep : Nat} (hk : keep ≤ i) (hi : i < s.nc)
    (hpc : s.pc = .service i keep ∨ ∃ re, s.pc = .feeding i keep re []) (drop : Bool) :
    Collector.Step s.abs (s.settle i keep drop).2 (s.settle i keep drop).1.abs := by
  have hopens : s.abs.conns = (List.range keep).map s.conns ++
      s.conns i :: (List.range' (i + 1) (s.nc - (i + 1))).map s.conns := by
    rw [← opens_serving hi]
    rcases hpc with hpc | ⟨re, hpc⟩ <;> simp [Listener.abs, Listener.opens, hpc]
  have hunfed : s.abs.unfed = none ∨ s.abs.unfed = some ((s.conns i).serial, []) := by
    rcases hpc with hpc | ⟨re, hpc⟩ <;> simp [Listener.abs, hpc]
  cases drop with
  | true =>
      have h := Collector.Step.close hopens hunfed
      rw [← opens_dropped] at h
      exact h
  | false =>
      have hkept := opens_kept hk hi
      rw [opens_serving hi, ← hopens] at hkept
      have habs : (s.settle i keep false).1.abs = { s.abs with unfed := none } := by
        simp only [← hkept]
        rfl
      rw [habs]
      rcases hunfed with hu | hu
      · have hsame : { s.abs with unfed := none } = s.abs := by rw [← hu]
        rw [hsame]
        exact .stay
      · exact .fed hu

theorem Move.refines {s t : Listener} {es : List Event} (hs : Slots s) (hm : Move s es t) :
    Collector.Step s.abs es t.abs := by
  cases hm with
  | stop hpc => exact abs_finish hpc
  | pollBreak hpc => exact abs_finish (s := s.fillPfds) hpc
  | pollAgain hpc => exact .stay (h := s.abs)
  | pollStop revents hpc => exact abs_finish (s := s.fillPfds.report revents) hpc
  | polled revents hpc =>
      have h : Listener.abs { s.fillPfds.report revents with pc := .accept } = s.abs := by
        simp [Listener.abs, Listener.opens, hpc, Listener.fillPfds, Listener.report]
      rw [h]
      exact .stay
  | store fd hpc _ _ =>
      have h : Listener.abs { s.store fd with pc := .service 0 0 } =
          { s.abs with
            conns := s.abs.conns ++ [{ fd := fd, buf := [], serial := s.abs.accepted }]
            accepted := s.abs.accepted + 1 } := by
        have hn : s.nc ∉ List.range s.nc := by simp
        simp [Listener.abs, Listener.opens, hpc, Listener.store, ← List.range_eq_range',
          List.range_succ, map_update_of_not_mem hn]
      rw [h]
      exact .accept fd
  | noStore hpc =>
      have h : Listener.abs { s with pc := .service 0 0 } = s.abs := by
        simp [Listener.abs, Listener.opens, hpc, ← List.range_eq_range']
      rw [h]
      exact .stay
  | readFails i keep hpc hi _ => exact abs_settle (hs.service i keep hpc).1 hi (.inl hpc) true
  | read i keep bytes hpc hi _ _ _ =>
      have hmem : s.conns i ∈ s.abs.conns := by
        simp only [Listener.abs, Listener.opens, hpc]
        rw [opens_serving hi]
        simp
      have hu : s.abs.unfed = none := by simp [Listener.abs, hpc]
      have h := Collector.Step.read hmem hu bytes
      simpa [Listener.abs, Listener.opens, hpc] using h
  | noRead i keep hpc hi _ => exact abs_settle (hs.service i keep hpc).1 hi (.inl hpc) _
  | fed i keep re hpc =>
      obtain ⟨hk, hi⟩ := hs.feeding i keep re [] hpc
      exact abs_settle hk hi (.inr ⟨re, hpc⟩) _
  | byte i keep re ch data hpc =>
      obtain ⟨hk, hi⟩ := hs.feeding i keep re (ch :: data) hpc
      have hopens : s.abs.conns = (List.range keep).map s.conns ++
          s.conns i :: (List.range' (i + 1) (s.nc - (i + 1))).map s.conns := by
        rw [← opens_serving hi]
        simp [Listener.abs, Listener.opens, hpc]
      have hu : s.abs.unfed = some ((s.conns i).serial, ch :: data) := by simp [Listener.abs, hpc]
      have h := Collector.Step.byte hopens hu
      have h₁ : i ∉ List.range keep := by simp; omega
      have h₂ : i ∉ List.range' (i + 1) (s.nc - (i + 1)) := by
        rw [List.mem_range'_1]
        omega
      have hlen : s.nc - i = s.nc - (i + 1) + 1 := by omega
      simpa [Listener.abs, Listener.opens, hlen, List.range'_succ, map_update_of_not_mem h₁,
        map_update_of_not_mem h₂, feedByte_serial] using h
  | wrap i keep hpc hi =>
      have h : Listener.abs { s with nc := keep, pc := .top } = s.abs := by
        have hz : s.nc - i = 0 := by omega
        simp [Listener.abs, Listener.opens, hpc, hz]
      rw [h]
      exact .stay

/-! ## Runs of the listener -/

variable {lfd : Int} {store : Logstore} {conns : Nat → Conn} {pfds : Nat → Pollfd}
  {es : List Event} {s : Listener}

theorem listener_slots (hr : Run Step (listenerStart lfd store conns pfds) es s) : Slots s := by
  refine hr.invariant (I := fun _ s => Slots s) ?_ fun _ _ _ _ _ hs hst => hs.step hst.move
  apply Slots.outside
  · exact Nat.zero_le _
  · intro j hj
    exact absurd hj (Nat.not_lt_zero _)
  · exact .inl rfl

/-- Every run of the listener is a run of the collector. -/
theorem listener_refines (hr : Run Step (listenerStart lfd store conns pfds) es s) :
    Run Collector.Step (Collector.start store) es s.abs := by
  induction hr with
  | refl => exact .refl
  | snoc hr hst ih => exact .snoc ih (hst.move.refines (listener_slots hr))

theorem exec_run (xs : List Input) {t : Listener} (h : exec s xs = some (t, es)) :
    Run Step s es t := by
  induction xs generalizing s es with
  | nil =>
      cases h
      exact .refl
  | cons x xs ih =>
      simp only [exec, Option.bind_eq_bind, Option.bind_eq_some_iff] at h
      obtain ⟨⟨u, fs⟩, hstep, ⟨v, gs⟩, hrest, heq⟩ := h
      cases heq
      exact (Run.single ⟨x, hstep⟩).append (ih hrest)

end Vlog.Emulator
