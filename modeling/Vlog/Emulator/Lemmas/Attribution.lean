import Vlog.Emulator.Lemmas.Listener

/-!
# Which `poll` a connection is served on

The slots served are those that the last `poll` was passed, and behind them the slot of a connection
accepted since, whose entry of `pfds` that `poll` did not write.
-/

namespace Vlog.Emulator

open Vlog.Lib Vlog.Libc

/-- The service loop reads or drops a connection on this value of `revents`. -/
def acts (re : UInt16) : Prop := re &&& pollin ≠ 0 ∨ hangup re = true

instance (re : UInt16) : Decidable (acts re) := inferInstanceAs (Decidable (_ ∨ _))

/-- What the loop acts on in this state was reported for the connection by the last `poll`. -/
def Listener.Attributed (s : Listener) : Prop :=
  match s.pc with
  | .service i _ =>
      i < s.nc → acts (s.pfds (i + 1)).revents →
        ((s.conns i).serial, (s.pfds (i + 1)).revents) ∈ s.polled
  | .feeding i _ re _ => ((s.conns i).serial, re) ∈ s.polled
  | _ => True

def Listener.turn (s : Listener) : Option Nat :=
  match s.pc with
  | .service i _ | .feeding i _ _ _ => some i
  | _ => none

/-- A connection that the last `poll` was not passed meets no flag left over in its entry. -/
def Listener.NewcomerQuiet (s : Listener) : Prop :=
  ∀ i, s.turn = some i → i < s.nc → s.polled.length ≤ i → ¬ acts (s.pfds (i + 1)).revents

/-- The input does not take a connection into a slot whose entry of `pfds` has a flag left over. -/
def quiet (s : Listener) : Input → Prop
  | .accept fd =>
      s.pc = .accept → (s.pfds 0).revents &&& pollin ≠ 0 → 0 ≤ fd → s.nc < nlMaxConn →
        ¬ acts (s.pfds (s.nc + 1)).revents
  | _ => True

def QuietStep (s : Listener) (es : List Event) (t : Listener) : Prop :=
  ∃ x, step s x = some (t, es) ∧ quiet s x

/-! ## What `polled` says about the slots -/

structure Tracked (s : Listener) : Prop where
  polled : s.pc = .accept →
    s.polled = (List.range s.nc).map fun i => ((s.conns i).serial, (s.pfds (i + 1)).revents)
  older : s.pc = .accept → ∀ p ∈ s.polled, p.1 < s.accepted
  old : ∀ i j, s.turn = some i → i ≤ j → j < s.polled.length →
    s.polled[j]? = some ((s.conns j).serial, (s.pfds (j + 1)).revents)
  newer : ∀ i j, s.turn = some i → i ≤ j → s.polled.length ≤ j → j < s.nc →
    ∀ p ∈ s.polled, p.1 < (s.conns j).serial
  re : ∀ i keep re data, s.pc = .feeding i keep re data →
    re = (s.pfds (i + 1)).revents ∧ re &&& pollin ≠ 0

theorem Tracked.idle {s : Listener} (h₁ : s.pc ≠ .accept) (h₂ : s.turn = none) : Tracked s := by
  constructor
  case polled => exact fun h => absurd h h₁
  case older => exact fun h => absurd h h₁
  case old =>
    intro i j h
    simp [h₂] at h
  case newer =>
    intro i j h
    simp [h₂] at h
  case re =>
    intro i keep re data h
    simp [Listener.turn, h] at h₂

theorem Tracked.turning {s : Listener} {i : Nat} (hpc : s.pc ≠ .accept) (hturn : s.turn = some i)
    (hold : ∀ j, i ≤ j → j < s.polled.length →
      s.polled[j]? = some ((s.conns j).serial, (s.pfds (j + 1)).revents))
    (hnew : ∀ j, i ≤ j → s.polled.length ≤ j → j < s.nc → ∀ p ∈ s.polled, p.1 < (s.conns j).serial)
    (hre : ∀ keep re data, s.pc = .feeding i keep re data →
      re = (s.pfds (i + 1)).revents ∧ re &&& pollin ≠ 0) : Tracked s := by
  constructor
  case polled => exact fun h => absurd h hpc
  case older => exact fun h => absurd h hpc
  case old =>
    intro i' j h
    cases hturn.symm.trans h
    exact hold j
  case newer =>
    intro i' j h
    cases hturn.symm.trans h
    exact hnew j
  case re =>
    intro i' keep re data h
    have hturn' : s.turn = some i' := by simp [Listener.turn, h]
    cases hturn.symm.trans hturn'
    exact hre keep re data h

theorem Tracked.of_settle {s : Listener} {i keep : Nat} (h : Tracked s) (hk : keep ≤ i)
    (hturn : s.turn = some i) (drop : Bool) : Tracked (s.settle i keep drop).1 := by
  have hconns : ∀ j, i + 1 ≤ j → (s.settle i keep drop).1.conns j = s.conns j := by
    intro j hj
    have hne : j ≠ keep := by omega
    cases drop <;> simp [Listener.settle, Function.update_of_ne hne]
  have hpfds : (s.settle i keep drop).1.pfds = s.pfds := by cases drop <;> rfl
  have hpolled : (s.settle i keep drop).1.polled = s.polled := by cases drop <;> rfl
  have hnc : (s.settle i keep drop).1.nc = s.nc := by cases drop <;> rfl
  have hturn' : (s.settle i keep drop).1.turn = some (i + 1) := by cases drop <;> rfl
  apply Tracked.turning _ hturn'
  · intro j hj hlt
    rw [hpolled] at hlt
    rw [hpolled, hpfds, hconns j hj]
    exact h.old i j hturn (Nat.le_of_succ_le hj) hlt
  · intro j hj hle hlt
    rw [hpolled] at hle
    rw [hnc] at hlt
    rw [hpolled, hconns j hj]
    exact h.newer i j hturn (Nat.le_of_succ_le hj) hle hlt
  · intro keep' re data hpc
    cases drop <;> cases hpc
  · cases drop <;> exact Pc.noConfusion

theorem Tracked.step {s t : Listener} {es : List Event} (h : Tracked s) (hs : Slots s)
    (hser : ∀ c ∈ s.opens, c.serial < s.accepted) (hm : Move s es t) : Tracked t := by
  cases hm with
  | stop hpc | pollBreak hpc | pollStop _ hpc => exact .idle Pc.noConfusion rfl
  | pollAgain hpc =>
      exact .idle (by simp [Listener.fillPfds, hpc]) (by simp [Listener.turn, Listener.fillPfds, hpc])
  | polled revents hpc =>
      constructor
      case polled =>
        intro _
        apply List.map_congr_left
        intro i hi
        have hle : i + 1 ≤ s.nc := List.mem_range.mp hi
        simp [Listener.report, Listener.fillPfds, hle]
      case older =>
        intro _ p hp
        simp only [Listener.report, Listener.fillPfds, List.mem_map, List.mem_range] at hp
        obtain ⟨i, hi, rfl⟩ := hp
        apply hser (s.conns i)
        simp only [Listener.opens, hpc]
        exact List.mem_map_of_mem (List.mem_range.mpr hi)
      case old =>
        intro i j h
        cases h
      case newer =>
        intro i j h
        cases h
      case re =>
        intro i keep re data h
        cases h
  | store fd hpc _ _ =>
      have hpolled := h.polled hpc
      have hlen : s.polled.length = s.nc := by simp [hpolled]
      apply Tracked.turning Pc.noConfusion rfl
      · intro j _ hlt
        simp only [Listener.store] at hlt ⊢
        have hne : j ≠ s.nc := by omega
        simp [hpolled, Function.update_of_ne hne, List.getElem?_range (show j < s.nc by omega)]
      · intro j _ hle hlt p hp
        simp only [Listener.store] at hle hlt hp ⊢
        obtain rfl : j = s.nc := by omega
        simpa using h.older hpc p hp
      · intro keep re data hpc'
        cases hpc'
  | noStore hpc =>
      have hpolled := h.polled hpc
      have hlen : s.polled.length = s.nc := by simp [hpolled]
      apply Tracked.turning Pc.noConfusion rfl
      · intro j _ hlt
        simp only at hlt ⊢
        simp [hpolled, List.getElem?_range (show j < s.nc by omega)]
      · intro j _ hle hlt
        simp only at hle hlt
        omega
      · intro keep re data hpc'
        cases hpc'
  | readFails i keep hpc hi _ =>
      exact h.of_settle (hs.service i keep hpc).1 (by simp [Listener.turn, hpc]) true
  | read i keep bytes hpc hi hre _ _ =>
      have hturn : s.turn = some i := by simp [Listener.turn, hpc]
      apply Tracked.turning Pc.noConfusion rfl
      · intro j hj hlt
        exact h.old i j hturn hj hlt
      · intro j hj hle hlt
        exact h.newer i j hturn hj hle hlt
      · intro keep' re' data' hpc'
        cases hpc'
        exact ⟨rfl, hre⟩
  | noRead i keep hpc hi _ =>
      exact h.of_settle (hs.service i keep hpc).1 (by simp [Listener.turn, hpc]) _
  | fed i keep re hpc =>
      obtain ⟨hk, hi⟩ := hs.feeding i keep re [] hpc
      exact h.of_settle hk (by simp [Listener.turn, hpc]) _
  | byte i keep re ch data hpc =>
      have hturn : s.turn = some i := by simp [Listener.turn, hpc]
      have hserial : ∀ j, (Function.update s.conns i (feedByte s.nl (s.conns i) ch).2.1 j).serial =
          (s.conns j).serial := by
        intro j
        by_cases hj : j = i
        · simp [hj, feedByte_serial]
        · simp [Function.update_of_ne hj]
      apply Tracked.turning Pc.noConfusion rfl
      · intro j hj hlt
        simp only [hserial]
        exact h.old i j hturn hj hlt
      · intro j hj hle hlt
        simp only [hserial]
        exact h.newer i j hturn hj hle hlt
      · intro keep' re' data' hpc'
        cases hpc'
        exact h.re i keep re (ch :: data) hpc
  | wrap i keep hpc _ => exact .idle Pc.noConfusion rfl

/-- A connection is served on its own report exactly if the last `poll` was passed the connection
or nothing left over in its entry is acted on. -/
theorem Tracked.attributed_iff {s : Listener} (h : Tracked s) (hs : Slots s) :
    s.Attributed ↔ s.NewcomerQuiet := by
  have hmem : ∀ i, s.turn = some i → i < s.nc →
      (((s.conns i).serial, (s.pfds (i + 1)).revents) ∈ s.polled ↔ i < s.polled.length) := by
    intro i hi hlt
    constructor
    · intro hp
      by_contra hle
      exact absurd (h.newer i i hi (Nat.le_refl _) (by omega) hlt _ hp) (Nat.lt_irrefl _)
    · intro hlen
      exact List.mem_of_getElem? (h.old i i hi (Nat.le_refl _) hlen)
  cases hpc : s.pc with
  | top | accept | done => simp [Listener.Attributed, Listener.NewcomerQuiet, Listener.turn, hpc]
  | service i keep =>
      have hturn : s.turn = some i := by simp [Listener.turn, hpc]
      simp only [Listener.Attributed, Listener.NewcomerQuiet, hpc, hturn, Option.some.injEq]
      constructor
      · intro ha i' he hlt hle hre
        cases he
        have hlen := (hmem i hturn hlt).mp (ha hlt hre)
        omega
      · intro hq hlt hre
        rw [hmem i hturn hlt]
        by_contra hle
        exact hq i rfl hlt (by omega) hre
  | feeding i keep re data =>
      have hturn : s.turn = some i := by simp [Listener.turn, hpc]
      obtain ⟨hre, hin⟩ := h.re i keep re data hpc
      obtain ⟨_, hlt⟩ := hs.feeding i keep re data hpc
      simp only [Listener.Attributed, Listener.NewcomerQuiet, hpc, hturn, Option.some.injEq]
      rw [hre, hmem i hturn hlt]
      constructor
      · intro hlen i' he _ hle
        cases he
        omega
      · intro hq
        by_contra hle
        exact hq i rfl hlt (by omega) (Or.inl (hre ▸ hin))

/-! ## Runs that leave nothing over -/

/-- No slot that is still to be served in this round has a flag left over. -/
def Listener.AllQuiet (s : Listener) : Prop :=
  ∀ i j, s.turn = some i → i ≤ j → s.polled.length ≤ j → j < s.nc → ¬ acts (s.pfds (j + 1)).revents

theorem Listener.AllQuiet.newcomerQuiet {s : Listener} (h : s.AllQuiet) : s.NewcomerQuiet :=
  fun i hi hlt hle => h i i hi (Nat.le_refl _) hle hlt

theorem QuietStep.step {s t : Listener} {es : List Event} (h : QuietStep s es t) : Step s es t := by
  obtain ⟨x, hx, _⟩ := h
  exact ⟨x, hx⟩

theorem QuietStep.stored {s t : Listener} {es : List Event} (h : QuietStep s es t)
    (hpc : s.pc = .accept) (hnc : t.nc = s.nc + 1) : ¬ acts (s.pfds (s.nc + 1)).revents := by
  obtain ⟨x, hx, hq⟩ := h
  cases x with
  | accept fd =>
      by_cases hc : (s.pfds 0).revents &&& pollin ≠ 0 ∧ 0 ≤ fd ∧ s.nc < nlMaxConn
      · exact hq hpc hc.1 hc.2.1 hc.2.2
      · simp only [Emulator.step, hpc, hc, ↓reduceIte, Option.some.injEq, Prod.mk.injEq] at hx
        rw [← hx.1] at hnc
        simp at hnc
  | stop | pollFails | poll | serve | next => simp [Emulator.step, hpc] at hx

theorem Listener.AllQuiet.of_settle {s : Listener} {i keep : Nat} (h : s.AllQuiet)
    (hturn : s.turn = some i) (drop : Bool) : (s.settle i keep drop).1.AllQuiet := by
  intro a j ha hj hle hlt
  have hturn' : (s.settle i keep drop).1.turn = some (i + 1) := by cases drop <;> rfl
  have hpolled : (s.settle i keep drop).1.polled = s.polled := by cases drop <;> rfl
  have hpfds : (s.settle i keep drop).1.pfds = s.pfds := by cases drop <;> rfl
  have hnc : (s.settle i keep drop).1.nc = s.nc := by cases drop <;> rfl
  rw [hturn'] at ha
  cases ha
  rw [hpolled] at hle
  rw [hnc] at hlt
  rw [hpfds]
  exact h i j hturn (by omega) hle hlt

theorem Listener.AllQuiet.idle {s : Listener} (h : s.turn = none) : s.AllQuiet := by
  intro i j hi
  simp [h] at hi

theorem Listener.AllQuiet.step {s t : Listener} {es : List Event} (h : s.AllQuiet)
    (hp : Tracked s) (hst : QuietStep s es t) : t.AllQuiet := by
  have hnew := hst.stored
  cases hst.step.move with
  | stop hpc | pollBreak hpc | pollStop _ hpc | polled _ hpc | wrap _ _ hpc _ => exact .idle rfl
  | pollAgain hpc => exact .idle (by simp [Listener.turn, Listener.fillPfds, hpc])
  | store fd hpc _ _ =>
      intro i j hi _ hle hlt
      cases hi
      have hlen : s.polled.length = s.nc := by simp [hp.polled hpc]
      simp only [Listener.store] at hle hlt
      obtain rfl : j = s.nc := by omega
      exact hnew hpc rfl
  | noStore hpc =>
      intro i j hi _ hle hlt
      cases hi
      have hlen : s.polled.length = s.nc := by simp [hp.polled hpc]
      simp only at hle hlt
      omega
  | readFails i keep hpc _ _ => exact h.of_settle (by simp [Listener.turn, hpc]) true
  | noRead i keep hpc _ _ => exact h.of_settle (by simp [Listener.turn, hpc]) _
  | fed i keep re hpc => exact h.of_settle (by simp [Listener.turn, hpc]) _
  | read i keep bytes hpc _ _ _ _ | byte i keep re ch data hpc =>
      intro i' j hi hj hle hlt
      cases hi
      exact h i j (by simp [Listener.turn, hpc]) hj hle hlt

/-! ## Runs -/

variable {lfd : Int} {store : Logstore} {conns : Nat → Conn} {pfds : Nat → Pollfd}
  {es : List Event} {s : Listener}

theorem listener_tracked (hr : Run Step (listenerStart lfd store conns pfds) es s) : Tracked s := by
  refine hr.invariant (I := fun _ s => Tracked s) (.idle Pc.noConfusion rfl) ?_
  intro es t fs u hrun ht hst
  exact ht.step (listener_slots hrun) (Collector.run_inv (listener_refines hrun)).serial_lt hst.move

theorem listener_allQuiet (hr : Run QuietStep (listenerStart lfd store conns pfds) es s) :
    s.AllQuiet := by
  refine hr.invariant (I := fun _ s => s.AllQuiet) (.idle rfl) ?_
  intro es t fs u hrun ht hst
  have hrun' := hrun.mono fun _ _ _ h => h.step
  exact ht.step (listener_tracked hrun') hst

end Vlog.Emulator
