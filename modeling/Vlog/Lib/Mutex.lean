import Vlog.Lib.Run

/-!
# Critical sections under one lock

Threads run calls on a shared state. A call takes the lock, makes its updates one at a time, and
releases the lock; the steps of the threads interleave freely. `Run.serial` states that whenever the
lock is free the shared state is what the calls make when each runs alone, in the order in which
they took the lock.
-/

namespace Vlog.Lib.Mutex

variable {ι κ σ : Type*}

/-- Where a thread is: between two calls, or in a call with updates left to make. -/
inductive Phase (κ σ : Type*)
  | idle
  | inside (c : κ) (rest : List (σ → σ → Prop))

structure State (ι κ σ : Type*) where
  shared : σ
  owner : Option ι
  phase : ι → Phase κ σ
  todo : ι → List κ

inductive Event (ι κ : Type*)
  | locked (i : ι) (c : κ)
  | unlocked (i : ι) (c : κ)

def State.start (x : σ) (calls : ι → List κ) : State ι κ σ :=
  { shared := x, owner := none, phase := fun _ => .idle, todo := calls }

section
variable [DecidableEq ι]

/-- One step of one thread. An update does not look at the lock. -/
inductive Step (body : κ → List (σ → σ → Prop)) :
    State ι κ σ → List (Event ι κ) → State ι κ σ → Prop
  | lock {s i c cs} : s.owner = none → s.phase i = .idle → s.todo i = c :: cs →
      Step body s [.locked i c]
        { s with
          owner := some i
          phase := Function.update s.phase i (.inside c (body c))
          todo := Function.update s.todo i cs }
  | update {s i c u rest x} : s.phase i = .inside c (u :: rest) → u s.shared x →
      Step body s []
        { s with shared := x, phase := Function.update s.phase i (.inside c rest) }
  | unlock {s i c} : s.phase i = .inside c [] →
      Step body s [.unlocked i c]
        { s with owner := none, phase := Function.update s.phase i .idle }
end

/-! ## Calls in the order of the lock -/

def locks (es : List (Event ι κ)) : List (ι × κ) :=
  es.filterMap fun | .locked i c => some (i, c) | .unlocked _ _ => none

def unlocks (es : List (Event ι κ)) : List (ι × κ) :=
  es.filterMap fun | .locked _ _ => none | .unlocked i c => some (i, c)

def callsOf [DecidableEq ι] (i : ι) (cs : List (ι × κ)) : List κ :=
  (cs.filter fun p => p.1 = i).map Prod.snd

/-- The updates run one after the other, with nothing in between. -/
def Exec : List (σ → σ → Prop) → σ → σ → Prop
  | [], x, y => x = y
  | u :: us, x, y => ∃ z, u x z ∧ Exec us z y

theorem Exec.append {us vs : List (σ → σ → Prop)} {x y z : σ} (h : Exec us x y)
    (h' : Exec vs y z) : Exec (us ++ vs) x z := by
  induction us generalizing x with
  | nil => cases h; exact h'
  | cons u us ih =>
      obtain ⟨w, hu, hus⟩ := h
      exact ⟨w, hu, ih hus⟩

theorem Exec.split {us vs : List (σ → σ → Prop)} {x z : σ} (h : Exec (us ++ vs) x z) :
    ∃ y, Exec us x y ∧ Exec vs y z := by
  induction us generalizing x with
  | nil => exact ⟨x, rfl, h⟩
  | cons u us ih =>
      obtain ⟨w, hu, hus⟩ := h
      obtain ⟨y, h₁, h₂⟩ := ih hus
      exact ⟨y, ⟨w, hu, h₁⟩, h₂⟩

def Serial (body : κ → List (σ → σ → Prop)) (cs : List (ι × κ)) (x y : σ) : Prop :=
  Exec (cs.flatMap fun p => body p.2) x y

/-- A relation between the calls made so far and the shared state that one whole call carries over
holds after any serial run. -/
theorem Serial.invariant {body : κ → List (σ → σ → Prop)} {I : List (ι × κ) → σ → Prop}
    {cs : List (ι × κ)} {x y : σ} (h : Serial body cs x y) (h₀ : I [] x)
    (hc : ∀ cs p y z, I cs y → Exec (body p.2) y z → I (cs ++ [p]) z) : I cs y := by
  induction cs using List.reverseRecOn generalizing y with
  | nil => cases h; exact h₀
  | append_singleton cs p ih =>
      simp only [Serial, List.flatMap_append, List.flatMap_singleton] at h
      obtain ⟨w, h₁, h₂⟩ := h.split
      exact hc cs p w y (ih h₁) h₂

/-! ## The invariant of the lock -/

section
variable [DecidableEq ι] {body : κ → List (σ → σ → Prop)}

/-- Either no thread is in a call, or one is and its call alone is unfinished. -/
inductive Inv (body : κ → List (σ → σ → Prop)) (x : σ) (es : List (Event ι κ)) (s : State ι κ σ) :
    Prop
  | free : s.owner = none → (∀ i, s.phase i = .idle) → locks es = unlocks es →
      Serial body (unlocks es) x s.shared → Inv body x es s
  | held (i : ι) (c : κ) (done rest : List (σ → σ → Prop)) : s.owner = some i →
      s.phase i = .inside c rest → (∀ j, j ≠ i → s.phase j = .idle) → body c = done ++ rest →
      locks es = unlocks es ++ [(i, c)] →
      Exec ((unlocks es).flatMap (fun p => body p.2) ++ done) x s.shared → Inv body x es s

/-- A thread in a call holds the lock, and no other thread is in one. -/
theorem Inv.inside {x : σ} {es : List (Event ι κ)} {s : State ι κ σ} {i : ι} {c : κ}
    {rest : List (σ → σ → Prop)} (hi : Inv body x es s) (hph : s.phase i = .inside c rest) :
    ∃ done, s.owner = some i ∧ (∀ j, j ≠ i → s.phase j = .idle) ∧ body c = done ++ rest ∧
      locks es = unlocks es ++ [(i, c)] ∧
      Exec ((unlocks es).flatMap (fun p => body p.2) ++ done) x s.shared := by
  cases hi with
  | free _ hidle _ _ => simp [hidle i] at hph
  | held j d done rest' hown hj hidle hbody hlk hex =>
      obtain rfl : i = j := by
        by_contra hne
        simp [hidle i hne] at hph
      rw [hj] at hph
      cases hph
      exact ⟨done, hown, hidle, hbody, hlk, hex⟩

theorem Inv.step {x : σ} {es fs : List (Event ι κ)} {s t : State ι κ σ} (hi : Inv body x es s)
    (hst : Step body s fs t) : Inv body x (es ++ fs) t := by
  cases hst with
  | @lock i c cs hown hph _ =>
      cases hi with
      | free _ hidle hlk hser =>
          apply Inv.held i c [] (body c)
          · rfl
          · simp
          · intro j hj
            simp [Function.update_of_ne hj, hidle j]
          · rfl
          · simpa [locks, unlocks] using hlk
          · simpa [unlocks, Serial] using hser
      | held j _ _ _ hj => simp [hown] at hj
  | @update i c u rest y hph hu =>
      obtain ⟨done, hown, hidle, hbody, hlk, hex⟩ := hi.inside hph
      apply Inv.held i c (done ++ [u]) rest
      · exact hown
      · simp
      · intro k hk
        simpa [Function.update_of_ne hk] using hidle k hk
      · simp [hbody]
      · simpa [locks, unlocks] using hlk
      · rw [← List.append_assoc, List.append_nil]
        exact hex.append ⟨y, hu, rfl⟩
  | @unlock i c hph =>
      obtain ⟨done, _, hidle, hbody, hlk, hex⟩ := hi.inside hph
      have hdone : body c = done := by simpa using hbody
      apply Inv.free
      · rfl
      · intro k
        by_cases hk : k = i
        · simp [hk]
        · simpa [Function.update_of_ne hk] using hidle k hk
      · simpa [locks, unlocks] using hlk
      · simpa [unlocks, Serial, hdone] using hex

theorem Run.inv {x : σ} {calls : ι → List κ} {es : List (Event ι κ)} {s : State ι κ σ}
    (hr : Run (Step body) (State.start x calls) es s) : Inv body x es s :=
  hr.invariant (.free rfl (fun _ => rfl) rfl rfl) fun _ _ _ _ _ hi hst => hi.step hst

/-- With the lock free, the calls that took it are the calls that completed, and the shared state is
what they make one after the other. -/
theorem Run.serial {x : σ} {calls : ι → List κ} {es : List (Event ι κ)} {s : State ι κ σ}
    (hr : Run (Step body) (State.start x calls) es s) (hfree : s.owner = none) :
    locks es = unlocks es ∧ Serial body (unlocks es) x s.shared := by
  cases Run.inv hr with
  | free _ _ hlk hser => exact ⟨hlk, hser⟩
  | held i _ _ _ hown => simp [hfree] at hown

theorem Run.programOrder {x : σ} {calls : ι → List κ} {es : List (Event ι κ)} {s : State ι κ σ}
    (hr : Run (Step body) (State.start x calls) es s) (i : ι) :
    calls i = callsOf i (locks es) ++ s.todo i := by
  refine hr.invariant (I := fun es s => calls i = callsOf i (locks es) ++ s.todo i) rfl ?_
  intro es t fs u _ hi hst
  cases hst with
  | @lock j c cs _ _ htodo =>
      by_cases hj : j = i
      · subst hj
        simpa [callsOf, locks, htodo] using hi
      · simpa [callsOf, locks, hj, Function.update_of_ne (Ne.symm hj)] using hi
  | update _ _ => simpa [callsOf, locks] using hi
  | unlock _ => simpa [callsOf, locks] using hi

end

end Vlog.Lib.Mutex
