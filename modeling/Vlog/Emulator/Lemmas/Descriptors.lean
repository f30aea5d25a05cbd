import Vlog.Emulator.Descriptors
import Vlog.Emulator.Lemmas.Listener

/-!
# The collector holds its open connections

Each open connection has a descriptor of its own, which is closed when the connection is dropped.
-/

namespace Vlog.Emulator

open Vlog.Lib Vlog.Libc

variable {s t : Listener} {x : Input} {es : List Event} {i keep : Nat}

def Listener.fds (s : Listener) : List Int := s.opens.map Conn.fd

/-- The listening socket and the connections -/
def Listener.held (s : Listener) : Multiset Int := s.lfd ::ₘ (s.fds : Multiset Int)

/-- In front of the service loop, the connections are those in the slots. -/
theorem fds_top (hpc : s.pc = .top ∨ s.pc = .accept) : s.fds = (List.range s.nc).map fun i => (s.conns i).fd := by
  rcases hpc with hpc | hpc <;> simp [Listener.fds, Listener.opens, hpc, Function.comp_def]

theorem owns_poll (hpc : s.pc = .top) : Owns s.held s.pollActs s.held := by
  have huses : s.pollActs = (s.lfd :: s.fds).map .use := by
    simp [Listener.pollActs, fds_top (.inl hpc), Function.comp_def]
  rw [huses]
  apply Owns.uses
  intro r hr
  simpa [Listener.held] using hr

theorem owns_finish (hpc : s.pc = .top) : Owns s.held s.finishActs {s.lfd} := by
  have hreleases : s.finishActs = s.fds.map .release := by
    simp [Listener.finishActs, fds_top (.inl hpc), Function.comp_def]
  have hframe := (Owns.releases s.fds).frame {s.lfd}
  rwa [zero_add, add_comm, Multiset.singleton_add, ← hreleases] at hframe

variable (hpc : s.pc = .service i keep ∨ ∃ re data, s.pc = .feeding i keep re data)
include hpc

theorem opens_turn (hi : i < s.nc) : s.opens = (List.range keep).map s.conns ++
    s.conns i :: (List.range' (i + 1) (s.nc - (i + 1))).map s.conns := by
  rw [← opens_serving hi]
  rcases hpc with hpc | ⟨re, data, hpc⟩
  · simp [Listener.opens, hpc]
  · simp [Listener.opens, hpc]

theorem owns_settle (hk : keep ≤ i) (hi : i < s.nc) (drop : Bool) :
    Owns s.held (s.settleActs i drop) (s.settle i keep drop).1.held := by
  have hopens := opens_turn hpc hi
  cases drop with
  | true =>
      have hheld : s.held = (s.conns i).fd ::ₘ (s.settle i keep true).1.held := by
        rw [Listener.held, Listener.fds, hopens, Listener.held, Listener.fds, opens_dropped,
          List.map_append, List.map_cons, List.map_append, ← Multiset.coe_add, ← Multiset.coe_add,
          ← Multiset.cons_coe, Multiset.add_cons, Multiset.cons_swap]
        rfl
      rw [hheld]
      exact .release _ .nil
  | false =>
      have hheld : (s.settle i keep false).1.held = s.held := by
        rw [Listener.held, Listener.fds, opens_kept hk hi, opens_serving hi, ← hopens]
        rfl
      rw [hheld]
      exact .nil

theorem fd_mem_held (hi : i < s.nc) : (s.conns i).fd ∈ s.held := by
  rw [Listener.held, Listener.fds, opens_turn hpc hi]
  simp

omit hpc

/-! ## Steps -/

theorem store_held (hpc : s.pc = .accept) (fd : Int) :
    Listener.held { s.store fd with pc := .service 0 0 } = fd ::ₘ s.held := by
  have hn : s.nc ∉ List.range s.nc := by simp
  have hfds : Listener.fds { s.store fd with pc := .service 0 0 } = s.fds ++ [fd] := by
    simp [Listener.fds, Listener.opens, hpc, Listener.store, ← List.range_eq_range', List.range_succ,
      map_update_of_not_mem hn]
  rw [Listener.held, hfds, Listener.held, ← Multiset.coe_add, Multiset.coe_singleton, add_comm,
    Multiset.singleton_add, Multiset.cons_swap]
  rfl

theorem noStore_held (hpc : s.pc = .accept) : Listener.held { s with pc := .service 0 0 } = s.held := by
  simp [Listener.held, Listener.fds, Listener.opens, hpc, ← List.range_eq_range']

theorem feedByte_fd (nl : Netlog) (c : Conn) (ch : Byte) : (feedByte nl c ch).2.1.fd = c.fd := by
  unfold feedByte
  split
  · rfl
  · split <;> rfl

/-- A line that is being put together does not change the descriptors. -/
theorem fed_held {re : UInt16} {ch : Byte} {data : List Byte} (hpc : s.pc = .feeding i keep re (ch :: data))
    (nl : Netlog) : Listener.held { s with
      nl := nl
      conns := Function.update s.conns i (feedByte s.nl (s.conns i) ch).2.1
      pc := .feeding i keep re data } = s.held := by
  have hfd : ∀ j, (Function.update s.conns i (feedByte s.nl (s.conns i) ch).2.1 j).fd = (s.conns j).fd := by
    intro j
    by_cases hj : j = i
    · rw [hj, Function.update_self, feedByte_fd]
    · rw [Function.update_of_ne hj]
  simp [Listener.held, Listener.fds, Listener.opens, hpc, Function.comp_def, hfd]

theorem wrap_held (hpc : s.pc = .service i keep) (hi : ¬ i < s.nc) :
    Listener.held { s with nc := keep, pc := .top } = s.held := by
  have hz : s.nc - i = 0 := by omega
  simp [Listener.held, Listener.fds, Listener.opens, hpc, hz]

theorem accept_owns (hpc : s.pc = .accept) (fd : Int) :
    Owns s.held
      (.use s.lfd ::
        if 0 ≤ fd then .acquire fd :: if s.nc < nlMaxConn then [] else [.release fd] else [])
      (Listener.held { (if 0 ≤ fd ∧ s.nc < nlMaxConn then s.store fd else s) with pc := .service 0 0 }) := by
  have hlfd : s.lfd ∈ s.held := Multiset.mem_cons_self _ _
  refine .use _ hlfd ?_
  by_cases hfd : 0 ≤ fd
  · by_cases hroom : s.nc < nlMaxConn
    · rw [if_pos hfd, if_pos hroom, if_pos ⟨hfd, hroom⟩, store_held hpc]
      exact .acquire fd .nil
    · rw [if_pos hfd, if_neg hroom, if_neg (fun h => hroom h.2), noStore_held hpc]
      exact .acquire fd (.release fd .nil)
  · rw [if_neg hfd, if_neg (fun h => hfd h.1), noStore_held hpc]
    exact .nil

theorem step_owns (hs : Slots s) (h : step s x = some (t, es)) : Owns s.held (s.fdActs x) t.held := by
  unfold step at h
  unfold Listener.fdActs
  split at h
  case h_1 hpc =>
    cases h
    simp only [hpc]
    exact owns_finish hpc
  case h_2 eintr hpc =>
    simp only [hpc]
    cases eintr with
    | true =>
        cases h
        rw [if_pos rfl, List.append_nil]
        exact owns_poll hpc
    | false =>
        cases h
        exact (owns_poll hpc).append (owns_finish hpc)
  case h_3 revents stop hpc =>
    simp only [hpc]
    cases stop with
    | true =>
        cases h
        exact (owns_poll hpc).append (owns_finish hpc)
    | false =>
        cases h
        have hheld : Listener.held { s.fillPfds.report revents with pc := .accept } = s.held := by
          simp [Listener.held, Listener.fds, Listener.opens, hpc, Listener.report, Listener.fillPfds]
        simpa [hheld] using owns_poll hpc
  case h_4 fd hpc =>
    simp only [hpc]
    cases h
    by_cases hre : (s.pfds 0).revents &&& pollin = 0
    · simpa [hre] using noStore_held hpc ▸ Owns.nil
    · simpa [hre] using accept_owns hpc fd
  case h_5 i keep data hpc =>
    simp only [hpc]
    by_cases hi : i < s.nc
    · have hk := (hs.service i keep hpc).1
      have hturn := owns_settle (.inl hpc) hk hi
      rw [if_pos hi] at h ⊢
      by_cases hre : (s.pfds (i + 1)).revents &&& pollin = 0
      · simp only [hre, ne_eq, not_true_eq_false, ↓reduceIte, Option.some.injEq] at h ⊢
        simpa [h] using hturn (hangup (s.pfds (i + 1)).revents)
      · simp only [ne_eq, hre, not_false_eq_true, ↓reduceIte] at h ⊢
        refine .use _ (fd_mem_held (.inl hpc) hi) ?_
        cases data with
        | none =>
            cases h
            exact hturn true
        | some bytes =>
            simp only at h
            split at h
            · cases h
              simpa [Listener.settleActs, Listener.held, Listener.fds, Listener.opens, hpc] using Owns.nil
            · cases h
    · rw [if_neg hi] at h ⊢
      cases h
      rw [wrap_held hpc hi]
      exact .nil
  case h_6 i keep re data hpc =>
    simp only [hpc]
    obtain ⟨hk, hi⟩ := hs.feeding i keep re data hpc
    cases data with
    | nil =>
        have hturn := owns_settle (.inr ⟨re, [], hpc⟩) hk hi (hangup re)
        simp only [Option.some.injEq] at h
        simpa [h] using hturn
    | cons ch data =>
        cases h
        rw [fed_held hpc]
        exact .nil
  case h_7 => cases h

theorem step_lfd (h : step s x = some (t, es)) : t.lfd = s.lfd := by
  have hm : Move s es t := Step.move ⟨x, h⟩
  cases hm with
  | readFails | noRead | fed => rename_i i keep _; unfold Listener.settle; split <;> rfl
  | _ => rfl

theorem fds_length (hs : Slots s) : s.fds.length ≤ nlMaxConn := by
  have hn := hs.nc_le
  rw [Listener.fds, List.length_map]
  cases hpc : s.pc with
  | top | accept => simpa [Listener.opens, hpc] using hn
  | service i keep =>
      obtain ⟨hk, hi⟩ := hs.service i keep hpc
      simp only [Listener.opens, hpc, List.length_append, List.length_map, List.length_range, List.length_range']
      omega
  | feeding i keep re data =>
      obtain ⟨hk, hi⟩ := hs.feeding i keep re data hpc
      simp only [Listener.opens, hpc, List.length_append, List.length_map, List.length_range, List.length_range']
      omega
  | done => simp [Listener.opens, hpc]

/-! ## Runs -/

variable {lfd : Int} {store : Logstore} {conns : Nat → Conn} {pfds : Nat → Pollfd} {fds₀ : Finset Int}
  {as : List (Act Int)} {d : Ingest}

structure Ingest.Inv (lfd : Int) (fds₀ : Finset Int) (as : List (Act Int)) (d : Ingest) : Prop where
  slots : Slots d.l
  listens : d.l.lfd = lfd
  owned : Owns {lfd} as d.l.held
  granted : Granted (insert lfd fds₀) as
  live_eq : d.live = Lib.live (insert lfd fds₀) as

theorem ingest_inv (hr : Run Ingest.Step (Ingest.start (listenerStart lfd store conns pfds) fds₀) as d) :
    d.Inv lfd fds₀ as := by
  induction hr with
  | refl =>
      constructor
      case slots => exact listener_slots .refl
      case listens => rfl
      case owned => exact .nil
      case granted => trivial
      case live_eq => rfl
  | snoc _ hst ih =>
      obtain ⟨x, es, hs, rfl, hg, hlive⟩ := hst
      constructor
      case slots => exact ih.slots.step (Step.move ⟨x, hs⟩)
      case listens => exact (step_lfd hs).trans ih.listens
      case owned => exact ih.owned.append (step_owns ih.slots hs)
      case granted => exact granted_append.mpr ⟨ih.granted, ih.live_eq ▸ hg⟩
      case live_eq => rw [hlive, ih.live_eq, live_append]

/-- What is live is what the listener holds and what was there before it. -/
theorem Ingest.Inv.val (hd : d.Inv lfd fds₀ as) (hlfd : lfd ∉ fds₀) :
    d.live.val = d.l.held + fds₀.val ∧ Clean (insert lfd fds₀) as := by
  have hstart : (insert lfd fds₀).val = {lfd} + fds₀.val := by
    rw [Finset.insert_val_of_notMem hlfd, Multiset.singleton_add]
  rw [hd.live_eq]
  exact hd.owned.live hstart hd.granted

theorem ingest_exec_run (xs : List Input) {d' : Ingest} (h : d.exec xs = some (d', as)) :
    Run Ingest.Step d as d' := by
  induction xs generalizing d as with
  | nil =>
      cases h
      exact .refl
  | cons x xs ih =>
      simp only [Ingest.exec, Option.bind_eq_bind, Option.bind_eq_some_iff] at h
      obtain ⟨⟨l, es⟩, hs, h⟩ := h
      split at h
      case isTrue hg =>
        obtain ⟨⟨u, bs⟩, hu, h⟩ := Option.bind_eq_some_iff.mp h
        cases h
        exact (Run.single ⟨x, es, hs, rfl, hg, rfl⟩).append (ih hu)
      case isFalse => cases h

end Vlog.Emulator
