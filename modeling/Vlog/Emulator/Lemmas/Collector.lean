import Vlog.Emulator.Collector

/-!
# The invariants of the collector

Each connection is framed by itself, and the records are numbered in the order of the appends.
-/

namespace Vlog.Emulator

open Vlog.Lib Vlog.Libc

variable {es fs : List Event} {h h' : Collector}

/-! ## One connection -/

theorem Framed.other {k : Nat} {buf data : List Byte} (hf : Framed es k buf data)
    (hb : bytesOf k fs = []) (hl : linesOf k fs = []) : Framed (es ++ fs) k buf data := by
  obtain ⟨fed, h₁, h₂⟩ := hf
  exact ⟨fed, by simp [hb, h₁], by simp [hl, h₂]⟩

theorem Framed.read {k : Nat} {buf : List Byte} (hf : Framed es k buf []) (bytes : List Byte) :
    Framed (es ++ [.read k bytes]) k buf bytes := by
  obtain ⟨fed, h₁, h₂⟩ := hf
  refine ⟨fed, ?_, ?_⟩
  · rw [bytesOf_append, h₁, bytesOf_read, if_pos rfl, List.append_nil]
  · rw [linesOf_append, linesOf_read, List.append_nil, h₂]

theorem linesOf_processLines (nl : Netlog) (k j : Nat) (ls : List (List Byte)) :
    linesOf j (processLines nl k ls).2 = if k = j then ls else [] := by
  induction ls generalizing nl with
  | nil => simp [processLines, linesOf]
  | cons l ls ih =>
      have hl := ih (processLine nl l).1
      by_cases hk : k = j <;> simp_all [processLines, linesOf]

theorem bytesOf_processLines (nl : Netlog) (k j : Nat) (ls : List (List Byte)) :
    bytesOf j (processLines nl k ls).2 = [] := by
  induction ls generalizing nl with
  | nil => rfl
  | cons l ls ih => simpa [processLines, bytesOf] using ih (processLine nl l).1

theorem Framed.byte {c : Conn} {ch : Byte} {data : List Byte} (nl : Netlog)
    (hf : Framed es c.serial c.buf (ch :: data)) :
    Framed (es ++ (feedByte nl c ch).2.2) c.serial (feedByte nl c ch).2.1.buf data := by
  obtain ⟨fed, h₁, h₂⟩ := hf
  refine ⟨fed ++ [ch], ?_, ?_⟩
  · simp [feedByte_push, bytesOf_processLines, h₁]
  · simp [pushAll_snoc, h₂, feedByte_push, linesOf_processLines]

theorem feedByte_serial (nl : Netlog) (c : Conn) (ch : Byte) :
    (feedByte nl c ch).2.1.serial = c.serial := by
  rw [feedByte_push]

theorem feedByte_other {c : Conn} {k : Nat} (hk : c.serial ≠ k) (nl : Netlog) (ch : Byte) :
    bytesOf k (feedByte nl c ch).2.2 = [] ∧ linesOf k (feedByte nl c ch).2.2 = [] := by
  rw [feedByte_push]
  exact ⟨bytesOf_processLines .., by simp [linesOf_processLines, hk]⟩

/-! ## All connections -/

theorem Collector.Inv.silent (hi : h.Inv es) (hsub : h'.conns.Sublist h.conns)
    (hacc : h'.accepted = h.accepted) (hu : ∀ k, unfedOf k h'.unfed = unfedOf k h.unfed)
    (hb : ∀ k, bytesOf k fs = []) (hl : ∀ k, linesOf k fs = []) : h'.Inv (es ++ fs) where
  serials := hi.serials.sublist (hsub.map _)
  serial_lt c hc := by
    rw [hacc]
    exact hi.serial_lt c (hsub.subset hc)
  framed k := by
    obtain ⟨buf, hf, hbuf⟩ := hi.framed k
    rw [hu]
    exact ⟨buf, hf.other (hb k) (hl k), fun c hc => hbuf c (hsub.subset hc)⟩
  fresh k hk := by
    rw [hacc] at hk
    obtain ⟨hf, hu'⟩ := hi.fresh k hk
    exact ⟨hf.other (hb k) (hl k), by rw [hu, hu']⟩

theorem Collector.Inv.accept (hi : h.Inv es) (fd : Int) :
    Collector.Inv es { h with
      conns := h.conns ++ [{ fd := fd, buf := [], serial := h.accepted }]
      accepted := h.accepted + 1 } where
  serials := by
    rw [List.map_append, List.nodup_append]
    refine ⟨hi.serials, by simp, ?_⟩
    intro a ha b hb
    obtain ⟨c, hc, rfl⟩ := List.mem_map.mp ha
    have hlt := hi.serial_lt c hc
    simp only [List.map_cons, List.map_nil, List.mem_singleton] at hb
    omega
  serial_lt c hc := by
    rcases List.mem_append.mp hc with hc | hc
    · exact Nat.lt_succ_of_lt (hi.serial_lt c hc)
    · rw [List.mem_singleton.mp hc]
      exact Nat.lt_succ_self _
  framed k := by
    by_cases hk : k = h.accepted
    · subst hk
      obtain ⟨hf, hu⟩ := hi.fresh h.accepted (Nat.le_refl _)
      refine ⟨[], by simpa [hu] using hf, ?_⟩
      intro c hc he
      rcases List.mem_append.mp hc with hc | hc
      · exact absurd (hi.serial_lt c hc) (by omega)
      · rw [List.mem_singleton.mp hc]
    · obtain ⟨buf, hf, hbuf⟩ := hi.framed k
      refine ⟨buf, hf, ?_⟩
      intro c hc he
      rcases List.mem_append.mp hc with hc | hc
      · exact hbuf c hc he
      · rw [List.mem_singleton.mp hc] at he
        exact absurd he.symm hk
  fresh k hk := hi.fresh k (Nat.le_of_succ_le hk)

theorem Collector.Inv.read (hi : h.Inv es) {c : Conn} (hc : c ∈ h.conns) (hu : h.unfed = none)
    (bytes : List Byte) :
    Collector.Inv (es ++ [.read c.serial bytes]) { h with unfed := some (c.serial, bytes) } where
  serials := hi.serials
  serial_lt := hi.serial_lt
  framed k := by
    obtain ⟨buf, hf, hbuf⟩ := hi.framed k
    rw [hu] at hf
    refine ⟨buf, ?_, hbuf⟩
    by_cases he : c.serial = k
    · subst he
      simpa [unfedOf] using Framed.read hf bytes
    · have hb : bytesOf k [.read c.serial bytes] = [] := by simp [he]
      simpa [unfedOf, he] using Framed.other hf hb (linesOf_read ..)
  fresh k hk := by
    obtain ⟨hf, _⟩ := hi.fresh k hk
    have hlt := hi.serial_lt c hc
    have he : c.serial ≠ k := by simp only at hk; omega
    have hb : bytesOf k [.read c.serial bytes] = [] := by simp [he]
    exact ⟨hf.other hb (linesOf_read ..), by simp [unfedOf, he]⟩

theorem Collector.Inv.byte (hi : h.Inv es) {front back : List Conn} {c : Conn} {ch : Byte}
    {data : List Byte} (hc : h.conns = front ++ c :: back)
    (hu : h.unfed = some (c.serial, ch :: data)) :
    Collector.Inv (es ++ (feedByte h.nl c ch).2.2) { h with
      nl := (feedByte h.nl c ch).1
      conns := front ++ (feedByte h.nl c ch).2.1 :: back
      unfed := some (c.serial, data) } := by
  have hmem : c ∈ h.conns := by simp [hc]
  have hser := feedByte_serial h.nl c ch
  have hnod := hi.serials
  rw [hc] at hnod
  constructor
  case serials => simpa [hser] using hnod
  case serial_lt =>
    intro d hd
    simp only [List.mem_append, List.mem_cons] at hd
    rcases hd with hd | rfl | hd
    · exact hi.serial_lt d (by simp [hc, hd])
    · rw [hser]
      exact hi.serial_lt c hmem
    · exact hi.serial_lt d (by simp [hc, hd])
  case framed =>
    intro k
    obtain ⟨buf, hf, hbuf⟩ := hi.framed k
    rw [hu] at hf
    by_cases he : c.serial = k
    · subst he
      obtain rfl := hbuf c hmem rfl
      refine ⟨_, by simpa [unfedOf] using Framed.byte h.nl (by simpa [unfedOf] using hf), ?_⟩
      -- Serials are not shared, so `c` is the only connection that the byte belongs to.
      intro d hd hds
      simp only [List.map_append, List.map_cons, List.nodup_middle, List.nodup_cons,
        List.mem_append, List.mem_map, not_or, not_exists, not_and] at hnod
      simp only [List.mem_append, List.mem_cons] at hd
      rcases hd with hd | rfl | hd
      · exact absurd hds (hnod.1.1 d hd)
      · rfl
      · exact absurd hds (hnod.1.2 d hd)
    · obtain ⟨hb, hl⟩ := feedByte_other he h.nl ch
      refine ⟨buf, by simpa [unfedOf, he] using Framed.other hf hb hl, ?_⟩
      intro d hd hds
      simp only [List.mem_append, List.mem_cons] at hd
      rcases hd with hd | rfl | hd
      · exact hbuf d (by simp [hc, hd]) hds
      · rw [hser] at hds
        exact absurd hds he
      · exact hbuf d (by simp [hc, hd]) hds
  case fresh =>
    intro k hk
    obtain ⟨hf, _⟩ := hi.fresh k hk
    have hlt := hi.serial_lt c hmem
    have he : c.serial ≠ k := by simp only at hk; omega
    obtain ⟨hb, hl⟩ := feedByte_other he h.nl ch
    exact ⟨hf.other hb hl, by simp [unfedOf, he]⟩

theorem bytesOf_close (k : Nat) (cs : List Conn) :
    bytesOf k (cs.map fun c => .close c.serial) = [] := by
  simp [bytesOf]

theorem linesOf_close (k : Nat) (cs : List Conn) :
    linesOf k (cs.map fun c => .close c.serial) = [] := by
  simp [linesOf]

theorem Collector.Inv.step (hi : h.Inv es) (hst : Collector.Step h fs h') : h'.Inv (es ++ fs) := by
  cases hst with
  | stay => exact hi.silent (List.Sublist.refl _) rfl (fun _ => rfl) (fun _ => rfl) fun _ => rfl
  | accept fd => simpa using hi.accept fd
  | read hc hu => exact hi.read hc hu _
  | byte hc hu => exact hi.byte hc hu
  | fed hu =>
      refine hi.silent (List.Sublist.refl _) rfl ?_ (fun _ => rfl) fun _ => rfl
      intro k
      simp [unfedOf, hu]
  | @close front c back hc hu =>
      refine hi.silent ?_ rfl ?_ (fun _ => rfl) fun _ => rfl
      · rw [hc]
        exact (List.sublist_cons_self c back).append_left front
      · intro k
        rcases hu with hu | hu <;> simp [unfedOf, hu]
  | leave =>
      exact hi.silent (List.nil_sublist _) rfl (fun _ => rfl) (fun k => bytesOf_close k _)
        fun k => linesOf_close k _

/-! ## The records -/

theorem records_processLines (nl : Netlog) (k : Nat) (ls : List (List Byte)) {r : Record}
    (hr : r ∈ records (processLines nl k ls).2) : ∃ l ∈ ls, r.bytes = (parseLine l).2 := by
  induction ls generalizing nl with
  | nil => simp [processLines, records] at hr
  | cons l ls ih =>
      have hcons : r = (processLine nl l).2 ∨
          r ∈ records (processLines (processLine nl l).1 k ls).2 := by
        simpa [processLines, records] using hr
      rcases hcons with rfl | hr
      · exact ⟨l, by simp, rfl⟩
      · obtain ⟨l', hl', he⟩ := ih _ hr
        exact ⟨l', by simp [hl'], he⟩

theorem Numbered.processLines {store : Logstore} {nl : Netlog} (hn : Numbered store es nl) (k : Nat)
    (ls : List (List Byte)) :
    Numbered store (es ++ (processLines nl k ls).2) (processLines nl k ls).1 := by
  induction ls generalizing nl es with
  | nil => simpa [Emulator.processLines] using hn
  | cons l ls ih =>
      have hone : Numbered store (es ++ [.line k l (processLine nl l).2]) (processLine nl l).1 := by
        constructor
        case seq => simp [processLine, hn.seq, UInt32.ofNat_add]
        case numbers =>
          intro i r hi
          rw [records_append, records_line] at hi
          by_cases hlt : i < (records es).length
          · rw [List.getElem?_append_left hlt] at hi
            exact hn.numbers i r hi
          · rw [List.getElem?_append_right (by omega), List.getElem?_singleton] at hi
            split at hi
            · cases hi
              have hi' : i = (records es).length := by omega
              rw [hi']
              exact hn.seq
            · cases hi
        case file => simp [processLine, hn.file]
      have := ih hone
      simpa [Emulator.processLines] using this

theorem Collector.Step.numbered {store : Logstore} (hst : Collector.Step h fs h')
    (hn : Numbered store es h.nl) : Numbered store (es ++ fs) h'.nl := by
  have hsilent : ∀ nl fs, records fs = [] → Numbered store es nl → Numbered store (es ++ fs) nl :=
    fun nl fs hr hn =>
      ⟨by simp [hr, hn.seq], fun i r hi => hn.numbers i r (by simpa [hr] using hi),
        by simp [hr, hn.file]⟩
  cases hst with
  | stay => exact hsilent _ _ rfl hn
  | accept fd => exact hsilent _ _ rfl hn
  | read _ _ => exact hsilent _ _ rfl hn
  | @byte front c back ch data _ _ =>
      rw [feedByte_push]
      exact hn.processLines c.serial _
  | fed _ => exact hsilent _ _ rfl hn
  | close _ _ => exact hsilent _ _ rfl hn
  | leave => exact hsilent _ _ (by simp [records]) hn

theorem Collector.Inv.bufOk (hi : h.Inv es) {c : Conn} (hc : c ∈ h.conns) :
    BufOk newline lineBound c.buf := by
  obtain ⟨buf, ⟨fed, _, hp⟩, hbuf⟩ := hi.framed c.serial
  have hempty : BufOk newline lineBound [] := ⟨by simp, by simp⟩
  have hok := pushAll_bufOk (by decide) hempty fed
  rw [hp] at hok
  rwa [hbuf c hc rfl]

theorem Collector.Step.clean (hst : Collector.Step h fs h') (hi : h.Inv es)
    (hc : ∀ r ∈ records es, newline ∉ r.bytes) : ∀ r ∈ records (es ++ fs), newline ∉ r.bytes := by
  have hsilent : ∀ fs, records fs = [] → ∀ r ∈ records (es ++ fs), newline ∉ r.bytes :=
    fun fs hr r hm => hc r (by simpa [hr] using hm)
  cases hst with
  | stay => exact hsilent _ rfl
  | accept fd => exact hsilent _ rfl
  | read _ _ => exact hsilent _ rfl
  | @byte front c back ch data hconns _ =>
      have hbuf := hi.bufOk (c := c) (by simp [hconns])
      intro r hr
      rw [records_append, List.mem_append] at hr
      rcases hr with hr | hr
      · exact hc r hr
      · rw [feedByte_push] at hr
        obtain ⟨l, hl, he⟩ := records_processLines _ _ _ hr
        have hlbuf := push_line (Option.mem_toList.mp hl)
        rw [he, hlbuf]
        exact newline_not_mem_parseLine hbuf.1
  | fed _ => exact hsilent _ rfl
  | close _ _ => exact hsilent _ rfl
  | leave => exact hsilent _ (by simp [records])

/-! ## Runs of the collector -/

theorem Collector.run_inv {store : Logstore}
    (hr : Run Collector.Step (Collector.start store) es h) : h.Inv es := by
  refine hr.invariant ?_ fun es h fs h' _ hi hst => hi.step hst
  refine ⟨by simp [Collector.start], by simp [Collector.start], ?_, ?_⟩
  · intro k
    exact ⟨[], ⟨[], rfl, rfl⟩, by simp [Collector.start]⟩
  · intro k _
    exact ⟨⟨[], rfl, rfl⟩, rfl⟩

theorem Collector.run_numbered {store : Logstore}
    (hr : Run Collector.Step (Collector.start store) es h) : Numbered store es h.nl := by
  refine hr.invariant (I := fun es h => Numbered store es h.nl) ?_
    fun es h fs h' _ hn hst => hst.numbered hn
  exact ⟨rfl, by simp [records], by simp [records, Collector.start, netlogStart]⟩

theorem Collector.run_clean {store : Logstore}
    (hr : Run Collector.Step (Collector.start store) es h) :
    ∀ r ∈ records es, newline ∉ r.bytes :=
  hr.invariant (I := fun es _ => ∀ r ∈ records es, newline ∉ r.bytes) (by simp [records])
    fun _ _ _ _ hr hc hst => hst.clean (run_inv hr) hc

/-- The lines handed on for a connection are the framing of its bytes that have been fed. -/
theorem Collector.run_framing {store : Logstore}
    (hr : Run Collector.Step (Collector.start store) es h) (k : Nat) :
    ∃ fed, bytesOf k es = fed ++ unfedOf k h.unfed ∧
      linesOf k es = (framing newline lineBound fed).1 := by
  obtain ⟨buf, ⟨fed, hb, hp⟩, _⟩ := (run_inv hr).framed k
  refine ⟨fed, hb, ?_⟩
  rw [← pushAll_framing (by decide), hp]

end Vlog.Emulator
