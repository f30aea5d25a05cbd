import Vlog.Runner.Lemmas.Marks
import Vlog.System.Fleet

/-!
# From a runner's record to the collector's file

The bytes that the collector has fed on a runner's connection are the front of what the runner's
writes accepted: whole lines of the runner's records, and the start of one more.
-/

namespace Vlog.System

open Vlog.Lib Vlog.Libc Vlog.Runner Vlog.Emulator

/-! ## The front of a wire -/

def recordBody (q : Int32 × List Byte) : List Byte := recordHead q.1 ++ q.2

theorem numbered_snd (n : Nat) (line : List Byte) : (numbered n line).map Prod.snd = line := by
  simp [numbered]

/-- A front of a connection's bytes: the lines of the records that it ends, and the start of one. -/
structure Front (r : Serving) (bytes : List (Nat × Byte)) (ps : List (Nat × Int32 × List Byte))
    (t : List Byte) : Prop where
  logged : ∀ p ∈ ps, r.logged[p.1]? = some p.2
  ends : recordEnds bytes = ps.map Prod.fst
  bytes : bytes.map Prod.snd = (ps.map fun p => recordBody p.2).flatMap (· ++ [newline]) ++ t
  tail : newline ∉ t ∧ t.length ≤ lineBound

theorem recordBody_clean {q : Int32 × List Byte} (h : Fits False q.2) :
    newline ∉ recordBody q ∧ (recordBody q).length < lineBound := by
  refine ⟨record_newline h.newline, ?_⟩
  have hhead := recordHead_length q.1
  have hshort := h.short
  simp only [recordBody, List.length_append, lineBound, nlLineMax]
  omega

theorem front_of_wire {r : Serving} (hi : r.Inv) {c : Nat} {bytes : List (Nat × Byte)}
    (hpre : bytes <+: r.ship.wire c) : ∃ ps t, Front r bytes ps t := by
  have hlines : r.ship.lines =
      (r.logged.zipIdx.map fun p => (p.2, p.1)).map fun p => numbered p.1 (recordLine p.2) := by
    rw [hi.lines, List.mapIdx_eq_zipIdx_map, List.map_map]
    rfl
  have hlogged : ∀ p ∈ r.logged.zipIdx.map fun p => (p.2, p.1), r.logged[p.1]? = some p.2 := by
    intro p hp
    obtain ⟨q, hq, rfl⟩ := List.mem_map.mp hp
    exact List.mem_zipIdx_iff_getElem?.mp hq
  have hfits : ∀ p : Nat × Int32 × List Byte, r.logged[p.1]? = some p.2 → Fits False p.2.2 := by
    intro p hp
    exact hi.fits _ (List.mem_append_left _ (List.mem_of_getElem? hp))
  obtain ⟨ls, t, rfl, ht, hcase⟩ := (hi.ship.whole c).front hi.ship.lines hpre
  have hsub : ls.Sublist r.ship.lines := by
    rcases hcase with ⟨_, hsub⟩ | ⟨l, _, hsub⟩
    · exact hsub
    · exact (List.sublist_append_left _ _).trans hsub
  rw [hlines] at hsub
  obtain ⟨ps, hps, rfl⟩ := List.sublist_map_iff.mp hsub
  have hin : ∀ p ∈ ps, r.logged[p.1]? = some p.2 := fun p hp => hlogged p (hps.subset hp)
  have hends : ∀ qs : List (Nat × Int32 × List Byte), (∀ p ∈ qs, r.logged[p.1]? = some p.2) →
      recordEnds (qs.map fun p => numbered p.1 (recordLine p.2)).flatten = qs.map Prod.fst := by
    intro qs hqs
    induction qs with
    | nil => rfl
    | cons p qs ih =>
        have hp := (recordBody_clean (hfits p (hqs p List.mem_cons_self))).1
        have htail := ih fun p' hp' => hqs p' (List.mem_cons_of_mem _ hp')
        have hone : recordEnds (numbered p.1 (recordLine p.2)) = [p.1] := recordEnds_numbered hp p.1
        simp [hone, htail]
  refine ⟨ps, t.map Prod.snd, hin, ?_, ?_, ?_, ?_⟩
  · rw [recordEnds_append, hends ps hin, recordEnds_none ht, List.append_nil]
  · simp only [List.map_append, List.map_flatten, List.map_map, List.flatMap_def]
    congr 3
    funext p
    exact numbered_snd _ _
  · intro hm
    obtain ⟨b, hb, hnl⟩ := List.mem_map.mp hm
    have hfalse := ht b hb
    simp [endsRecord, hnl] at hfalse
  · rw [List.length_map]
    rcases hcase with ⟨rfl, _⟩ | ⟨l, hl, hsub'⟩
    · exact Nat.zero_le _
    · have hmem : l ∈ r.ship.lines := hsub'.subset (by simp)
      rw [hlines] at hmem
      obtain ⟨p, hp, rfl⟩ := List.mem_map.mp hmem
      obtain ⟨_, hlt⟩ := recordBody_clean (hfits p (hlogged p hp))
      have hline : (recordLine p.2).length = (recordBody p.2).length + 1 := by
        simp [recordLine, recordBody, Nat.add_assoc]
      have hle := hl.length_le
      rw [numbered, List.length_map, hline] at hle
      omega

/-! ## What the collector makes of it -/

theorem Front.framing {r : Serving} {bytes : List (Nat × Byte)} {ps : List (Nat × Int32 × List Byte)}
    {t : List Byte} (h : Front r bytes ps t) (hi : r.Inv) :
    (Lib.framing newline lineBound (bytes.map Prod.snd)).1.map parseLine =
      ps.map fun p => (p.2.1.toUInt32, p.2.2) := by
  have hfits : ∀ p ∈ ps, Fits False p.2.2 := by
    intro p hp
    exact hi.fits _ (List.mem_append_left _ (List.mem_of_getElem? (h.logged p hp)))
  have hclean : ∀ l ∈ ps.map fun p => recordBody p.2, newline ∉ l ∧ l.length ≤ lineBound := by
    intro l hl
    obtain ⟨p, hp, rfl⟩ := List.mem_map.mp hl
    obtain ⟨hnl, hlt⟩ := recordBody_clean (hfits p hp)
    exact ⟨hnl, hlt.le⟩
  rw [h.bytes, framing_flatMap hclean h.tail.1 h.tail.2, List.map_map]
  apply List.map_congr_left
  intro p hp
  exact parseLine_record p.2.1 (hfits p hp).nul

/-! ## Runs -/

variable {ι : Type*} [DecidableEq ι] {info : Nat → Int × List Byte} {owner : Nat → Option (ι × Nat)}
  {runners : ι → Serving} {l : Listener} {es : List Event} {s : Fleet ι}

theorem Fleet.world_run (hr : Run (Fleet.Step info owner) (Fleet.start runners l) es s) :
    Run World.Step (World.start l) es s.world := by
  induction hr with
  | refl => exact .refl
  | snoc _ hst ih =>
      cases hst with
      | runner _ => simpa using ih
      | collector hst _ => exact ih.snoc hst

theorem Fleet.runners_inv (hstart : ∀ i, (runners i).Inv)
    (hr : Run (Fleet.Step info owner) (Fleet.start runners l) es s) (i : ι) : (s.runners i).Inv := by
  refine hr.invariant (I := fun _ s => (s.runners i).Inv) (hstart i) ?_
  intro _ s _ s' _ hi hst
  cases hst with
  | @runner j r hst =>
      by_cases hj : i = j
      · subst hj
        simpa using hi.step hst
      · simpa [Function.update_of_ne hj] using hi
  | collector _ _ => exact hi

theorem wire_mono {r r' : Serving} (hst : Serving.Step info r r') (c : Nat) :
    r.ship.wire c <+: r'.ship.wire c := by
  cases hst with
  | request => exact List.prefix_rfl
  | log => exact List.prefix_append _ _

theorem Fleet.carried (hr : Run (Fleet.Step info owner) (Fleet.start runners l) es s) :
    s.Carried owner := by
  refine hr.invariant (I := fun _ s => s.Carried owner) (fun _ _ _ => List.nil_prefix) ?_
  intro _ s _ s' _ hi hst
  cases hst with
  | @runner j r hst =>
      intro k p hp
      by_cases hj : p.1 = j
      · obtain ⟨i, c⟩ := p
        subst hj
        refine (hi k _ hp).trans ?_
        simpa [Fleet.wire] using (wire_mono hst c).map Prod.snd
      · simpa [Fleet.wire, Function.update_of_ne hj] using hi k p hp
  | collector _ hcarried => exact hcarried

/-- What the collector has fed on a runner's connection, and what it has made of it. -/
theorem Fleet.connection {lfd : Int} {store : Logstore} {conns : Nat → Conn} {pfds : Nat → Pollfd}
    (hr : Run (Fleet.Step info owner) (Fleet.start runners (listenerStart lfd store conns pfds)) es s)
    {k : Nat} {p : ι × Nat} (hp : owner k = some p) :
    bytesOf k es = ((s.wire p).take (s.fed k es)).map Prod.snd ++ unfedOf k s.world.l.abs.unfed ∧
      ((recordsOf k es).map fun r => (r.level, r.bytes)) =
        (framing newline lineBound (((s.wire p).take (s.fed k es)).map Prod.snd)).1.map parseLine := by
  have hw := Fleet.world_run hr
  have hcol := listener_refines (World.listener_run hw)
  obtain ⟨fed, hbytes, hlines⟩ := Collector.run_framing hcol k
  have hlen : s.fed k es = fed.length := by
    rw [Fleet.fed, hbytes, List.length_append]
    omega
  have hpre : fed <+: (s.wire p).map Prod.snd := by
    refine List.IsPrefix.trans ?_ (Fleet.carried hr k p hp)
    rw [World.conserved hw k, hbytes, List.append_assoc]
    exact List.prefix_append _ _
  have hfed : ((s.wire p).take (s.fed k es)).map Prod.snd = fed := by
    rw [hlen, List.map_take]
    exact (List.prefix_iff_eq_take.mp hpre).symm
  rw [hfed]
  refine ⟨hbytes, ?_⟩
  rw [recordsOf_lines (Collector.run_parsed hcol), hlines]

theorem Fleet.run_runner {i : ι} {r : Serving}
    (hr : Relation.ReflTransGen (Serving.Step info) (s.runners i) r) :
    Run (Fleet.Step info owner) s [] { s with runners := Function.update s.runners i r } := by
  induction hr with
  | refl =>
      rw [Function.update_eq_self]
      exact .refl
  | @tail r r' _ hst ih =>
      have hnext : Serving.Step info (Function.update s.runners i r i) r' := by simpa using hst
      simpa using ih.snoc (.runner hnext)

/-- Steps of the listener that read nothing are steps of the whole. -/
theorem Fleet.run_listener {l' : Listener} (hs : s.Carried owner)
    (hr : Run Emulator.Step s.world.l es l') (hno : ∀ k, bytesOf k es = []) :
    Run (Fleet.Step info owner) s es { s with world := { s.world with l := l' } } := by
  induction hr with
  | refl => exact .refl
  | snoc _ hst ih =>
      have hparts : ∀ j, bytesOf j _ = [] ∧ bytesOf j _ = [] := fun j =>
        List.append_eq_nil_iff.mp ((bytesOf_append j _ _).symm.trans (hno j))
      exact .snoc (ih fun j => (hparts j).1) (.collector (.listen hst fun j => (hparts j).2) hs)

end Vlog.System
