import Vlog.Vhost.Watch

/-!
# The watch table is a finite map

With distinct descriptors the order of the entries says nothing, and each call does to the map what its name
says. In a round, each entry of the snapshot looks its descriptor up when its turn comes.
-/

namespace Vlog.Vhost

open Vlog.Lib
open Vlog.Emulator (Pollfd pollin pollhup)

variable {κ δ : Type*} {w w' : Watches κ δ} {fd fd' : Int} {cb : κ} {data : δ} {o : WatchOp κ δ}
  {ops : List (WatchOp κ δ)} {answer : Nat → List (WatchOp κ δ)} {k : Nat} {pre ps : List Pollfd}
  {es : List (WatchEvent κ δ)}

/-! ## One call -/

/-- The descriptor of a call is an entry between others, or it is none. -/
theorem position_cases (w : Watches κ δ) (fd : Int) :
    (∃ front r back, w.rows = front ++ r :: back ∧ r.fd = fd ∧
        w.rows.findIdx? (Watch.fd · = fd) = some front.length) ∨
      fd ∉ w.rows.map Watch.fd ∧ w.rows.findIdx? (Watch.fd · = fd) = none := by
  cases h : w.rows.findIdx? (Watch.fd · = fd) with
  | some i =>
      obtain ⟨front, r, back, hrows, rfl, hfd⟩ := findIdx_split h
      exact .inl ⟨front, r, back, hrows, hfd, rfl⟩
  | none => exact .inr ⟨findIdx_none h, rfl⟩

theorem setWatch_rows_present {front back : List (Watch κ δ)} {r : Watch κ δ}
    (hrows : w.rows = front ++ r :: back) (hfd : r.fd = fd)
    (h : w.rows.findIdx? (Watch.fd · = fd) = some front.length) (cb : κ) (data : δ) :
    (setWatch w fd cb data).rows = front ++ { fd := fd, cb := cb, data := data } :: back := by
  simp only [setWatch, h]
  rw [hrows, ← hfd]
  simp [List.modify_eq_take_drop]

theorem setWatch_rows_absent (h : w.rows.findIdx? (Watch.fd · = fd) = none) (cb : κ) (data : δ) :
    (setWatch w fd cb data).rows =
      if w.rows.length < maxw then w.rows ++ [{ fd := fd, cb := cb, data := data }] else w.rows := by
  simp only [setWatch, h]
  split
  · rfl
  · rfl

theorem removeWatch_rows_present {front back : List (Watch κ δ)} {r : Watch κ δ}
    (hrows : w.rows = front ++ r :: back)
    (h : w.rows.findIdx? (Watch.fd · = fd) = some front.length) :
    (removeWatch w fd).rows = swapRemove (front ++ r :: back) front.length := by
  simp only [removeWatch, h]
  rw [hrows]

theorem removeWatch_absent (h : w.rows.findIdx? (Watch.fd · = fd) = none) : removeWatch w fd = w := by
  simp only [removeWatch, h]

/-! ## Distinct descriptors -/

theorem setWatch_distinct (hd : Distinct Watch.fd w.rows) (fd : Int) (cb : κ) (data : δ) :
    Distinct Watch.fd (setWatch w fd cb data).rows := by
  rcases position_cases w fd with ⟨front, r, back, hrows, hfd, h⟩ | ⟨hno, h⟩
  · rw [setWatch_rows_present hrows hfd h]
    rw [hrows] at hd
    exact hd.replace hfd.symm
  · rw [setWatch_rows_absent h]
    split
    · exact hd.concat hno
    · exact hd

theorem removeWatch_distinct (hd : Distinct Watch.fd w.rows) (fd : Int) :
    Distinct Watch.fd (removeWatch w fd).rows := by
  rcases position_cases w fd with ⟨front, r, back, hrows, hfd, h⟩ | ⟨hno, h⟩
  · rw [removeWatch_rows_present hrows h]
    rw [hrows] at hd
    exact hd.swapRemove
  · rwa [removeWatch_absent h]

theorem apply_distinct (hd : Distinct Watch.fd w.rows) (o : WatchOp κ δ) :
    Distinct Watch.fd (w.apply o).rows := by
  cases o with
  | set fd cb data => exact setWatch_distinct hd fd cb data
  | remove fd => exact removeWatch_distinct hd fd

theorem applyAll_distinct (hd : Distinct Watch.fd w.rows) (ops : List (WatchOp κ δ)) :
    Distinct Watch.fd (w.applyAll ops).rows := by
  induction ops generalizing w with
  | nil => exact hd
  | cons o ops ih => exact ih (apply_distinct hd o)

theorem applyAll_append (w : Watches κ δ) (ops ops' : List (WatchOp κ δ)) :
    w.applyAll (ops ++ ops') = (w.applyAll ops).applyAll ops' := List.foldl_append

/-! ## What is registered -/

theorem registered_none (h : fd ∉ w.rows.map Watch.fd) : w.registered fd = none := by
  rw [Watches.registered, Option.map_eq_none_iff, List.find?_eq_none]
  intro r hr hfd
  exact h (of_decide_eq_true hfd ▸ List.mem_map_of_mem hr)

/-- A descriptor that is watched, or that the table has room for, is registered as the call says. -/
theorem registered_setWatch (hd : Distinct Watch.fd w.rows)
    (hroom : fd ∈ w.rows.map Watch.fd ∨ w.rows.length < maxw) (fd' : Int) :
    (setWatch w fd cb data).registered fd' = if fd' = fd then some (cb, data) else w.registered fd' := by
  unfold Watches.registered
  rcases position_cases w fd with ⟨front, r, back, hrows, hfd, h⟩ | ⟨hno, h⟩
  · rw [hrows] at hd
    rw [setWatch_rows_present hrows hfd h, find_replace hd hfd.symm, hrows]
    split
    · rfl
    · rfl
  · rw [setWatch_rows_absent h, if_pos (hroom.resolve_left hno), find_concat hno hd]
    split
    · rfl
    · rfl

theorem registered_removeWatch (hd : Distinct Watch.fd w.rows) (fd fd' : Int) :
    (removeWatch w fd).registered fd' = if fd' = fd then none else w.registered fd' := by
  rcases position_cases w fd with ⟨front, r, back, hrows, rfl, h⟩ | ⟨hno, h⟩
  · unfold Watches.registered
    rw [hrows] at hd
    rw [removeWatch_rows_present hrows h, find_swapRemove hd, hrows]
    split
    · rfl
    · rfl
  · rw [removeWatch_absent h]
    split
    · rename_i heq
      rw [heq]
      exact registered_none hno
    · rfl

/-! ## The map -/

theorem lookup_toMap (w : Watches κ δ) (fd : Int) : w.toMap.lookup fd = w.registered fd := by
  rw [Watches.toMap, Finmap.dlookup_list_toFinmap, Watches.registered]
  induction w.rows with
  | nil => rfl
  | cons r rows ih =>
      by_cases hfd : r.fd = fd
      · subst hfd
        simp
      · rw [List.map_cons, List.dlookup_cons_ne _ _ (Ne.symm hfd), ih,
          List.find?_cons_of_neg (by simpa using hfd)]

theorem keys_toMap (w : Watches κ δ) : w.toMap.keys = (w.rows.map Watch.fd).toFinset := by
  ext fd
  rw [Finmap.mem_keys, Watches.toMap, Finmap.mem_list_toFinmap, List.mem_toFinset]
  simp only [List.mem_map]
  constructor
  · rintro ⟨_, r, hr, heq⟩
    cases heq
    exact ⟨r, hr, rfl⟩
  · rintro ⟨r, hr, rfl⟩
    exact ⟨_, r, hr, rfl⟩

theorem card_toMap (hd : Distinct Watch.fd w.rows) : w.toMap.keys.card = w.rows.length := by
  rw [keys_toMap, List.toFinset_card_of_nodup hd, List.length_map]

theorem keys_insert (m : Finmap fun _ : Int => κ × δ) (fd : Int) (c : κ × δ) :
    (m.insert fd c).keys = insert fd m.keys := by
  ext fd'
  rw [Finmap.mem_keys, Finmap.mem_insert, Finset.mem_insert, Finmap.mem_keys]

/-- A call does to the map what it does to the table, where the table has room for the map. -/
theorem toMap_apply (hd : Distinct Watch.fd w.rows) (o : WatchOp κ δ)
    (hroom : (o.onMap w.toMap).keys.card ≤ maxw) : (w.apply o).toMap = o.onMap w.toMap := by
  apply Finmap.ext_lookup
  intro fd'
  rw [lookup_toMap]
  cases o with
  | set fd cb data =>
      have hfits : fd ∈ w.rows.map Watch.fd ∨ w.rows.length < maxw := by
        by_contra hno
        obtain ⟨hnew, hfull⟩ := not_or.mp hno
        have hfd : fd ∉ w.toMap.keys := by
          rw [keys_toMap, List.mem_toFinset]
          exact hnew
        rw [WatchOp.onMap, keys_insert, Finset.card_insert_of_notMem hfd, card_toMap hd] at hroom
        omega
      rw [Watches.apply, registered_setWatch hd hfits, WatchOp.onMap]
      by_cases hfd : fd' = fd
      · rw [if_pos hfd, hfd, Finmap.lookup_insert]
      · rw [if_neg hfd, Finmap.lookup_insert_of_ne _ hfd, lookup_toMap]
  | remove fd =>
      rw [Watches.apply, registered_removeWatch hd, WatchOp.onMap]
      by_cases hfd : fd' = fd
      · rw [if_pos hfd, hfd, Finmap.lookup_erase]
      · rw [if_neg hfd, Finmap.lookup_erase_ne hfd, lookup_toMap]

theorem empty_distinct : Distinct Watch.fd (Watches.empty : Watches κ δ).rows := List.nodup_nil

theorem watched_snoc (ops : List (WatchOp κ δ)) (o : WatchOp κ δ) :
    watched (ops ++ [o]) = o.onMap (watched ops) := by
  rw [watched, List.foldl_append]
  rfl

/-- By induction on the calls from their end. -/
theorem toMap_applyAll (h : WithinTable ops) :
    (Watches.empty.applyAll ops).toMap = watched ops := by
  induction ops using List.reverseRecOn with
  | nil => rfl
  | append_singleton ops o ih =>
      have hprev := ih fun front hfront => h front (hfront.trans (List.prefix_append ops [o]))
      have hroom := h (ops ++ [o]) List.prefix_rfl
      rw [watched_snoc, ← hprev] at hroom
      rw [watched_snoc, ← hprev, applyAll_append]
      exact toMap_apply (applyAll_distinct empty_distinct ops) o hroom

theorem card_watched_le (ops : List (WatchOp κ δ)) : (watched ops).keys.card ≤ ops.length := by
  induction ops using List.reverseRecOn with
  | nil => exact Nat.le_refl 0
  | append_singleton ops o ih =>
      rw [watched_snoc, List.length_append, List.length_singleton]
      cases o with
      | set fd cb data =>
          rw [WatchOp.onMap, keys_insert]
          exact (Finset.card_insert_le _ _).trans (Nat.succ_le_succ ih)
      | remove fd =>
          rw [WatchOp.onMap, Finmap.keys_erase]
          exact Finset.card_erase_le.trans (ih.trans (Nat.le_succ _))

/-- A few calls stay within the table, whatever they are. -/
theorem withinTable_of_length (h : ops.length ≤ maxw) : WithinTable ops := fun front hfront =>
  (card_watched_le front).trans (hfront.length_le.trans h)

/-! ## One round -/

@[simp] theorem opsOf_append (es fs : List (WatchEvent κ δ)) : opsOf (es ++ fs) = opsOf es ++ opsOf fs :=
  List.filterMap_append

@[simp] theorem opsOf_map_op (ops : List (WatchOp κ δ)) : opsOf (ops.map .op) = ops := by
  induction ops with
  | nil => rfl
  | cons o ops ih => exact congrArg (o :: ·) ih

@[simp] theorem callsOf_append (fd : Int) (es fs : List (WatchEvent κ δ)) :
    callsOf fd (es ++ fs) = callsOf fd es ++ callsOf fd fs := List.filterMap_append

@[simp] theorem callsOf_map_op (fd : Int) (ops : List (WatchOp κ δ)) : callsOf fd (ops.map .op) = [] := by
  induction ops with
  | nil => rfl
  | cons o ops ih => exact ih

theorem opsOf_call (fd : Int) (cb : κ) (data : δ) (es : List (WatchEvent κ δ)) :
    opsOf (.call fd cb data :: es) = opsOf es := rfl

theorem callsOf_call_self (fd : Int) (cb : κ) (data : δ) (es : List (WatchEvent κ δ)) :
    callsOf fd (.call fd cb data :: es) = (cb, data) :: callsOf fd es := by
  simp [callsOf]

theorem callsOf_call_other (h : fd ≠ fd') (cb : κ) (data : δ) (es : List (WatchEvent κ δ)) :
    callsOf fd (.call fd' cb data :: es) = callsOf fd es := by
  simp [callsOf, h.symm]

theorem serve_cons (answer : Nat → List (WatchOp κ δ)) (k : Nat) (p : Pollfd) (ps : List Pollfd)
    (w : Watches κ δ) :
    (w.due p = [] ∧ w.serve answer k (p :: ps) = w.serve answer (k + 1) ps) ∨
      ∃ cb data, w.due p = [(cb, data)] ∧
        w.serve answer k (p :: ps) =
          (((w.applyAll (answer k)).serve answer (k + 1) ps).1,
            .call p.fd cb data :: ((answer k).map .op ++
              ((w.applyAll (answer k)).serve answer (k + 1) ps).2)) := by
  rw [Watches.serve, Watches.due, Watches.registered]
  by_cases hin : p.revents &&& pollin = 0
  · exact .inl ⟨if_pos hin, if_pos hin⟩
  · rw [if_neg hin, if_neg hin]
    cases w.rows.find? (Watch.fd · = p.fd) with
    | none => exact .inl ⟨rfl, rfl⟩
    | some r => exact .inr ⟨r.cb, r.data, rfl, rfl⟩

/-- The table behind the loop is the one that the calls of the loop make. -/
theorem serve_table (answer : Nat → List (WatchOp κ δ)) (k : Nat) (ps : List Pollfd) (w : Watches κ δ) :
    (w.serve answer k ps).1 = w.applyAll (opsOf (w.serve answer k ps).2) := by
  induction ps generalizing k w with
  | nil => rfl
  | cons p ps ih =>
      rcases serve_cons answer k p ps w with ⟨_, hserve⟩ | ⟨cb, data, _, hserve⟩
      · rw [hserve]
        exact ih (k + 1) w
      · rw [hserve, opsOf_call, opsOf_append, opsOf_map_op, applyAll_append]
        exact ih (k + 1) _

theorem serve_append (answer : Nat → List (WatchOp κ δ)) (k : Nat) (pre ps : List Pollfd)
    (w : Watches κ δ) :
    w.serve answer k (pre ++ ps) =
      (((w.serve answer k pre).1.serve answer (k + pre.length) ps).1,
        (w.serve answer k pre).2 ++ ((w.serve answer k pre).1.serve answer (k + pre.length) ps).2) := by
  induction pre generalizing k w with
  | nil => rfl
  | cons p pre ih =>
      have hlen : k + (p :: pre).length = k + 1 + pre.length := by
        rw [List.length_cons]
        omega
      rw [List.cons_append, hlen]
      rcases serve_cons answer k p (pre ++ ps) w with ⟨hdue, hserve⟩ | ⟨cb, data, hdue, hserve⟩
      · rcases serve_cons answer k p pre w with ⟨_, hpre⟩ | ⟨_, _, hdue', _⟩
        · rw [hserve, hpre, ih]
        · cases hdue.symm.trans hdue'
      · rcases serve_cons answer k p pre w with ⟨hdue', _⟩ | ⟨_, _, hdue', hpre⟩
        · cases hdue.symm.trans hdue'
        · cases hdue.symm.trans hdue'
          rw [hserve, hpre, ih]
          simp

theorem callsOf_serve_other (h : fd ∉ ps.map Pollfd.fd) (answer : Nat → List (WatchOp κ δ)) (k : Nat)
    (w : Watches κ δ) : callsOf fd (w.serve answer k ps).2 = [] := by
  induction ps generalizing k w with
  | nil => rfl
  | cons p ps ih =>
      rw [List.map_cons, List.mem_cons, not_or] at h
      obtain ⟨hne, hrest⟩ := h
      rcases serve_cons answer k p ps w with ⟨_, hserve⟩ | ⟨cb, data, _, hserve⟩
      · rw [hserve]
        exact ih hrest (k + 1) w
      · rw [hserve, callsOf_call_other hne, callsOf_append, callsOf_map_op, List.nil_append]
        exact ih hrest (k + 1) _

/-- With distinct descriptors, an entry gets what is due when its turn comes, and nothing before or behind
it. -/
theorem serve_entry {p : Pollfd} {post : List Pollfd}
    (hd : ((pre ++ p :: post).map Pollfd.fd).Nodup) (answer : Nat → List (WatchOp κ δ)) (k : Nat)
    (w : Watches κ δ) :
    let t := w.serve answer k pre
    (∃ fs, (w.serve answer k (pre ++ p :: post)).2 =
        t.2 ++ (t.1.due p).map (fun c => .call p.fd c.1 c.2) ++ fs) ∧
      callsOf p.fd (w.serve answer k (pre ++ p :: post)).2 = t.1.due p := by
  intro t
  rw [List.map_append, List.map_cons] at hd
  obtain ⟨hnew, _⟩ := List.nodup_cons.mp (List.perm_middle.nodup_iff.mp hd)
  rw [List.mem_append, not_or] at hnew
  have hpre : callsOf p.fd t.2 = [] := callsOf_serve_other hnew.1 answer k w
  have hpost : ∀ k w, callsOf p.fd (Watches.serve answer k post w).2 = [] := fun k w =>
    callsOf_serve_other hnew.2 answer k w
  rw [serve_append, callsOf_append, hpre, List.nil_append]
  rcases serve_cons answer (k + pre.length) p post t.1 with ⟨hdue, hserve⟩ | ⟨cb, data, hdue, hserve⟩
  · rw [hserve, hdue]
    constructor
    · exact ⟨(t.1.serve answer (k + pre.length + 1) post).2, by rw [List.map_nil, List.append_nil]⟩
    · exact hpost _ _
  · rw [hserve, hdue, callsOf_call_self, callsOf_append, callsOf_map_op, List.nil_append, hpost]
    constructor
    · refine ⟨(answer (k + pre.length)).map .op ++
        ((t.1.applyAll (answer (k + pre.length))).serve answer (k + pre.length + 1) post).2, ?_⟩
      rw [List.append_assoc]
      rfl
    · rfl

theorem polled_fds (w : Watches κ δ) (x : Round κ δ) :
    (w.polled x).map Pollfd.fd = w.rows.map Watch.fd := by
  apply List.ext_getElem
  · simp [Watches.polled]
  · intro i h₁ h₂
    simp [Watches.polled]

/-- A round is its turn behind the whole snapshot. -/
theorem round_turn {x : Round κ δ} (h : w.round x = some (w', es)) : (w', es) = w.turn x (w.polled x) := by
  unfold Watches.round at h
  split at h
  · cases h
  · cases h
    rfl

theorem turn_table (w : Watches κ δ) (x : Round κ δ) (pre : List Pollfd) :
    (w.turn x pre).1 = w.applyAll (opsOf (w.turn x pre).2) := by
  rw [Watches.turn, opsOf_append, opsOf_map_op, applyAll_append]
  exact serve_table _ _ _ _

/-! ## Runs -/

theorem round_distinct (hd : Distinct Watch.fd w.rows) {x : Round κ δ} (h : w.round x = some (w', es)) :
    w' = w.applyAll (opsOf es) ∧ Distinct Watch.fd w'.rows := by
  have htable : w' = w.applyAll (opsOf es) := by
    have hturn := turn_table w x (w.polled x)
    rwa [← round_turn h] at hturn
  rw [htable]
  exact ⟨rfl, applyAll_distinct hd _⟩

/-- Between two rounds the table is what all calls so far have made of the empty one. -/
theorem run_table (hr : Run Watches.Step Watches.empty es w) :
    w = Watches.empty.applyAll (opsOf es) ∧ Distinct Watch.fd w.rows := by
  refine hr.invariant
    (I := fun es w => w = Watches.empty.applyAll (opsOf es) ∧ Distinct Watch.fd w.rows)
    ⟨rfl, empty_distinct⟩ ?_
  intro es w fs w' _ hi hst
  obtain ⟨x, hx⟩ := hst
  obtain ⟨htable, hd⟩ := round_distinct hi.2 hx
  rw [opsOf_append, applyAll_append, ← hi.1]
  exact ⟨htable, hd⟩

end Vlog.Vhost
