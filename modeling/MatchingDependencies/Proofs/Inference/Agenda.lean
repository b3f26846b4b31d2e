import MatchingDependencies.Proofs.Inference.Rounds

/-!
# The agenda of inference

The stack, the profiles ahead and the left records that are still to come make up
one list of profiles. A call looks at the beginning of this list, applies the
profiles that were not applied before, each once, and leaves the rest.
-/

set_option autoImplicit false

namespace MatchingDependencies

namespace Inference

/-! ## Profiles that were not applied -/

def fresh : Applied → List Scores → List Scores
  | _, [] => []
  | a, v::vs => if a.contains v.ranks then fresh a vs else v :: fresh (a.insert v.ranks) vs

def insertAll (a : Applied) (vs : List Scores) : Applied :=
  vs.foldl (fun a v => a.insert v.ranks) a

theorem insertAll_append (a : Applied) (vs ws : List Scores) :
    insertAll a (vs ++ ws) = insertAll (insertAll a vs) ws :=
  List.foldl_append

theorem contains_insertAll_iff (a : Applied) (vs : List Scores) (ranks : List UInt64) :
    (insertAll a vs).contains ranks = true ↔
      a.contains ranks = true ∨ ∃ v ∈ vs, v.ranks = ranks := by
  induction vs generalizing a with
  | nil => simp [insertAll]
  | cons v vs ih =>
    have rest := ih (a.insert v.ranks)
    simp only [insertAll, List.foldl_cons] at rest ⊢
    rw [rest]
    simp [or_assoc, or_left_comm]

theorem fresh_append (a : Applied) (vs ws : List Scores) :
    fresh a (vs ++ ws) = fresh a vs ++ fresh (insertAll a (fresh a vs)) ws := by
  induction vs generalizing a with
  | nil => rfl
  | cons v vs ih =>
    rw [List.cons_append, fresh, fresh]
    split
    · exact ih a
    · rw [ih, List.cons_append]
      rfl

theorem fresh_subset (a : Applied) (vs : List Scores) : fresh a vs ⊆ vs := by
  induction vs generalizing a with
  | nil => simp [fresh]
  | cons v vs ih =>
    rw [fresh]
    split
    · exact List.Subset.trans (ih a) (List.subset_cons_self v vs)
    · exact List.cons_subset_cons v (ih _)

theorem not_contains_of_mem_fresh (a : Applied) (vs : List Scores) :
    ∀ v ∈ fresh a vs, a.contains v.ranks = false := by
  induction vs generalizing a with
  | nil => simp [fresh]
  | cons w vs ih =>
    intro v hv
    rw [fresh] at hv
    split at hv
    · exact ih a v hv
    · next new =>
      rcases List.mem_cons.mp hv with rfl | hv
      · simpa using new
      · have later := ih _ v hv
        rw [Std.HashSet.contains_insert, Bool.or_eq_false_iff] at later
        exact later.2

theorem fresh_nodup (a : Applied) (vs : List Scores) :
    ((fresh a vs).map Scores.ranks).Nodup := by
  induction vs generalizing a with
  | nil => exact List.nodup_nil
  | cons v vs ih =>
    rw [fresh]
    split
    · exact ih a
    · rw [List.map_cons, List.nodup_cons]
      refine ⟨fun mem => ?_, ih _⟩
      obtain ⟨w, hw, same⟩ := List.mem_map.mp mem
      have later := not_contains_of_mem_fresh _ vs w hw
      rw [Std.HashSet.contains_insert, same] at later
      simp at later

theorem contains_or_fresh (a : Applied) (vs : List Scores) :
    ∀ v ∈ vs, a.contains v.ranks = true ∨ ∃ w ∈ fresh a vs, w.ranks = v.ranks := by
  induction vs generalizing a with
  | nil => simp
  | cons w vs ih =>
    intro v hv
    rw [fresh]
    split
    · next old =>
      rcases List.mem_cons.mp hv with rfl | hv
      · exact .inl old
      · exact ih a v hv
    · rcases List.mem_cons.mp hv with rfl | hv
      · exact .inr ⟨v, List.mem_cons_self, rfl⟩
      · rcases ih _ v hv with known | ⟨u, hu, same⟩
        · rw [Std.HashSet.contains_insert, Bool.or_eq_true, beq_iff_eq] at known
          exact known.symm.imp_right fun same => ⟨w, List.mem_cons_self, same⟩
        · exact .inr ⟨u, List.mem_cons_of_mem _ hu, same⟩

/-! ## Looking along a list of profiles -/

variable {q : Setting} {i i' i'' : Inference} {l l' l'' : Lattice} {t t' : Turn}
  {vs ws : List Scores} {w : Workspace}

def refuteEach (q : Setting) (l : Lattice) (vs : List Scores) : Lattice :=
  vs.foldl (fun l v => (refuteAll q l v).1) l

/-- What looking at profiles has done: the fresh ones were applied, and nothing else. -/
structure Looked (q : Setting) (i : Inference) (l : Lattice) (vs : List Scores) (i' : Inference)
    (l' : Lattice) : Prop where
  applied : i'.applied = insertAll i.applied (fresh i.applied vs)
  lattice : l' = refuteEach q l (fresh i.applied vs)
  count : i'.profileCount = i.profileCount + (fresh i.applied vs).length

theorem Looked.nil (q : Setting) (i : Inference) (l : Lattice) : Looked q i l [] i l :=
  ⟨rfl, rfl, rfl⟩

theorem Looked.aside (h : Looked q i l vs i' l') (stack : List Counterexample)
    (ahead : List Scores) (nextLeft : Nat) :
    Looked q i l vs { i' with stack, ahead, nextLeft } l' :=
  ⟨h.applied, h.lattice, h.count⟩

theorem Looked.append (h : Looked q i l vs i' l') (h' : Looked q i' l' ws i'' l'') :
    Looked q i l (vs ++ ws) i'' l'' := by
  have applied := h'.applied
  have lattice := h'.lattice
  have count := h'.count
  rw [h.applied] at applied lattice count
  rw [h.lattice] at lattice
  constructor
  · rw [applied, fresh_append, insertAll_append]
  · rw [lattice, fresh_append, refuteEach, refuteEach, refuteEach, List.foldl_append]
  · rw [count, h.count, fresh_append, List.length_append, Nat.add_assoc]

structure Goes (q : Setting) (t : Turn) (vs : List Scores) (result : Bool × Turn) : Prop where
  looked : Looked q t.inference t.lattice vs result.2.inference result.2.lattice
  stopped : result.1 = false → fresh t.inference.applied vs ≠ []

theorem Goes.nil (q : Setting) (t : Turn) : Goes q t [] (true, t) := ⟨.nil .., nofun⟩

theorem Goes.append {result : Bool × Turn} (h : Goes q t vs (true, t'))
    (h' : Goes q t' ws result) : Goes q t (vs ++ ws) result := by
  refine ⟨h.looked.append h'.looked, fun stopped => ?_⟩
  have some := h'.stopped stopped
  rw [h.looked.applied] at some
  rw [fresh_append]
  exact List.append_ne_nil_of_right_ne_nil _ some

theorem check_goes (q : Setting) (t : Turn) (v : Scores) : Goes q t [v] (check q t v) := by
  rw [check]
  split
  · next old => exact ⟨⟨by simp [fresh, old, insertAll], by simp [fresh, old, refuteEach],
      by simp [fresh, old]⟩, by simp⟩
  · next new =>
    have only : fresh t.inference.applied [v] = [v] := by simp [fresh, new]
    dsimp only [apply]
    split <;> exact ⟨⟨by rw [only]; rfl, by rw [only]; rfl, by rw [only]; rfl⟩, by simp [only]⟩

def profilesFrom (d : Dataset) (first count : Nat) : List Scores :=
  (List.range' first count).flatMap fun r => (d.profilesOf r).reverse

def stackProfiles (d : Dataset) (stack : List Counterexample) : List Scores :=
  stack.map fun c => d.profile c.left c.right

theorem checkStack_goes (q : Setting) (stack : List Counterexample) (t : Turn) :
    ∃ seen, Goes q t seen (checkStack q stack t) ∧
      stackProfiles q.data stack =
        seen ++ stackProfiles q.data (checkStack q stack t).2.inference.stack ∧
      (checkStack q stack t).2.inference.ahead = t.inference.ahead ∧
      (checkStack q stack t).2.inference.nextLeft = t.inference.nextLeft := by
  induction stack generalizing t with
  | nil => exact ⟨[], ⟨⟨rfl, rfl, rfl⟩, nofun⟩, rfl, rfl, rfl⟩
  | cons c stack ih =>
    have first := check_goes q t (q.data.profile c.left c.right)
    obtain ⟨-, ahead, nextLeft⟩ := check_keeps q t (q.data.profile c.left c.right)
    rw [checkStack]
    generalize check q t _ = result at first ahead nextLeft
    obtain ⟨goOn, t'⟩ := result
    cases goOn with
    | true =>
      obtain ⟨seen, goes, same, ahead', nextLeft'⟩ := ih t'
      refine ⟨_, first.append goes, ?_, ahead'.trans ahead, nextLeft'.trans nextLeft⟩
      rw [stackProfiles, List.map_cons]
      exact congrArg _ same
    | false => exact ⟨_, ⟨first.looked.aside _ _ _, first.stopped⟩, rfl, ahead, nextLeft⟩

theorem checkAhead_goes (q : Setting) (ahead : List Scores) (t : Turn) :
    ∃ seen, Goes q t seen (checkAhead q ahead t) ∧
      ahead = seen ++ (checkAhead q ahead t).2.inference.ahead := by
  induction ahead generalizing t with
  | nil => exact ⟨[], ⟨⟨rfl, rfl, rfl⟩, nofun⟩, rfl⟩
  | cons v ahead ih =>
    have first := check_goes q t v
    rw [checkAhead]
    generalize check q t v = result at first
    obtain ⟨goOn, t'⟩ := result
    cases goOn with
    | true =>
      obtain ⟨seen, goes, same⟩ := ih t'
      exact ⟨_, first.append goes, congrArg (v :: ·) same⟩
    | false => exact ⟨_, ⟨first.looked.aside _ _ _, first.stopped⟩, rfl⟩

theorem checkRecords_goes (q : Setting) (count : Nat) (t : Turn) (none : t.inference.ahead = []) :
    ∃ seen, Goes q t seen (checkRecords q count t) ∧
      (checkRecords q count t).2.inference.stack = t.inference.stack ∧
      ∃ rest, rest ≤ count ∧
        t.inference.nextLeft + count = (checkRecords q count t).2.inference.nextLeft + rest ∧
        profilesFrom q.data t.inference.nextLeft count =
          seen ++ ((checkRecords q count t).2.inference.ahead ++
            profilesFrom q.data (checkRecords q count t).2.inference.nextLeft rest) := by
  induction count generalizing t with
  | zero =>
    exact ⟨[], .nil q t, rfl, 0, Nat.le_refl 0, rfl, by simp [profilesFrom, checkRecords, none]⟩
  | succ count ih =>
    let turned : Turn :=
      { t with inference := { t.inference with nextLeft := t.inference.nextLeft+1 } }
    obtain ⟨seen, goes, same⟩ :=
      checkAhead_goes q (q.data.profilesOf t.inference.nextLeft).reverse turned
    obtain ⟨stack, nextLeft, finished⟩ :=
      checkAhead_keeps q (q.data.profilesOf t.inference.nextLeft).reverse turned
    have split : profilesFrom q.data t.inference.nextLeft (count+1) =
        (q.data.profilesOf t.inference.nextLeft).reverse ++
          profilesFrom q.data (t.inference.nextLeft+1) count := by
      rw [profilesFrom, List.range'_succ, List.flatMap_cons]
      rfl
    rw [checkRecords, split]
    dsimp only [turned] at goes same stack nextLeft finished ⊢
    generalize checkAhead q _ _ = result at goes same stack nextLeft finished
    obtain ⟨goOn, t'⟩ := result
    have looked := goes.looked
    have goes : Goes q t seen (goOn, t') :=
      ⟨⟨looked.applied, looked.lattice, looked.count⟩, goes.stopped⟩
    cases goOn with
    | true =>
      -- Nothing has stopped the turn, so all profiles of the record were looked at.
      obtain ⟨seen', goes', stack', rest, le, next, same'⟩ := ih t' (finished rfl)
      dsimp only at nextLeft ⊢
      refine ⟨seen ++ seen', goes.append goes', stack'.trans stack, rest, by omega, by omega, ?_⟩
      rw [same, finished rfl, List.append_nil, ← nextLeft, same', List.append_assoc]
    | false =>
      dsimp only at nextLeft ⊢
      refine ⟨seen, goes, stack, count, Nat.le_succ count, by omega, ?_⟩
      rw [same, nextLeft, List.append_assoc]

/-! ## A call -/

def unread (d : Dataset) (i : Inference) : List Scores :=
  i.ahead ++ profilesFrom d i.nextLeft (d.leftCount - i.nextLeft)

def agenda (d : Dataset) (i : Inference) : List Scores := stackProfiles d i.stack ++ unread d i

theorem agenda_of_stack_nil {d : Dataset} (stack : i.stack = []) : agenda d i = unread d i := by
  rw [agenda, stack]
  rfl

theorem unread_of_exhausted {d : Dataset} (exhausted : i.isExhausted d = true) :
    unread d i = [] := by
  rw [isExhausted, Bool.and_eq_true, decide_eq_true_iff, List.isEmpty_iff] at exhausted
  rw [unread, exhausted.2, Nat.sub_eq_zero_of_le exhausted.1]
  rfl

def wholeAgenda (d : Dataset) (i : Inference) (w : Workspace) : List Scores :=
  stackProfiles d w.pending.toList.reverse ++ agenda d i

theorem run_agenda_nil (done : (run q i w).1 = true) : agenda q.data (run q i w).2.1 = [] := by
  obtain ⟨stack, exhausted⟩ := run_exhausts q i w done
  rw [agenda_of_stack_nil stack, unread_of_exhausted exhausted]

def checkUnread (q : Setting) (t : Turn) : Bool × Turn :=
  match checkAhead q t.inference.ahead t with
  | (false, t) => (false, t)
  | (true, t) => checkRecords q (q.data.leftCount - t.inference.nextLeft) t

theorem checkUnread_goes (q : Setting) (t : Turn) : ∃ seen, Goes q t seen (checkUnread q t) ∧
    unread q.data t.inference = seen ++ unread q.data (checkUnread q t).2.inference ∧
    (checkUnread q t).2.inference.stack = t.inference.stack := by
  obtain ⟨seen, goes, same⟩ := checkAhead_goes q t.inference.ahead t
  obtain ⟨stack, nextLeft, finished⟩ := checkAhead_keeps q t.inference.ahead t
  rw [checkUnread]
  generalize checkAhead q _ _ = result at goes same stack nextLeft finished
  obtain ⟨goOn, t'⟩ := result
  dsimp only at same stack nextLeft finished ⊢
  have read : unread q.data t.inference = seen ++ unread q.data t'.inference := by
    rw [unread, unread, nextLeft, ← List.append_assoc, ← same]
  cases goOn with
  | false => exact ⟨seen, goes, read, stack⟩
  | true =>
    have none := finished rfl
    obtain ⟨seen', goes', stack', rest, le, next, same'⟩ :=
      checkRecords_goes q (q.data.leftCount - t'.inference.nextLeft) t' none
    dsimp only
    generalize checkRecords q _ _ = result at goes' stack' next same'
    have left : rest = q.data.leftCount - result.2.inference.nextLeft := by omega
    refine ⟨seen ++ seen', goes.append goes', ?_, stack'.trans stack⟩
    rw [read, unread, unread, none, List.nil_append, same', left, List.append_assoc]

def checkAll (q : Setting) (stack : List Counterexample) (t : Turn) : Bool × Turn :=
  match checkStack q stack t with
  | (false, t) => (false, t)
  | (true, t) => checkUnread q t

theorem run_eq (q : Setting) (i : Inference) (w : Workspace) :
    run q i w =
      let result := checkAll q (w.pending.toList.reverse ++ i.stack) ⟨i, w.lattice, ⟨0, 0⟩⟩
      (result.1, result.2.inference, ⟨result.2.lattice, ∅⟩) := by
  rw [run, checkAll]
  dsimp only
  generalize checkStack q _ _ = result
  obtain ⟨goOn, t⟩ := result
  cases goOn with
  | false => rfl
  | true =>
    dsimp only
    rw [checkUnread]
    generalize checkAhead q _ _ = result
    obtain ⟨goOn, t'⟩ := result
    cases goOn <;> rfl

/-- A call looks at the beginning of the agenda and leaves the rest. It does not
turn to record pairs as long as there is something on the stack. -/
theorem run_looked (q : Setting) (i : Inference) (w : Workspace) : ∃ seen,
    wholeAgenda q.data i w = seen ++ agenda q.data (run q i w).2.1 ∧
    Looked q i w.lattice seen (run q i w).2.1 (run q i w).2.2.lattice ∧
    ((run q i w).1 = false → fresh i.applied seen ≠ []) ∧
    ((run q i w).2.1.stack = [] ∨ unread q.data (run q i w).2.1 = unread q.data i) := by
  have whole : wholeAgenda q.data i w =
      stackProfiles q.data (w.pending.toList.reverse ++ i.stack) ++ unread q.data i := by
    rw [wholeAgenda, agenda, stackProfiles, stackProfiles, stackProfiles, List.map_append,
      List.append_assoc]
  rw [run_eq, whole, checkAll]
  dsimp only
  obtain ⟨seen, goes, same, ahead, nextLeft⟩ :=
    checkStack_goes q (w.pending.toList.reverse ++ i.stack) ⟨i, w.lattice, ⟨0, 0⟩⟩
  have emptied := checkStack_done q (w.pending.toList.reverse ++ i.stack) ⟨i, w.lattice, ⟨0, 0⟩⟩
  generalize checkStack q _ _ = result at goes same ahead nextLeft emptied
  obtain ⟨goOn, t⟩ := result
  dsimp only at same ahead nextLeft emptied ⊢
  have kept : unread q.data t.inference = unread q.data i := by
    rw [unread, unread, ahead, nextLeft]
  cases goOn with
  | false =>
    refine ⟨seen, ?_, goes.looked, goes.stopped, .inr kept⟩
    rw [same, agenda, kept, List.append_assoc]
  | true =>
    obtain ⟨seen', goes', read, stack⟩ := checkUnread_goes q t
    have both := goes.append goes'
    have none := emptied rfl
    refine ⟨seen ++ seen', ?_, both.looked, both.stopped, .inl (stack.trans none)⟩
    rw [same, none, ← kept, read, agenda_of_stack_nil (stack.trans none)]
    simp [stackProfiles]

end Inference

end MatchingDependencies
