import Mathlib.Data.List.Basic
import MatchingDependencies.Ascending

/-!
# What sorting and grouping keep

Sorting keeps the members, up to those that compare as equal. Grouping gives
every key the members that have it, so that the groups together are the
members again. Merging ascending lists gives one ascending list of their
members.
-/

set_option autoImplicit false

namespace MatchingDependencies

variable {α κ : Type}

/-! ## Sorting -/

section Sorting

variable [Ord α]

theorem ascending_sorted [Std.TransOrd α] (members : List α) :
    (ascending members).Pairwise fun a b => compare a b = .lt :=
  Std.TreeSet.ordered_toList

abbrev comparedBEq : BEq α := ⟨fun a b => compare a b == .eq⟩

theorem exists_mem_ascending [Std.TransOrd α] {members : List α} {a : α} (h : a ∈ members) :
    ∃ b ∈ ascending members, compare a b = .eq := by
  let _ : BEq α := comparedBEq
  have _ : Std.LawfulBEqOrd α := ⟨beq_iff_eq.symm⟩
  have found : members.contains a = true := by
    rw [List.contains_iff_exists_mem_beq]
    exact ⟨a, h, BEq.rfl⟩
  have stored : (Std.TreeSet.ofList members compare).contains a = members.contains a :=
    Std.TreeSet.contains_ofList
  rw [← stored, ← Std.TreeSet.contains_toList, List.contains_iff_exists_mem_beq] at found
  obtain ⟨b, hb, same⟩ := found
  exact ⟨b, hb, Std.LawfulBEqCmp.compare_eq_iff_beq.mpr same⟩

theorem mem_of_mem_ascending [Std.TransOrd α] {members : List α} {a : α}
    (h : a ∈ ascending members) : a ∈ members := by
  let _ : BEq α := comparedBEq
  have _ : Std.LawfulBEqOrd α := ⟨beq_iff_eq.symm⟩
  rw [ascending, Std.TreeSet.ofList_equiv_foldl.toList_eq] at h
  have inserted : ∀ (members : List α) (t : Std.TreeSet α),
      a ∈ (members.foldl (fun t a => t.insert a) t).toList → a ∈ t.toList ∨ a ∈ members := by
    intro members
    induction members with
    | nil => exact fun t h => .inl h
    | cons b members ih =>
      intro t h
      rcases ih (t.insert b) h with h | h
      · have perm := (Std.TreeSet.toList_insert_perm (t := t) (k := b)).subset h
        split at perm
        · exact .inl perm
        · rcases List.mem_cons.mp perm with rfl | h
          · exact .inr List.mem_cons_self
          · exact .inl h
      · exact .inr (List.mem_cons_of_mem _ h)
  rcases inserted members ∅ h with h | h
  · exact absurd h List.not_mem_nil
  · exact h

end Sorting

theorem eq_of_sorted {r : α → α → Prop} (asymm : ∀ a b, r a b → ¬r b a) {as bs : List α}
    (has : as.Pairwise r) (hbs : bs.Pairwise r) (h : ∀ a, a ∈ as ↔ a ∈ bs) : as = bs := by
  induction as generalizing bs with
  | nil =>
    cases bs with
    | nil => rfl
    | cons b bs => exact absurd ((h b).mpr List.mem_cons_self) List.not_mem_nil
  | cons a as ih =>
    cases bs with
    | nil => exact absurd ((h a).mp List.mem_cons_self) List.not_mem_nil
    | cons b bs =>
      obtain ⟨firstA, restA⟩ := List.pairwise_cons.mp has
      obtain ⟨firstB, restB⟩ := List.pairwise_cons.mp hbs
      have same : a = b := by
        rcases List.mem_cons.mp ((h a).mp List.mem_cons_self) with eq | ha
        · exact eq
        · rcases List.mem_cons.mp ((h b).mpr List.mem_cons_self) with eq | hb
          · exact eq.symm
          · exact absurd (firstA b hb) (asymm b a (firstB a ha))
      subst same
      have absent : ∀ x, r a x → x ≠ a := by
        rintro x hx rfl
        exact asymm x x hx hx
      refine congrArg _ (ih restA restB fun x => ?_)
      constructor
      · intro hx
        rcases List.mem_cons.mp ((h x).mp (List.mem_cons_of_mem _ hx)) with eq | hb
        · exact absurd eq (absent x (firstA x hx))
        · exact hb
      · intro hx
        rcases List.mem_cons.mp ((h x).mpr (List.mem_cons_of_mem _ hx)) with eq | ha
        · exact absurd eq (absent x (firstB x hx))
        · exact ha

theorem find?_eq_some_iff_of_sorted (value : α → Int) {as : List α}
    (sorted : as.Pairwise fun a b => value a < value b) (test : α → Bool) (a : α) :
    as.find? test = some a ↔ a ∈ as ∧ test a = true ∧ ∀ b ∈ as, test b = true → b = a ∨
      value a < value b := by
  induction as with
  | nil => simp
  | cons x as ih =>
    obtain ⟨first, sorted⟩ := List.pairwise_cons.mp sorted
    by_cases pass : test x = true
    · rw [List.find?_cons_of_pos pass, Option.some.injEq]
      constructor
      · rintro rfl
        refine ⟨List.mem_cons_self, pass, fun b hb _ => ?_⟩
        rcases List.mem_cons.mp hb with rfl | hb
        · exact .inl rfl
        · exact .inr (first b hb)
      · rintro ⟨ha, -, least⟩
        rcases List.mem_cons.mp ha with rfl | ha
        · rfl
        · rcases least x List.mem_cons_self pass with eq | lt
          · exact eq
          · have := first a ha
            omega
    · rw [List.find?_cons_of_neg pass, ih sorted]
      constructor
      · rintro ⟨ha, hp, least⟩
        refine ⟨List.mem_cons_of_mem _ ha, hp, fun b hb hpb => ?_⟩
        rcases List.mem_cons.mp hb with rfl | hb
        · exact absurd hpb pass
        · exact least b hb hpb
      · rintro ⟨ha, hp, least⟩
        rcases List.mem_cons.mp ha with rfl | ha
        · exact absurd hp pass
        · exact ⟨ha, hp, fun b hb => least b (List.mem_cons_of_mem _ hb)⟩

/-! ## Grouping -/

theorem perm_flatMap_filter [DecidableEq κ] (key : α → κ) (keys : List κ) (nodup : keys.Nodup)
    (members : List α) (covered : ∀ a ∈ members, key a ∈ keys) :
    (keys.flatMap fun k => members.filter fun a => key a = k).Perm members := by
  induction members with
  | nil => simp
  | cons a members ih =>
    obtain ⟨front, back, rfl⟩ := List.append_of_mem (covered a List.mem_cons_self)
    have rest := ih fun b hb => covered b (List.mem_cons_of_mem _ hb)
    rw [List.nodup_append, List.nodup_cons] at nodup
    have other : ∀ k ∈ front ++ back,
        (a::members).filter (fun b => key b = k) = members.filter fun b => key b = k := by
      intro k hk
      rw [List.filter_cons, if_neg]
      rw [decide_eq_true_iff]
      rintro rfl
      rcases List.mem_append.mp hk with hk | hk
      · exact nodup.2.2 _ hk _ List.mem_cons_self rfl
      · exact nodup.2.1.1 hk
    have inFront : front.flatMap (fun k => (a::members).filter fun b => key b = k) =
        front.flatMap fun k => members.filter fun b => key b = k :=
      List.flatMap_congr fun k hk => other k (List.mem_append_left _ hk)
    have inBack : back.flatMap (fun k => (a::members).filter fun b => key b = k) =
        back.flatMap fun k => members.filter fun b => key b = k :=
      List.flatMap_congr fun k hk => other k (List.mem_append_right _ hk)
    rw [List.flatMap_append, List.flatMap_cons, List.filter_cons, if_pos (by simp), inFront, inBack]
    rw [List.flatMap_append, List.flatMap_cons] at rest
    exact List.perm_middle.trans (rest.cons a)

section Grouping

variable [Ord κ] [Std.TransOrd κ] (key : α → κ)

theorem keys_groupBy_nodup (members : List α) : ((groupBy key members).map (·.1)).Nodup := by
  rw [List.nodup_iff_pairwise_ne, List.pairwise_map]
  refine (Std.TreeMap.distinct_keys_toList).imp fun differ same => differ ?_
  rw [same]
  exact Std.ReflCmp.compare_self

variable [Std.LawfulEqOrd κ] [DecidableEq κ]

theorem getElem?_foldr_gather (members : List α) (k : κ) :
    (members.foldr (gather key) ∅)[k]? =
      if members.filter (fun a => key a = k) = [] then none
      else some (members.filter fun a => key a = k) := by
  induction members with
  | nil => simp
  | cons a members ih =>
    rw [List.foldr_cons, gather, Std.TreeMap.getElem?_alter]
    by_cases same : key a = k
    · subst same
      rw [if_pos Std.ReflCmp.compare_self, List.filter_cons_of_pos (by simp), ih]
      by_cases empty : members.filter (fun b => key b = key a) = [] <;> simp [empty]
    · rw [if_neg fun h => same (Std.LawfulEqOrd.eq_of_compare h),
        List.filter_cons_of_neg (by simpa using same), ih]

theorem mem_groupBy_iff {members : List α} {k : κ} {group : List α} :
    (k, group) ∈ groupBy key members ↔
      group = members.filter (fun a => key a = k) ∧ group ≠ [] := by
  rw [groupBy, Std.TreeMap.mem_toList_iff_getElem?_eq_some, getElem?_foldr_gather]
  split
  · next empty => simp [empty]
  · next some =>
    rw [Option.some.injEq]
    exact ⟨fun h => ⟨h.symm, h ▸ some⟩, fun h => h.1.symm⟩

theorem key_mem_groupBy {members : List α} {a : α} (h : a ∈ members) :
    key a ∈ (groupBy key members).map (·.1) := by
  have mem : a ∈ members.filter fun b => key b = key a := by simpa using h
  exact List.mem_map.mpr ⟨(key a, _), (mem_groupBy_iff key).mpr ⟨rfl, List.ne_nil_of_mem mem⟩, rfl⟩

theorem flatMap_groupBy_perm (members : List α) :
    ((groupBy key members).flatMap (·.2)).Perm members := by
  have groups : (groupBy key members).flatMap (·.2) =
      ((groupBy key members).map (·.1)).flatMap fun k => members.filter fun a => key a = k := by
    rw [List.flatMap_map]
    exact List.flatMap_congr fun g hg => ((mem_groupBy_iff key).mp hg).1
  rw [groups]
  exact perm_flatMap_filter key _ (keys_groupBy_nodup key members) members
    fun a ha => key_mem_groupBy key ha

end Grouping

@[simp] theorem size_byNumber (count : Nat) (entries : List (Nat × α)) :
    (byNumber count entries).size = count := by
  induction entries with
  | nil => simp [byNumber]
  | cons e entries ih =>
    rw [byNumber, List.foldr_cons, Array.size_modify]
    exact ih

theorem getElem?_byNumber (count : Nat) (entries : List (Nat × α)) {i : Nat} (hi : i < count) :
    (byNumber count entries)[i]? = some ((entries.filter fun e => e.1 = i).map (·.2)) := by
  induction entries with
  | nil => simp [byNumber, hi]
  | cons e entries ih =>
    have rest : (byNumber count (e::entries)) =
        (byNumber count entries).modify e.1 (e.2 :: ·) := rfl
    rw [rest, Array.getElem?_modify, ih, List.filter_cons]
    by_cases same : e.1 = i <;> simp [same]

/-! ## Merging -/

section Merging

variable {le : α → α → Bool}

theorem flatten_joinFront (members : List α) (lists : List (List α)) :
    (joinFront le members lists).flatten = members ++ lists.flatten := by
  unfold joinFront
  split
  · next h => simp [List.getLast?_eq_none_iff.mp h]
  · split <;> simp
  · simp

theorem flatten_mergePairs (lists : List (List α)) :
    (mergePairs le lists).flatten.Perm lists.flatten := by
  fun_induction mergePairs le lists with
  | case1 a b lists ih =>
    rw [List.flatten_cons, List.flatten_cons, List.flatten_cons, ← List.append_assoc]
    exact (List.merge_perm_append le).append ih
  | case2 lists => exact .refl _

theorem mergeRounds_perm (lists : List (List α)) : (mergeRounds le lists).Perm lists.flatten := by
  fun_induction mergeRounds le lists with
  | case1 => exact .refl _
  | case2 members => simp
  | case3 a b lists ih =>
    apply ih.trans
    rw [List.flatten_cons, List.flatten_cons, List.flatten_cons, ← List.append_assoc]
    exact (List.merge_perm_append le).append (flatten_mergePairs lists)

theorem mergeAll_perm (lists : List (List α)) : (mergeAll le lists).Perm lists.flatten := by
  refine (mergeRounds_perm _).trans (.of_eq ?_)
  induction lists with
  | nil => rfl
  | cons members lists ih => rw [List.foldr_cons, flatten_joinFront, ih, List.flatten_cons]

variable (trans : ∀ a b c, le a b = true → le b c = true → le a c = true)
  (total : ∀ a b, (le a b || le b a) = true)

def AllSorted (le : α → α → Bool) (lists : List (List α)) : Prop :=
  ∀ members ∈ lists, members.Pairwise fun a b => le a b = true

include trans in
theorem joinFront_sorted {members : List α} {lists : List (List α)}
    (h : AllSorted le (members::lists)) : AllSorted le (joinFront le members lists) := by
  have first := h members List.mem_cons_self
  have others : AllSorted le lists := fun m hm => h m (List.mem_cons_of_mem _ hm)
  unfold joinFront
  split
  · exact others
  · next last a as lists hlast =>
    have second := others (a::as) List.mem_cons_self
    split
    · next before =>
      intro m hm
      rcases List.mem_cons.mp hm with rfl | hm
      · refine List.pairwise_append.mpr ⟨first, second, fun x hx y hy => ?_⟩
        -- Whatever stands in front is not behind the last, and whatever follows not before `a`.
        have toLast : x = last ∨ le x last = true := by
          obtain ⟨front, eq⟩ := List.getLast?_eq_some_iff.mp hlast
          rw [eq, List.mem_append, List.mem_singleton] at hx
          rw [eq, List.pairwise_append] at first
          rcases hx with hx | hx
          · exact .inr (first.2.2 x hx last (List.mem_singleton_self last))
          · exact .inl hx
        have fromNext : y = a ∨ le a y = true := by
          rcases List.mem_cons.mp hy with rfl | hy
          · exact .inl rfl
          · exact .inr (List.rel_of_pairwise_cons second hy)
        rcases toLast with rfl | hx <;> rcases fromNext with rfl | hy
        · exact before
        · exact trans _ _ _ before hy
        · exact trans _ _ _ hx before
        · exact trans _ _ _ hx (trans _ _ _ before hy)
      · exact others m (List.mem_cons_of_mem _ hm)
    · exact h
  · exact h

include trans total in
theorem mergePairs_sorted (lists : List (List α)) (h : AllSorted le lists) :
    AllSorted le (mergePairs le lists) := by
  fun_induction mergePairs le lists with
  | case1 a b lists ih =>
    intro m hm
    rcases List.mem_cons.mp hm with rfl | hm
    · exact List.pairwise_merge trans total a b (h a List.mem_cons_self)
        (h b (List.mem_cons_of_mem _ List.mem_cons_self))
    · exact ih (fun m hm => h m (List.mem_cons_of_mem _ (List.mem_cons_of_mem _ hm))) m hm
  | case2 lists => exact h

include trans total in
theorem mergeRounds_sorted (lists : List (List α)) (h : AllSorted le lists) :
    (mergeRounds le lists).Pairwise fun a b => le a b = true := by
  fun_induction mergeRounds le lists with
  | case1 => exact .nil
  | case2 members => exact h members List.mem_cons_self
  | case3 a b lists ih =>
    apply ih
    intro m hm
    rcases List.mem_cons.mp hm with rfl | hm
    · exact List.pairwise_merge trans total a b (h a List.mem_cons_self)
        (h b (List.mem_cons_of_mem _ List.mem_cons_self))
    · exact mergePairs_sorted trans total lists
        (fun m hm => h m (List.mem_cons_of_mem _ (List.mem_cons_of_mem _ hm))) m hm

include trans total in
theorem mergeAll_sorted (lists : List (List α)) (h : AllSorted le lists) :
    (mergeAll le lists).Pairwise fun a b => le a b = true := by
  apply mergeRounds_sorted trans total _
  induction lists with
  | nil => exact h
  | cons members lists ih =>
    apply joinFront_sorted trans
    intro m hm
    rcases List.mem_cons.mp hm with rfl | hm
    · exact h m List.mem_cons_self
    · exact ih (fun m hm => h m (List.mem_cons_of_mem _ hm)) m hm

end Merging

end MatchingDependencies
