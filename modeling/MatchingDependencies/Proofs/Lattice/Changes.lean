import MatchingDependencies.Proofs.Lattice.Claims

/-!
# What operations do to the bounds

Setting a bound changes this bound only, withdrawing a premise makes its
bounds zero, and adding a claim sets its bound unless it is implied already.
Nodes keep their numbers, and a lattice stays sound.
-/

set_option autoImplicit false

namespace MatchingDependencies.ClaimLattice

open MatchingDependencies.Path (Allowed)

variable {ok : Allowed} {l : ClaimLattice} {p q : Path}

theorem mem_entries_new {width : Nat} {cost : LevelCost} :
    ∀ e ∈ (ClaimLattice.new width cost).entries, e = ([], ⟨0, Array.replicate width 1⟩) :=
  fun _ he => List.mem_singleton.mp he

theorem sound_new (pos : ok.Positive) {width : Nat} (within : ok.Within width) {cost : LevelCost}
    (costs : ∀ c t, 0 < cost c t) : (ClaimLattice.new width cost).Sound ok := by
  constructor
  · exact pos
  · exact within
  · exact costs
  · trivial
  · intro e he
    rw [mem_entries_new e he]
    refine ⟨Array.size_replicate, fun b hb => ?_⟩
    rw [(Array.mem_replicate.mp hb).2]
    decide
  · intro e he
    rw [mem_entries_new e he]
    exact Nat.le_refl 0
  · exact List.nodup_cons.mpr ⟨List.not_mem_nil, List.nodup_nil⟩
  · intro e he
    rw [mem_entries_new e he]
    exact Nat.one_pos

/-! ## Changing nodes -/

section Modify

variable (l p) (f : Node → Node)

@[simp] theorem width_modify : (l.modify p f).width = l.width := by cases p <;> rfl
@[simp] theorem cost_modify : (l.modify p f).cost = l.cost := by cases p <;> rfl
@[simp] theorem size_modify : (l.modify p f).size = l.size := by cases p <;> rfl
@[simp] theorem maxLevel_modify : (l.modify p f).maxLevel = l.maxLevel := by cases p <;> rfl
@[simp] theorem lowestChanged_modify : (l.modify p f).lowestChanged = l.lowestChanged := by
  cases p <;> rfl

end Modify

section Proper

variable (nonzero : ok.Nonzero) (hb : l.branches.Proper ok 0) (p : Path) (f : Node → Node)

include nonzero hb

theorem entries_modify :
    (l.modify p f).entries = l.entries.map fun e => (e.1, if e.1 = p then f e.2 else e.2) := by
  cases p with
  | nil =>
    have deeper := Branches.map_of_forall_ne f l.branches.ne_nil_of_mem_entries
    rw [entries, entries, List.map_cons, deeper]
    rfl
  | cons x p =>
    have below := hb.entries_modify nonzero (p := x::p) (by simp) f
    rw [entries, entries, List.map_cons, ← below]
    rfl

theorem mem_entries_modify {holds : Node → Prop} (old : ∀ e ∈ l.entries, holds e.2)
    (kept : ∀ n, holds n → holds (f n) ∧ (f n).number = n.number) :
    ∀ e ∈ (l.modify p f).entries,
      holds e.2 ∧ ∃ x ∈ l.entries, x.1 = e.1 ∧ x.2.number = e.2.number := by
  rw [entries_modify nonzero hb]
  intro x hx
  obtain ⟨e, he, rfl⟩ := List.mem_map.mp hx
  dsimp only
  split
  · exact ⟨(kept _ (old e he)).1, e, he, rfl, (kept _ (old e he)).2.symm⟩
  · exact ⟨old e he, e, he, rfl, rfl⟩

theorem numbers_modify {holds : Node → Prop} (old : ∀ e ∈ l.entries, holds e.2)
    (kept : ∀ n, holds n → holds (f n) ∧ (f n).number = n.number) :
    (l.modify p f).entries.map (·.2.number) = l.entries.map (·.2.number) := by
  rw [entries_modify nonzero hb, List.map_map]
  refine List.map_congr_left fun e he => ?_
  dsimp only [Function.comp_apply]
  split
  · exact (kept _ (old e he)).2
  · rfl

omit nonzero in
theorem proper_modify : (l.modify p f).branches.Proper ok 0 := by
  cases p with
  | nil => exact hb
  | cons x p => exact hb.modify f _

theorem find?_modify (q : Path) :
    (l.modify p f).find? q = if q = p then (l.find? q).map f else l.find? q := by
  ext n
  rw [find?_eq_some_iff nonzero (proper_modify hb p f), entries_modify nonzero hb, List.mem_map]
  constructor
  · rintro ⟨e, he, eq⟩
    obtain ⟨rfl, rfl⟩ := Prod.mk.inj eq
    have found := (find?_eq_some_iff nonzero hb).mpr he
    rw [found]
    split <;> rfl
  · intro h
    by_cases same : q = p
    · rw [if_pos same, Option.map_eq_some_iff] at h
      obtain ⟨m, hm, rfl⟩ := h
      exact ⟨(q, m), (find?_eq_some_iff nonzero hb).mp hm, by simp [same]⟩
    · rw [if_neg same] at h
      exact ⟨(q, n), (find?_eq_some_iff nonzero hb).mp h, by simp [same]⟩

theorem bound_withdraw (q : Path) (j : Nat) :
    (l.withdraw p).bound q j = if q = p then 0 else l.bound q j := by
  rw [bound, bound, ClaimLattice.withdraw, find?_modify nonzero hb]
  by_cases same : q = p
  · cases l.find? q with
    | none => simp [same]
    | some n =>
      simp only [if_pos same, Option.map_some, Node.bound, Array.getD_eq_getD_getElem?,
        Array.getElem?_map]
      cases n.bounds[j]? <;> rfl
  · simp [same]

end Proper

def Harmless (width : Nat) (f : Node → Node) : Prop :=
  ∀ n, n.Fits width → (f n).Fits width ∧ (f n).number = n.number

theorem Sound.modify (hl : l.Sound ok) (p : Path) {f : Node → Node} (hf : Harmless l.width f) :
    (l.modify p f).Sound ok := by
  have entry := mem_entries_modify hl.nonzero hl.branches p f hl.fits hf
  constructor
  · exact hl.positive
  · simpa using hl.within
  · simpa using hl.costs
  · exact proper_modify hl.branches p f
  · rw [width_modify]
    exact fun e he => (entry e he).1
  · intro e he
    obtain ⟨x, hx, eq, -⟩ := (entry e he).2
    rw [maxLevel_modify, levelOf, cost_modify, ← eq]
    exact hl.levels x hx
  · rw [numbers_modify hl.nonzero hl.branches p f hl.fits hf]
    exact hl.numbers
  · intro e he
    obtain ⟨x, hx, -, eq⟩ := (entry e he).2
    rw [size_modify, ← eq]
    exact hl.fresh x hx

theorem Sound.find?_modify (hl : l.Sound ok) (p : Path) {f : Node → Node}
    (q : Path) : (l.modify p f).find? q = if q = p then (l.find? q).map f else l.find? q :=
  ClaimLattice.find?_modify hl.nonzero hl.branches p f q

theorem harmless_withBound (width i : Nat) {b : Score} (hb : b.inUnit = true) :
    Harmless width (Node.withBound i b) :=
  fun _ hn => ⟨hn.withBound i hb, rfl⟩

theorem harmless_withdraw (width : Nat) :
    Harmless width fun n => { n with bounds := n.bounds.map fun _ => 0 } := by
  intro n hn
  refine ⟨⟨by simpa using hn.size, ?_⟩, rfl⟩
  intro b hb
  obtain ⟨_, -, rfl⟩ := Array.mem_map.mp hb
  decide

theorem Sound.setBound (hl : l.Sound ok) (p : Path) (i : Nat) {b : Score}
    (hb : b.inUnit = true) : (l.setBound p i b).Sound ok :=
  hl.modify p (harmless_withBound l.width i hb)

theorem Sound.withdraw (hl : l.Sound ok) (p : Path) : (l.withdraw p).Sound ok :=
  hl.modify p (harmless_withdraw l.width)

theorem Sound.bound_setBound (hl : l.Sound ok) {p : Path} (stored : (l.find? p).isSome = true)
    {i : Nat} (hi : i < l.width) (b : Score) (q : Path) (j : Nat) :
    (l.setBound p i b).bound q j = if q = p ∧ j = i then b else l.bound q j := by
  rw [bound, bound, ClaimLattice.setBound, hl.find?_modify]
  by_cases same : q = p
  · subst same
    obtain ⟨n, hn⟩ := Option.isSome_iff_exists.mp stored
    have size := (hl.fits _ (hl.find?_eq_some_iff.mp hn)).size
    simp [hn, n.bound_withBound b (by rw [size]; exact hi)]
  · simp [same]

theorem Sound.bound_withdraw (hl : l.Sound ok) (p q : Path) (j : Nat) :
    (l.withdraw p).bound q j = if q = p then 0 else l.bound q j :=
  ClaimLattice.bound_withdraw hl.nonzero hl.branches p q j

/-! ## Nodes stay -/

def Keeps (l l' : ClaimLattice) : Prop :=
  ∀ p n, l.find? p = some n → ∃ n', l'.find? p = some n' ∧ n'.number = n.number

theorem Keeps.refl (l : ClaimLattice) : Keeps l l := fun _ n h => ⟨n, h, rfl⟩

theorem Keeps.trans {l l' l'' : ClaimLattice} (h : Keeps l l') (h' : Keeps l' l'') :
    Keeps l l'' := by
  intro p n hn
  obtain ⟨m, hm, same⟩ := h p n hn
  obtain ⟨k, hk, same'⟩ := h' p m hm
  exact ⟨k, hk, same'.trans same⟩

theorem Keeps.isSome {l l' : ClaimLattice} (h : Keeps l l') {p : Path}
    (stored : (l.find? p).isSome = true) : (l'.find? p).isSome = true := by
  obtain ⟨n, hn⟩ := Option.isSome_iff_exists.mp stored
  obtain ⟨m, hm, -⟩ := h p n hn
  rw [hm]
  rfl

theorem keeps_modify (nonzero : ok.Nonzero) (hb : l.branches.Proper ok 0) (p : Path)
    {f : Node → Node} {holds : Node → Prop} (old : ∀ e ∈ l.entries, holds e.2)
    (kept : ∀ n, holds n → holds (f n) ∧ (f n).number = n.number) : Keeps l (l.modify p f) := by
  intro q n hn
  rw [ClaimLattice.find?_modify nonzero hb, hn]
  split
  · exact ⟨f n, rfl, (kept n (old _ ((find?_eq_some_iff nonzero hb).mp hn))).2⟩
  · exact ⟨n, rfl, rfl⟩

theorem Sound.keeps_modify (hl : l.Sound ok) (p : Path) {f : Node → Node}
    (hf : Harmless l.width f) : Keeps l (l.modify p f) :=
  ClaimLattice.keeps_modify hl.nonzero hl.branches p hl.fits hf

end MatchingDependencies.ClaimLattice
