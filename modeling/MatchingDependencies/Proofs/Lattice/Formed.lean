import MatchingDependencies.Proofs.Lattice.Ordered
import MatchingDependencies.Proofs.Lattice.Unsupported

/-!
# Well-formed lattices

Nothing is asked of the claims of a well-formed lattice except that they stand
in proper paths and that their bounds are similarities. What an operation does
to such a lattice is said in terms of its bounds, its marks and the levels that
are noted, whether or not a search could have made the claims.
-/

set_option autoImplicit false

namespace MatchingDependencies

open MatchingDependencies.Path (Allowed)
open ClaimLattice (Keeps)

theorem Path.Proper.length_le_width {ok : Allowed} {width first : Nat} (within : ok.Within width)
    {p : Path} (hp : p.Proper ok first) : p.length ≤ width - first := by
  induction p generalizing first with
  | nil => exact Nat.zero_le _
  | cons x p ih =>
    have rest := ih hp.2.2
    have column := within x.1 x.2 hp.2.1
    have order := hp.1
    rw [List.length_cons]
    omega

namespace Lattice

def Noted (l : Lattice) (level : Nat) : Prop := l.claims.Noted level

def Implied (l : Lattice) (p : Path) (height : Int) (i : Nat) : Prop :=
  l.claims.Implied p height i

def Dropped (l : Lattice) (p : Path) : Prop := ∃ m, l.unsupported.Marked m ∧ m.Generalizes p

/-- Premises stand in proper paths, bounds are similarities, and every
constraint is one level. -/
structure Formed (ok : Allowed) (width : Nat) (l : Lattice) : Prop where
  claims : l.claims.Sound ok
  width : l.claims.width = width
  cost : l.claims.cost = ClaimLattice.unitCost
  marks : l.unsupported.Sound ok

variable {ok : Allowed} {width : Nat} {l l' l'' : Lattice} {p g : Path} {i : Nat} {b : Score}

theorem getD_bounds (l : Lattice) (p : Path) (i : Nat) :
    (((l.find? p).map Node.bounds).getD #[]).getD i 0 = l.bound p i := by
  rw [Lattice.bound, ClaimLattice.bound, Lattice.find?]
  cases l.claims.find? p with
  | none => rfl
  | some n => rfl

namespace Formed

theorem within (hl : l.Formed ok width) : ok.Within width := hl.width ▸ hl.claims.within

theorem ordered (hl : l.Formed ok width) : l.Ordered ok width :=
  ⟨hl.claims.positive, hl.within, hl.width, hl.cost, hl.claims.branches⟩

theorem levelOf_eq (hl : l.Formed ok width) (p : Path) : l.claims.levelOf p = p.length :=
  hl.ordered.levelOf_eq p

theorem bound_nonneg (hl : l.Formed ok width) (p : Path) (i : Nat) : 0 ≤ (l.bound p i).height :=
  hl.claims.bound_nonneg p i

theorem bound_le (hl : l.Formed ok width) (p : Path) (i : Nat) :
    (l.bound p i).height ≤ Score.unitHeight :=
  hl.claims.bound_le p i

theorem stored_of_bound (hl : l.Formed ok width) (h : 0 < (l.bound p i).height) :
    p.Proper ok 0 ∧ (l.find? p).isSome = true ∧ i < width := by
  obtain ⟨n, he, -, hi⟩ := hl.claims.exists_of_bound h
  have found : l.find? p = some n := hl.claims.find?_eq_some_iff.mpr he
  exact ⟨hl.claims.proper_of_bound h, by rw [found]; rfl, hl.width ▸ hi⟩

theorem isThreshold_bound (hl : l.Formed ok width) (h : 0 < (l.bound p i).height) :
    (l.bound p i).IsThreshold :=
  ⟨h, hl.bound_le p i⟩

theorem isUnsupported_iff (hl : l.Formed ok width) (hp : p.Proper ok 0) :
    l.isUnsupported p = true ↔ l.Dropped p :=
  hl.marks.contains_iff hp

theorem length_le_maxLevel (hl : l.Formed ok width) (h : 0 < (l.bound p i).height) :
    p.length ≤ l.maxLevel := by
  obtain ⟨n, he, -⟩ := hl.claims.exists_of_bound h
  have level := hl.claims.levels _ he
  rw [hl.levelOf_eq] at level
  exact level

end Formed

/-! ## Claiming more -/

/-- One lattice comes from another by claiming more at some places. What is
claimed there is known. -/
structure Grows (added : Path → Nat → Score → Prop) (l l' : Lattice) : Prop where
  keeps : Keeps l.claims l'.claims
  unsupported : l'.unsupported = l.unsupported
  width : l'.claims.width = l.claims.width
  maxLevel : l'.maxLevel ≤ max l.maxLevel l.claims.width
  noted : ∀ k, l.Noted k → l'.Noted k
  le : ∀ p i, (l.bound p i).height ≤ (l'.bound p i).height
  changed : ∀ p i, l'.bound p i ≠ l.bound p i → added p i (l'.bound p i) ∧ l'.Noted p.length

variable {added wider : Path → Nat → Score → Prop}

namespace Grows

theorem refl (added : Path → Nat → Score → Prop) (l : Lattice) : Grows added l l :=
  ⟨.refl _, rfl, rfl, Nat.le_max_left .., fun _ h => h, fun _ _ => Int.le_refl _,
    fun _ _ h => absurd rfl h⟩

theorem mono (h : Grows added l l') (le : ∀ p i b, added p i b → wider p i b) :
    Grows wider l l' :=
  ⟨h.keeps, h.unsupported, h.width, h.maxLevel, h.noted, h.le, fun p i differ =>
    ⟨le p i _ (h.changed p i differ).1, (h.changed p i differ).2⟩⟩

theorem trans (h : Grows added l l') (h' : Grows added l' l'') : Grows added l l'' := by
  have first := h.maxLevel
  have second := h'.maxLevel
  rw [h.width] at second
  refine ⟨h.keeps.trans h'.keeps, h'.unsupported.trans h.unsupported, h'.width.trans h.width,
    by omega, fun k hk => h'.noted k (h.noted k hk),
    fun p i => Int.le_trans (h.le p i) (h'.le p i), fun p i differ => ?_⟩
  by_cases second : l''.bound p i = l'.bound p i
  · rw [second] at differ ⊢
    exact ⟨(h.changed p i differ).1, h'.noted _ (h.changed p i differ).2⟩
  · exact h'.changed p i second

theorem bound_eq (h : Grows added l l') (other : ∀ b, ¬added p i b) :
    l'.bound p i = l.bound p i := by
  by_cases same : l'.bound p i = l.bound p i
  · exact same
  · exact absurd (h.changed p i same).1 (other _)

theorem implied (h : Grows added l l') {height : Int} (implied : l.Implied p height i) :
    l'.Implied p height i := by
  obtain ⟨g, general, le⟩ := implied
  exact ⟨g, general, Int.le_trans le (h.le g i)⟩

theorem dropped_iff (h : Grows added l l') : l'.Dropped p ↔ l.Dropped p := by
  rw [Dropped, Dropped, h.unsupported]

end Grows

/-- A lattice claims nothing that another one does not imply. -/
def Entails (l l' : Lattice) : Prop :=
  ∀ g i, 0 < (l'.bound g i).height → l.Implied g (l'.bound g i).height i

theorem Entails.refl (l : Lattice) : Entails l l := fun g _ _ => ⟨g, .refl g, Int.le_refl _⟩

theorem Entails.trans (h : Entails l l') (h' : Entails l' l'') : Entails l l'' := by
  intro g i positive
  obtain ⟨g', general, le⟩ := h' g i positive
  exact (h g' i (Int.lt_of_lt_of_le positive le)).trans le general

/-- A record pair with this profile refutes no claim. -/
def Heeds (l : Lattice) (v : Scores) : Prop :=
  ∀ g i, v.Reaches g → (l.bound g i).height ≤ v.demand i

theorem Formed.violated_eq_nil_iff (hl : l.Formed ok width) {v : Scores} (len : v.length = width)
    (numbered : v.Numbered) : l.violated v = [] ↔ l.Heeds v := by
  have violated := hl.claims.mem_violated_iff (len.trans hl.width.symm) numbered
  rw [← List.map_eq_nil_iff (f := fun e : Scores × Node => e.1.constraints),
    List.eq_nil_iff_forall_not_mem]
  constructor
  · intro none g i reaches
    exact Int.not_lt.mp fun above => none g ((violated g).mpr ⟨reaches, i, above⟩)
  · intro heeds g listed
    obtain ⟨reaches, i, above⟩ := (violated g).mp listed
    exact absurd above (Int.not_lt.mpr (heeds g i reaches))

theorem Formed.inUnit_of_below (hl : l.Formed ok width) {v : Scores} (numbered : v.Numbered)
    (below : v.demand i < (l.bound p i).height) : (v.score i).inUnit = true := by
  have most := hl.bound_le p i
  exact (Score.inUnit_iff _).mpr
    ⟨numbered.demand_nonneg i, Int.le_of_lt (Int.lt_of_lt_of_le below most)⟩

theorem Heeds.entailed {v : Scores} (h : l.Heeds v) (entails : Entails l l')
    (numbered : v.Numbered) :
    l'.Heeds v := by
  intro g i reaches
  by_cases positive : 0 < (l'.bound g i).height
  · obtain ⟨g', general, le⟩ := entails g i positive
    exact Int.le_trans le (h g' i (reaches.of_generalizes general))
  · exact Int.le_trans (Int.not_lt.mp positive) (numbered.demand_nonneg i)

theorem Heeds.of_ranks {v w : Scores} (h : l.Heeds v) (same : w.ranks = v.ranks) : l.Heeds w := by
  have demand := Scores.demand_eq_of_ranks_eq same
  intro g i reaches
  rw [demand]
  exact h g i fun c => demand c ▸ reaches c

structure Tracked (l l' : Lattice) : Prop where
  keeps : Keeps l.claims l'.claims
  unsupported : l'.unsupported = l.unsupported
  noted : ∀ k, l.Noted k → l'.Noted k
  changed : ∀ p i, l'.bound p i ≠ l.bound p i → l'.Noted p.length

theorem Grows.tracked (h : Grows added l l') : Tracked l l' :=
  ⟨h.keeps, h.unsupported, h.noted, fun p i differ => (h.changed p i differ).2⟩

theorem Tracked.refl (l : Lattice) : Tracked l l :=
  ⟨.refl _, rfl, fun _ h => h, fun _ _ h => absurd rfl h⟩

theorem Tracked.trans (h : Tracked l l') (h' : Tracked l' l'') : Tracked l l'' := by
  refine ⟨h.keeps.trans h'.keeps, h'.unsupported.trans h.unsupported,
    fun k hk => h'.noted k (h.noted k hk), fun p i differ => ?_⟩
  by_cases first : l'.bound p i = l.bound p i
  · exact h'.changed p i (first ▸ differ)
  · exact h'.noted _ (h.changed p i first)

/-- Steps that claim more do so all together, and what each of them sees to
holds in the end if claiming more does not undo it. -/
theorem Formed.foldl {α : Type} (hl : l.Formed ok width) (step : Lattice → α → Lattice)
    (as : List α) (added : Path → Nat → Score → Prop) (goal : α → Lattice → Prop)
    (each : ∀ l, ∀ a ∈ as, l.Formed ok width →
      (step l a).Formed ok width ∧ Grows added l (step l a) ∧ goal a (step l a))
    (lasts : ∀ a l l', Grows added l l' → goal a l → goal a l') :
    (as.foldl step l).Formed ok width ∧ Grows added l (as.foldl step l) ∧
      ∀ a ∈ as, goal a (as.foldl step l) := by
  induction as generalizing l with
  | nil => exact ⟨hl, .refl added l, by simp⟩
  | cons a as ih =>
    obtain ⟨formed, grows, reached⟩ := each l a List.mem_cons_self hl
    obtain ⟨formed', grows', all⟩ :=
      ih formed fun l b hb => each l b (List.mem_cons_of_mem _ hb)
    refine ⟨formed', grows.trans grows', fun b hb => ?_⟩
    rcases List.mem_cons.mp hb with rfl | hb
    · exact lasts b _ _ grows' reached
    · exact all b hb

namespace Formed

theorem visiting (hl : l.Formed ok width) (count : Nat) :
    Formed ok width { l with claims := l.claims.visiting count } :=
  ⟨hl.claims.aside _ _, hl.width, hl.cost, hl.marks⟩

theorem addIfMinimal (hl : l.Formed ok width) (hp : p.Proper ok 0) (hb : b.IsThreshold)
    (hi : i < width) :
    (l.addIfMinimal p b i).2.Formed ok width ∧
      Grows (fun g j c => g = p ∧ j = i ∧ c = b) l (l.addIfMinimal p b i).2 ∧
        (l.addIfMinimal p b i).2.Implied p b.height i := by
  have sound := hl.claims.addIfMinimal hp hb i
  by_cases implied : l.claims.Implied p b.height i
  · obtain ⟨count, eq⟩ := hl.claims.addIfMinimal_of_implied hp hb implied
    rw [Lattice.addIfMinimal, eq]
    exact ⟨hl.visiting count, ⟨.refl _, rfl, rfl, Nat.le_max_left .., fun _ h => h,
      fun _ _ => Int.le_refl _, fun _ _ h => absurd rfl h⟩, implied⟩
  · obtain ⟨count, eq⟩ := hl.claims.addIfMinimal_of_not_implied hp hb implied
    rw [eq] at sound
    have less : (l.bound p i).height < b.height := by
      refine Int.not_le.mp fun le => implied ⟨p, .refl p, le⟩
    have level := hl.levelOf_eq p
    have length := hp.length_le_width hl.claims.within
    -- Only what is known of the changed lattice is used below, not how it was made.
    have result : ∃ l', (l.addIfMinimal p b i).2 = l' ∧ l'.claims.Sound ok ∧
        l'.claims.width = l.claims.width ∧ l'.claims.cost = l.claims.cost ∧
        l'.unsupported = l.unsupported ∧ Keeps l.claims l'.claims ∧
        l'.maxLevel = max l.maxLevel p.length ∧
        (∀ k, l'.Noted k ↔ p.length ≤ k ∨ l.Noted k) ∧
        ∀ g j, l'.bound g j = if g = p ∧ j = i then b else l.bound g j := by
      refine ⟨_, rfl, ?_⟩
      rw [Lattice.addIfMinimal, eq]
      refine ⟨sound, ClaimLattice.width_claim .., ClaimLattice.cost_claim .., rfl,
        ClaimLattice.keeps_claim hl.claims.nonzero hl.claims.branches hp b i,
        by rw [← level]; rfl, ?_, hl.claims.bound_claim hp (hl.width ▸ hi) b⟩
      rw [← level]
      exact ClaimLattice.noted_noteChange l.claims _
    obtain ⟨l', same, sound, width, cost, unsupported, keeps, maxLevel, noted, bounds⟩ := result
    rw [same]
    refine ⟨⟨sound, width.trans hl.width, cost.trans hl.cost, unsupported ▸ hl.marks⟩,
      ⟨keeps, unsupported, width, by omega, ?_, ?_, ?_⟩, p, .refl p, ?_⟩
    · exact fun k h => (noted k).mpr (.inr h)
    · intro g j
      rw [bounds]
      split
      · next here =>
        rw [here.1, here.2]
        exact Int.le_of_lt less
      · exact Int.le_refl _
    · intro g j differ
      rw [bounds] at differ ⊢
      by_cases here : g = p ∧ j = i
      · rw [if_pos here]
        exact ⟨⟨here.1, here.2, rfl⟩, (noted _).mpr (.inl (Nat.le_of_eq (by rw [here.1])))⟩
      · exact absurd (if_neg here) differ
    · change b.height ≤ (l'.bound p i).height
      exact Int.le_of_eq (by rw [bounds, if_pos ⟨rfl, rfl⟩])

theorem addIfMinimalSupported (hl : l.Formed ok width) (hp : p.Proper ok 0) (hb : b.IsThreshold)
    (hi : i < width) :
    (l.addIfMinimalSupported p b i).2.Formed ok width ∧
      Grows (fun g j c => g = p ∧ j = i ∧ c = b) l (l.addIfMinimalSupported p b i).2 ∧
        (¬l.Dropped p → (l.addIfMinimalSupported p b i).2.Implied p b.height i) := by
  rw [Lattice.addIfMinimalSupported]
  split
  · next marked =>
    exact ⟨hl, .refl _ _, fun listed => absurd ((hl.isUnsupported_iff hp).mp marked) listed⟩
  · obtain ⟨formed, grows, implied⟩ := hl.addIfMinimal hp hb hi
    exact ⟨formed, grows, fun _ => implied⟩

theorem isImplied (hl : l.Formed ok width) (p : Path) (b : Score) (i : Nat) :
    (l.isImplied p b i).2.Formed ok width :=
  hl.visiting _

end Formed

/-! ## Changes that are not additions -/

section SetBound

variable (hl : l.Formed ok width) (stored : (l.find? p).isSome = true) (hi : i < width)
  (hb : b.inUnit = true)

include hl hb

theorem Formed.keeps_setBound : Keeps l.claims (l.setBound p i b).claims :=
  hl.claims.keeps_modify p (ClaimLattice.harmless_withBound _ i hb)

omit hb in
include stored hi in
theorem Formed.bound_setBound (g : Path) (j : Nat) :
    (l.setBound p i b).bound g j = if g = p ∧ j = i then b else l.bound g j :=
  hl.claims.bound_setBound stored (hl.width ▸ hi) b g j

theorem Formed.setBound : (l.setBound p i b).Formed ok width :=
  ⟨hl.claims.setBound p i hb, (ClaimLattice.width_modify ..).trans hl.width,
    (ClaimLattice.cost_modify ..).trans hl.cost, hl.marks⟩

end SetBound

theorem noted_setBound (l : Lattice) (p : Path) (i : Nat) (b : Score) (k : Nat) :
    (l.setBound p i b).Noted k ↔ l.Noted k := by
  rw [Noted, ClaimLattice.Noted, Lattice.setBound, ClaimLattice.setBound,
    ClaimLattice.lowestChanged_modify]
  exact Iff.rfl

theorem maxLevel_setBound (l : Lattice) (p : Path) (i : Nat) (b : Score) :
    (l.setBound p i b).maxLevel = l.maxLevel :=
  ClaimLattice.maxLevel_modify ..

theorem Formed.markChanged (hl : l.Formed ok width) (p : Path) :
    (l.markChanged p).Formed ok width :=
  ⟨hl.claims.aside _ _, hl.width, hl.cost, hl.marks⟩

theorem Formed.noted_markChanged (hl : l.Formed ok width) (p : Path) (k : Nat) :
    (l.markChanged p).Noted k ↔ p.length ≤ k ∨ l.Noted k := by
  rw [← hl.levelOf_eq p]
  exact ClaimLattice.noted_noteChange l.claims _ k

section MarkUnsupported

variable (hl : l.Formed ok width)

include hl

theorem Formed.keeps_markUnsupported (p : Path) :
    Keeps l.claims (l.markUnsupported p).claims :=
  hl.claims.keeps_modify p (ClaimLattice.harmless_withdraw _)

theorem Formed.bound_markUnsupported (p g : Path) (j : Nat) :
    (l.markUnsupported p).bound g j = if g = p then 0 else l.bound g j :=
  hl.claims.bound_withdraw p g j

theorem Formed.marked_markUnsupported (hp : p.Proper ok 0) (m : Path) :
    (l.markUnsupported p).unsupported.Marked m ↔ m = p ∨ l.unsupported.Marked m :=
  hl.marks.marked_mark hp

theorem Formed.markUnsupported (hp : p.Proper ok 0) :
    (l.markUnsupported p).Formed ok width :=
  ⟨hl.claims.withdraw p, (ClaimLattice.width_modify ..).trans hl.width,
    (ClaimLattice.cost_modify ..).trans hl.cost, hl.marks.mark hp⟩

end MarkUnsupported

theorem noted_markUnsupported (l : Lattice) (p : Path) (k : Nat) :
    (l.markUnsupported p).Noted k ↔ l.Noted k := by
  rw [Noted, ClaimLattice.Noted, Lattice.markUnsupported, ClaimLattice.withdraw,
    ClaimLattice.lowestChanged_modify]
  exact Iff.rfl

theorem maxLevel_markUnsupported (l : Lattice) (p : Path) :
    (l.markUnsupported p).maxLevel = l.maxLevel :=
  ClaimLattice.maxLevel_modify ..

theorem Formed.takeLowestChanged (hl : l.Formed ok width) :
    l.takeLowestChanged.2.Formed ok width ∧ ∀ k, ¬l.takeLowestChanged.2.Noted k := by
  refine ⟨⟨hl.claims.aside none _, hl.width, hl.cost, hl.marks⟩, ?_⟩
  rintro k ⟨n, none, -⟩
  nomatch none

/-! ## A new lattice -/

theorem bound_new (width : Nat) (p : Path) (i : Nat) :
    (Lattice.new width).bound p i = if p = [] ∧ i < width then 1 else 0 := by
  cases p with
  | nil =>
    change (Array.replicate width (1 : Score)).getD i 0 = _
    rw [Array.getD_eq_getD_getElem?, Array.getElem?_replicate]
    split
    · next hi => simp [hi]
    · next hi => simp [hi]
  | cons x p =>
    rw [if_neg fun h => List.cons_ne_nil x p h.1]
    rfl

theorem formed_new (pos : ok.Positive) (within : ok.Within width) :
    (Lattice.new width).Formed ok width := by
  exact ⟨ClaimLattice.sound_new pos within fun _ _ => Nat.one_pos, rfl, rfl,
    UnsupportedSet.sound_empty pos⟩

end Lattice

end MatchingDependencies
