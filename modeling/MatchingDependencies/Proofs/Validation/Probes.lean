import MatchingDependencies.Counting
import MatchingDependencies.Proofs.Dataset.Groups
import MatchingDependencies.Proofs.Lattice.Listings
import MatchingDependencies.Proofs.Stopping
import MatchingDependencies.Validation

/-!
# What the probes of a validation know

A probe stands for the similarities it has seen. It stands for all of them
although it stops early: a bound that has collapsed to zero stays there.
-/

set_option autoImplicit false

namespace MatchingDependencies

/-- The bound that is left of an old one after some similarities were seen: the
least of all, or zero if that is not above the floor. -/
def Settles (floor old new : Int) (seen : Int → Prop) : Prop :=
  new = 0 ∧ (old ≤ floor ∨ ∃ s, seen s ∧ s ≤ floor) ∨
    floor < new ∧ new ≤ old ∧ (∀ s, seen s → new ≤ s) ∧ (new = old ∨ seen new)

namespace Settles

variable {floor old new : Int} {seen more : Int → Prop}

theorem zero (hf : 0 ≤ floor) (h : Settles floor old 0 seen) :
    Settles floor old 0 fun s => seen s ∨ more s := by
  rcases h with ⟨-, low | ⟨s, hs, low⟩⟩ | ⟨above, -⟩
  · exact .inl ⟨rfl, .inl low⟩
  · exact .inl ⟨rfl, .inr ⟨s, .inl hs, low⟩⟩
  · omega

theorem of_le (hf : 0 ≤ floor) (h : Settles floor old new seen) {s : Int} (le : new ≤ s) :
    Settles floor old new fun x => seen x ∨ x = s := by
  rcases h with ⟨rfl, low⟩ | ⟨above, below, all, attained⟩
  · exact zero hf (.inl ⟨rfl, low⟩)
  · refine .inr ⟨above, below, ?_, attained.imp_right .inl⟩
    rintro x (hx | rfl)
    · exact all x hx
    · exact le

theorem see (hf : 0 ≤ floor) (h : Settles floor old new seen) {s : Int} (hs : 0 ≤ s) :
    Settles floor old (if min s new ≤ floor then 0 else min s new) fun x => seen x ∨ x = s := by
  rcases h with ⟨rfl, low⟩ | ⟨above, below, all, attained⟩
  · rw [if_pos (by omega)]
    exact zero hf (.inl ⟨rfl, low⟩)
  · by_cases collapse : min s new ≤ floor
    · rw [if_pos collapse]
      exact .inl ⟨rfl, .inr ⟨s, .inr rfl, by omega⟩⟩
    · rw [if_neg collapse]
      refine .inr ⟨by omega, by omega, ?_, ?_⟩
      · rintro x (hx | rfl)
        · have := all x hx
          omega
        · omega
      · by_cases lt : s < new
        · exact .inr (.inr (by omega))
        · rcases attained with eq | hx
          · exact .inl (by omega)
          · exact .inr (.inl (by rwa [show min s new = new by omega]))

theorem le (ho : 0 ≤ old) (h : Settles floor old new seen) : new ≤ old := by
  rcases h with ⟨rfl, -⟩ | ⟨-, below, -⟩
  · exact ho
  · exact below

theorem start (floor old : Int) :
    Settles floor old (if old ≤ floor then 0 else old) fun _ => False := by
  split
  · next low => exact .inl ⟨rfl, .inl low⟩
  · exact .inr ⟨by omega, Int.le_refl _, by simp, .inl rfl⟩

end Settles

namespace Probe

/-- A probe stands for the similarities seen so far. -/
structure Knows (i : Nat) (old floor : Score) (p : Probe) (seen : Int → Prop) : Prop where
  index : p.index = i
  oldBound : p.oldBound = old
  floorBound : p.floor = floor
  unit : p.bound.inUnit = true
  settles : Settles floor.height old.height p.bound.height seen

variable {i : Nat} {old floor : Score} {p : Probe} {seen : Int → Prop}

theorem Knows.of_isSettled (hf : floor.IsNonneg) (h : p.Knows i old floor seen)
    (settled : p.isSettled = true) (more : Int → Prop) :
    p.Knows i old floor fun s => seen s ∨ more s := by
  rw [isSettled, Bool.and_eq_true, Score.isZero_iff] at settled
  refine ⟨h.index, h.oldBound, h.floorBound, h.unit, ?_⟩
  have settles := h.settles
  rw [settled.1] at settles ⊢
  exact settles.zero hf.1

theorem height_boundAfter (hf : p.floor.IsNonneg) (hb : p.bound.inUnit = true) {s : Score}
    (hs : s.IsNonneg) : (p.boundAfter s).inUnit = true ∧ (p.boundAfter s).height =
      if min s.height p.bound.height ≤ p.floor.height then 0 else min s.height p.bound.height := by
  have top := Score.unitHeight_lt_top
  have positive := Score.unitHeight_pos
  rw [Score.inUnit_iff] at hb
  obtain ⟨nonneg, number⟩ := hs
  have floor := hf.2
  have least : (if s < p.bound then s else p.bound).height = min s.height p.bound.height := by
    split
    · next lt =>
      rw [Score.lt_iff] at lt
      omega
    · next not_lt =>
      rw [Score.lt_iff] at not_lt
      omega
  rw [boundAfter]
  generalize (if s < p.bound then s else p.bound) = low at least
  rw [← least, Score.inUnit_iff]
  by_cases collapse : low.height ≤ p.floor.height
  · rw [if_pos ((Score.le_iff _ _).mpr ⟨collapse, by omega⟩), if_pos collapse, Score.height_zero]
    omega
  · rw [if_neg fun le => collapse ((Score.le_iff _ _).mp le).1, if_neg collapse]
    omega

theorem Knows.look (hf : floor.IsNonneg) (h : p.Knows i old floor seen) (lefts : LeftPart)
    (right : Record) {s : Score} (hs : s.IsNonneg) :
    (p.look lefts right s).Knows i old floor fun x => seen x ∨ x = s.height := by
  have bound := p.height_boundAfter (h.floorBound ▸ hf) h.unit hs
  have seen' : Settles floor.height old.height (p.boundAfter s).height
      fun x => seen x ∨ x = s.height := by
    rw [bound.2, h.floorBound]
    exact h.settles.see hf.1 hs.1
  rw [Probe.look]
  split
  · exact ⟨h.index, h.oldBound, h.floorBound, bound.1, seen'⟩
  · split
    · exact ⟨h.index, h.oldBound, h.floorBound, bound.1, seen'⟩
    · next not_lt =>
      have number := (Score.isNonneg_of_inUnit h.unit).2
      rw [Score.lt_iff] at not_lt
      exact ⟨h.index, h.oldBound, h.floorBound, h.unit, h.settles.of_le hf.1 (by omega)⟩

theorem Knows.lookAt (hf : floor.IsNonneg) (h : p.Knows i old floor seen)
    (rights : Array Record) (column : Nat) (parts : List LeftPart) (similar : List Nat)
    (nonneg : ∀ part ∈ parts, ∀ v, (part.row.similarity v).IsNonneg) :
    (p.lookAt rights column parts similar).Knows i old floor fun x => seen x ∨
      ∃ part ∈ parts, ∃ r ∈ similar,
        x = (part.row.similarity ((rights.getD r #[]).getD column 0)).height := by
  rw [Probe.lookAt]
  refine foldUntil_knows (K := Knows i old floor) (fun p part hpart seen hp => ?_)
    (fun p seen more settled hp => hp.of_isSettled hf settled more) h
  refine foldUntil_knows (K := Knows i old floor) (fun p r _ seen hp => ?_)
    (fun p seen more settled hp => hp.of_isSettled hf settled more) hp
  exact hp.look hf part _ (nonneg part hpart _)

end Probe

namespace Dataset

variable {d : Dataset}

def GroupProfile (d : Dataset) (g : PairGroup) (v : Scores) : Prop :=
  ∃ k ∈ g.lefts, ∃ r ∈ g.rights, v = d.profile k.record (d.rightRecord r)

theorem mem_leftParts {i : Nat} {kinds : List Kind} {part : LeftPart}
    (h : part ∈ d.leftParts i kinds) :
    part.kinds ≠ [] ∧ ∀ k ∈ part.kinds, k ∈ kinds ∧
      part.row = (d.comparison i).row (k.record.getD (d.columnMatch i).left 0) := by
  obtain ⟨⟨value, group⟩, hg, rfl⟩ := List.mem_map.mp h
  obtain ⟨rfl, some⟩ := (mem_groupBy_iff _).mp hg
  refine ⟨some, fun k hk => ?_⟩
  obtain ⟨inside, eq⟩ := List.mem_filter.mp hk
  obtain rfl := of_decide_eq_true eq
  exact ⟨inside, rfl⟩

theorem exists_leftPart {i : Nat} {kinds : List Kind} {k : Kind} (hk : k ∈ kinds) :
    ∃ part ∈ d.leftParts i kinds, k ∈ part.kinds := by
  have key := key_mem_groupBy (fun k : Kind => k.record.getD (d.columnMatch i).left 0) hk
  obtain ⟨⟨value, group⟩, hg, rfl⟩ := List.mem_map.mp key
  refine ⟨_, List.mem_map.mpr ⟨_, hg, rfl⟩, ?_⟩
  rw [((mem_groupBy_iff _).mp hg).1]
  exact List.mem_filter.mpr ⟨hk, by simp⟩

end Dataset

namespace Probe

variable {d : Dataset} {i : Nat} {old floor : Score} {p : Probe} {seen : Scores → Prop}

def Similarities (i : Nat) (seen : Scores → Prop) (s : Int) : Prop := ∃ v, seen v ∧ v.demand i = s

theorem Knows.visit (hd : d.Sound) (hi : i < d.width) (hf : floor.IsNonneg) (g : PairGroup)
    (h : p.Knows i old floor (Similarities i seen)) :
    (p.visit d g).Knows i old floor
      (Similarities i fun v => seen v ∨ d.GroupProfile g v) := by
  have all : (Similarities i fun v => seen v ∨ d.GroupProfile g v) = fun s =>
      Similarities i seen s ∨ Similarities i (d.GroupProfile g) s := by
    funext s
    simp only [Similarities, or_and_right, exists_or]
  rw [all, Probe.visit]
  split
  · next settled => exact h.of_isSettled hf settled _
  · -- The similarities of the group are those of its parts with its right records.
    have parts : Similarities i (d.GroupProfile g) = fun s =>
        ∃ part ∈ d.leftParts i g.lefts, ∃ r ∈ g.rights, s = (part.row.similarity
          ((d.tables.right.records.getD r #[]).getD (d.columnMatch i).right 0)).height := by
      funext s
      apply propext
      constructor
      · rintro ⟨v, ⟨k, hk, r, hr, rfl⟩, rfl⟩
        obtain ⟨part, hpart, hkp⟩ := d.exists_leftPart (i := i) hk
        refine ⟨part, hpart, r, hr, ?_⟩
        rw [((d.mem_leftParts hpart).2 k hkp).2, Scores.demand, d.score_profile _ _ hi]
        rfl
      · rintro ⟨part, hpart, r, hr, rfl⟩
        obtain ⟨some, all⟩ := d.mem_leftParts hpart
        obtain ⟨k, hk⟩ := List.exists_mem_of_ne_nil _ some
        refine ⟨_, ⟨k, (all k hk).1, r, hr, rfl⟩, ?_⟩
        rw [(all k hk).2, Scores.demand, d.score_profile _ _ hi]
        rfl
    rw [h.index, parts]
    apply h.lookAt hf _ _ _ _
    intro part hpart v
    obtain ⟨some, all⟩ := d.mem_leftParts hpart
    obtain ⟨k, hk⟩ := List.exists_mem_of_ne_nil _ some
    rw [(all k hk).2]
    exact Score.isNonneg_of_canonical ((hd.comparisons i hi).canonical _ v)

def Real (d : Dataset) (p : Probe) : Prop :=
  ∀ f ∈ p.findings, ∀ k ∈ f.lefts, k ∈ d.tables.left.kinds ∧
    ∃ r, r < d.rightCount ∧ f.right = d.rightRecord r

theorem Real.visit {g : PairGroup} (h : p.Real d) (lefts : ∀ k ∈ g.lefts, k ∈ d.tables.left.kinds)
    (rights : ∀ k ∈ g.lefts, ∀ r ∈ g.rights, r < d.rightCount) : (p.visit d g).Real d := by
  rw [Probe.visit]
  split
  · exact h
  · rw [Probe.lookAt]
    refine foldUntil_preserves (P := Real d) (fun p part hpart hp => ?_) h
    refine foldUntil_preserves (P := Real d) (fun p r hr hp => ?_) hp
    have kinds := (d.mem_leftParts hpart).2
    have next : ∀ f ∈ p.findings.push ⟨part.kinds, d.tables.right.records.getD r #[]⟩,
        ∀ k ∈ f.lefts, k ∈ d.tables.left.kinds ∧
          ∃ r, r < d.rightCount ∧ f.right = d.rightRecord r := by
      intro f hf k hk
      rcases Array.mem_push.mp hf with hf | rfl
      · exact hp f hf k hk
      · exact ⟨lefts k (kinds k hk).1, r, rights k (kinds k hk).1 r hr, rfl⟩
    rw [Probe.look]
    split
    · exact next
    · split
      · exact hp
      · exact hp

end Probe

namespace Survey

variable {d : Dataset} {indices : Indices} {old floor : Nat → Score}

/-- The probes of a survey stand for the profiles seen so far. -/
def Knows (indices : Indices) (old floor : Nat → Score) (s : Survey)
    (seen : Scores → Prop) : Prop :=
  ∃ probes : Nat → Probe, s.probes = indices.map probes ∧
    ∀ i ∈ indices, (probes i).Knows i (old i) (floor i) (Probe.Similarities i seen)

theorem Knows.visit (hd : d.Sound) (inside : ∀ i ∈ indices, i < d.width)
    (hf : ∀ i, (floor i).IsNonneg) {s : Survey} {seen : Scores → Prop}
    (h : s.Knows indices old floor seen) (g : PairGroup) :
    (s.visit d g).Knows indices old floor fun v => seen v ∨ d.GroupProfile g v := by
  obtain ⟨probes, eq, all⟩ := h
  refine ⟨fun i => (probes i).visit d g, ?_, fun i hi => ?_⟩
  · rw [Survey.visit, eq, List.map_map]
    rfl
  · exact (all i hi).visit hd (inside i hi) (hf i) g

theorem Knows.of_isFinal (hf : ∀ i, (floor i).IsNonneg) {minSupport : Nat} {s : Survey}
    {seen : Scores → Prop} (h : s.Knows indices old floor seen)
    (final : s.isFinal minSupport = true) (more : Scores → Prop) :
    s.Knows indices old floor fun v => seen v ∨ more v := by
  obtain ⟨probes, eq, all⟩ := h
  rw [isFinal, Bool.and_eq_true, Bool.and_eq_true, List.all_eq_true, eq] at final
  refine ⟨probes, eq, fun i hi => ?_⟩
  have settled := final.1.1 _ (List.mem_map_of_mem hi)
  have both : (Probe.Similarities i fun v => seen v ∨ more v) = fun s =>
      Probe.Similarities i seen s ∨ Probe.Similarities i more s := by
    funext s
    simp only [Probe.Similarities, or_and_right, exists_or]
  rw [both]
  exact (all i hi).of_isSettled (hf i) settled _

theorem support_foldl (d : Dataset) (groups : List PairGroup) (s : Survey) :
    (groups.foldl (Survey.visit d) s).support =
      s.support + sumOver PairGroup.pairCount groups := by
  induction groups generalizing s with
  | nil => rfl
  | cons g groups ih =>
    rw [List.foldl_cons, ih, sumOver_cons, ← Nat.add_assoc]
    rfl

end Survey

end MatchingDependencies
