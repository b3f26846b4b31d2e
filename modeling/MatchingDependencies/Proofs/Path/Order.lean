import MatchingDependencies.Path
import MatchingDependencies.Proofs.Score.Order

/-!
# Generalization of paths

A proper path demands allowed thresholds of increasing columns. It is
determined by what it demands of each column, and one path covers another if
it demands at most as much everywhere. So generalization is an order, and
questions about it are questions about single columns.
-/

set_option autoImplicit false

namespace MatchingDependencies.Path

abbrev Allowed := Nat → Score → Prop

def Allowed.Positive (ok : Allowed) : Prop := ∀ c t, ok c t → t.IsPositive

def Allowed.Graded (ok : Allowed) : Prop := ∀ c t, ok c t → t.IsThreshold

def Allowed.Nonzero (ok : Allowed) : Prop := ∀ c t, ok c t → t.IsNonzero

theorem Allowed.Graded.positive {ok : Allowed} (graded : ok.Graded) : ok.Positive :=
  fun c t ht => (graded c t ht).isPositive

theorem Allowed.Positive.nonzero {ok : Allowed} (pos : ok.Positive) : ok.Nonzero :=
  fun c t ht => (pos c t ht).isNonzero

/-- Columns increase from `first` on, and all thresholds are allowed. -/
def Proper (ok : Allowed) : (first : Nat) → Path → Prop
  | _, [] => True
  | first, (c, t)::p => first ≤ c ∧ ok c t ∧ Proper ok (c+1) p

def demand (p : Path) (c : Nat) : Int := (p.score c).height

def Generalizes (g p : Path) : Prop := ∀ c, g.demand c ≤ p.demand c

/-- Every constraint of the first path is met by the second. Both are in order
of columns, so one walk along both of them tells. -/
def covers : (general specific : Path) → Bool
  | [], _ => true
  | _::_, [] => false
  | (c, t)::general, (d, s)::specific =>
    if c = d then t.rank ≤ s.rank && covers general specific
    else d < c && covers ((c, t)::general) specific

variable {ok : Allowed} {first : Nat} {p q g : Path}

@[simp] theorem demand_nil (c : Nat) : demand [] c = 0 := Score.height_zero

theorem demand_cons (c : Nat) (t : Score) (p : Path) (i : Nat) :
    demand ((c, t)::p) i = if c = i then t.height else p.demand i := by
  rw [demand, score]
  split <;> rfl

theorem Proper.mono {lower : Nat} (h : p.Proper ok first) (le : lower ≤ first) :
    p.Proper ok lower := by
  cases p with
  | nil => trivial
  | cons x p => exact ⟨Nat.le_trans le h.1, h.2⟩

theorem Proper.first_le (h : p.Proper ok first) : ∀ x ∈ p, first ≤ x.1 := by
  induction p generalizing first with
  | nil => simp
  | cons x p ih =>
    intro y hy
    rcases List.mem_cons.mp hy with rfl | hy
    · exact h.1
    · have := ih h.2.2 y hy
      have := h.1
      omega

theorem Proper.allowed (h : p.Proper ok first) : ∀ x ∈ p, ok x.1 x.2 := by
  induction p generalizing first with
  | nil => simp
  | cons x p ih =>
    intro y hy
    rcases List.mem_cons.mp hy with rfl | hy
    · exact h.2.1
    · exact ih h.2.2 y hy

theorem demand_eq_zero_of_lt (c : Nat) (h : ∀ x ∈ p, c < x.1) : p.demand c = 0 := by
  rw [demand, Scores.score_eq_zero_of_lt p c h, Score.height_zero]

theorem Proper.demand_of_lt (h : p.Proper ok first) {c : Nat} (lt : c < first) :
    p.demand c = 0 :=
  demand_eq_zero_of_lt c fun x hx => Nat.lt_of_lt_of_le lt (h.first_le x hx)

theorem Proper.demand_nonneg (pos : ok.Positive) (h : p.Proper ok first) (c : Nat) :
    0 ≤ p.demand c := by
  induction p generalizing first with
  | nil => simp
  | cons x p ih =>
    obtain ⟨d, t⟩ := x
    rw [demand_cons]
    split
    · exact Int.le_of_lt (pos d t h.2.1).1
    · exact ih h.2.2

theorem mem_of_score_ne_zero (c : Nat) (h : p.demand c ≠ 0) : (c, p.score c) ∈ p := by
  induction p with
  | nil => simp at h
  | cons x p ih =>
    obtain ⟨d, t⟩ := x
    rw [demand_cons] at h
    rw [score]
    by_cases e : d = c
    · simp [e]
    · rw [if_neg e] at h ⊢
      exact List.mem_cons_of_mem _ (ih h)

theorem Proper.score_of_mem (h : p.Proper ok first) {x : Nat × Score} (hx : x ∈ p) :
    p.score x.1 = x.2 := by
  induction p generalizing first with
  | nil => simp at hx
  | cons y p ih =>
    obtain ⟨d, t⟩ := y
    rcases List.mem_cons.mp hx with rfl | hx
    · simp [score]
    · have := h.2.2.first_le x hx
      rw [score, if_neg (by omega)]
      exact ih h.2.2 hx

theorem Proper.demand_of_mem (h : p.Proper ok first) {x : Nat × Score} (hx : x ∈ p) :
    p.demand x.1 = x.2.height := by
  rw [demand, h.score_of_mem hx]

/-- A proper path is determined by what it demands. -/
theorem Proper.ext (pos : ok.Positive) (hp : p.Proper ok first) (hq : q.Proper ok first)
    (h : ∀ c, p.demand c = q.demand c) : p = q := by
  induction p generalizing first q with
  | nil =>
    cases q with
    | nil => rfl
    | cons y q =>
      obtain ⟨d, t⟩ := y
      have hd := h d
      have := (pos d t hq.2.1).1
      rw [demand_nil, demand_cons, if_pos rfl] at hd
      omega
  | cons x p ih =>
    obtain ⟨c, s⟩ := x
    have hs := pos c s hp.2.1
    cases q with
    | nil =>
      have hc := h c
      have := hs.1
      rw [demand_nil, demand_cons, if_pos rfl] at hc
      omega
    | cons y q =>
      obtain ⟨d, t⟩ := y
      have ht := pos d t hq.2.1
      have hc := h c
      have hd := h d
      rw [demand_cons, demand_cons] at hc hd
      rw [if_pos rfl] at hc hd
      -- Of two columns the first would be demanded of by one path only.
      have same : c = d := by
        rcases Nat.lt_trichotomy c d with lt | e | lt
        · rw [if_neg (by omega), hq.2.2.demand_of_lt (by omega)] at hc
          have := hs.1
          omega
        · exact e
        · rw [if_neg (by omega), hp.2.2.demand_of_lt (by omega)] at hd
          have := ht.1
          omega
      subst same
      rw [if_pos rfl] at hc
      have tails : p = q := by
        apply ih hp.2.2 hq.2.2
        intro i
        by_cases e : c = i
        · subst e
          rw [hp.2.2.demand_of_lt (by omega), hq.2.2.demand_of_lt (by omega)]
        · have hi := h i
          rwa [demand_cons, demand_cons, if_neg e, if_neg e] at hi
      rw [tails, ht.ext hc]

/-! ## Covering -/

theorem Proper.meets_iff (h : p.Proper ok first) (c : Nat) (t : Score) (ht : 0 < t.height) :
    p.meets c t = true ↔ t.height ≤ p.demand c := by
  induction p generalizing first with
  | nil => simpa [meets] using ht
  | cons x p ih =>
    obtain ⟨d, s⟩ := x
    rw [meets, demand_cons]
    by_cases lt : d < c
    · rw [if_pos lt, if_neg (by omega), ih h.2.2]
    · rw [if_neg lt]
      by_cases e : d = c
      · simp [e, Score.rank_le_iff]
      · have behind := h.2.2.demand_of_lt (c := c) (by omega)
        simp [e, behind, ht]

theorem generalizes_cons_iff {c : Nat} (t s : Score) (hp : Proper ok (c+1) p)
    (hq : Proper ok (c+1) q) :
    Generalizes ((c, t)::p) ((c, s)::q) ↔ t.height ≤ s.height ∧ Generalizes p q := by
  constructor
  · intro h
    constructor
    · have hc := h c
      rwa [demand_cons, demand_cons, if_pos rfl, if_pos rfl] at hc
    · intro i
      by_cases e : c = i
      · subst e
        exact Int.le_of_eq (by rw [hp.demand_of_lt (by omega), hq.demand_of_lt (by omega)])
      · have hi := h i
        rwa [demand_cons, demand_cons, if_neg e, if_neg e] at hi
  · intro ⟨le, tails⟩ i
    have := tails i
    rw [demand_cons, demand_cons]
    split <;> omega

theorem generalizes_cons_right_iff {c : Nat} {s : Score} (hs : 0 ≤ s.height)
    (hp : Proper ok (c+1) p) (hq : Proper ok (c+1) q) :
    Generalizes p ((c, s)::q) ↔ Generalizes p q := by
  have hpc := hp.demand_of_lt (c := c) (by omega)
  have hqc := hq.demand_of_lt (c := c) (by omega)
  constructor
  · intro h i
    have hi := h i
    rw [demand_cons] at hi
    split at hi
    · next e => subst e; omega
    · exact hi
  · intro h i
    have hi := h i
    rw [demand_cons]
    split
    · next e => subst e; omega
    · exact hi

theorem not_generalizes_cons_left {c : Nat} {t : Score} (ht : 0 < t.height)
    (hq : Proper ok (c+1) q) : ¬Generalizes ((c, t)::p) q := by
  intro h
  have hc := h c
  rw [demand_cons, if_pos rfl, hq.demand_of_lt (by omega)] at hc
  omega

theorem covers_iff (pos : ok.Positive) (hp : p.Proper ok first) (hq : q.Proper ok first) :
    p.covers q = true ↔ p.Generalizes q := by
  induction q generalizing first p with
  | nil =>
    cases p with
    | nil => exact iff_of_true rfl fun c => Int.le_refl _
    | cons x p =>
      have hx := (pos x.1 x.2 hp.2.1).1
      have hnil : Proper ok (x.1+1) [] := trivial
      simpa [covers] using not_generalizes_cons_left hx hnil
  | cons y q ih =>
    obtain ⟨d, s⟩ := y
    have hs := (pos d s hq.2.1).1
    cases p with
    | nil =>
      have := fun c => hq.demand_nonneg pos c
      simpa [covers, Generalizes] using this
    | cons x p =>
      obtain ⟨c, t⟩ := x
      have ht := (pos c t hp.2.1).1
      rw [covers]
      by_cases e : c = d
      · subst e
        rw [if_pos rfl, generalizes_cons_iff t s hp.2.2 hq.2.2, ← ih hp.2.2 hq.2.2,
          Bool.and_eq_true, decide_eq_true_iff, Score.rank_le_iff]
      · rw [if_neg e]
        by_cases lt : d < c
        · have hpd : Proper ok (d+1) ((c, t)::p) := ⟨lt, hp.2⟩
          rw [generalizes_cons_right_iff (Int.le_of_lt hs) hpd hq.2.2, ← ih hpd hq.2.2]
          simp [lt]
        · have hqc : Proper ok (c+1) ((d, s)::q) := ⟨by omega, hq.2⟩
          simpa [lt] using not_generalizes_cons_left ht hqc

theorem generalizes_iff_forall_mem (hp : p.Proper ok first) (nonneg : ∀ c, 0 ≤ q.demand c) :
    p.Generalizes q ↔ ∀ x ∈ p, x.2.height ≤ q.demand x.1 := by
  constructor
  · intro h x hx
    rw [← hp.demand_of_mem hx]
    exact h x.1
  · intro h c
    by_cases zero : p.demand c = 0
    · rw [zero]
      exact nonneg c
    · exact h _ (mem_of_score_ne_zero c zero)

theorem Generalizes.refl (p : Path) : p.Generalizes p := fun _ => Int.le_refl _

theorem Generalizes.trans (h : g.Generalizes p) (h' : p.Generalizes q) : g.Generalizes q :=
  fun c => Int.le_trans (h c) (h' c)

theorem Generalizes.antisymm (pos : ok.Positive) (hp : p.Proper ok first)
    (hq : q.Proper ok first) (h : p.Generalizes q) (h' : q.Generalizes p) : p = q :=
  hp.ext pos hq fun c => Int.le_antisymm (h c) (h' c)

/-! ## Setting a threshold -/

theorem score_set (p : Path) (c : Nat) (t : Score) (i : Nat) :
    (p.set c t).score i = if c = i then t else p.score i := by
  induction p with
  | nil => rfl
  | cons x p ih =>
    obtain ⟨d, s⟩ := x
    rw [set]
    by_cases lt : d < c
    · rw [if_pos lt, score, score, ih]
      split <;> split <;> first | rfl | omega
    · rw [if_neg lt]
      by_cases e : d = c
      · subst e
        rw [if_pos rfl, score, score]
        split <;> rfl
      · rw [if_neg e, score]

theorem demand_set (p : Path) (c : Nat) (t : Score) (i : Nat) :
    (p.set c t).demand i = if c = i then t.height else p.demand i := by
  rw [demand, score_set]
  split <;> rfl

theorem Proper.set (h : p.Proper ok first) {c : Nat} {t : Score} (le : first ≤ c) (ht : ok c t) :
    (p.set c t).Proper ok first := by
  induction p generalizing first with
  | nil => exact ⟨le, ht, trivial⟩
  | cons x p ih =>
    obtain ⟨d, s⟩ := x
    rw [Path.set]
    by_cases lt : d < c
    · rw [if_pos lt]
      exact ⟨h.1, h.2.1, ih h.2.2 lt⟩
    · rw [if_neg lt]
      by_cases e : d = c
      · subst e
        rw [if_pos rfl]
        exact ⟨le, ht, h.2.2⟩
      · rw [if_neg e]
        exact ⟨le, ht, by omega, h.2⟩

theorem generalizes_set {c : Nat} {t : Score} (le : p.demand c ≤ t.height) :
    p.Generalizes (p.set c t) := by
  intro d
  rw [demand_set]
  split
  · next eq => exact eq ▸ le
  · exact Int.le_refl _

theorem ne_set {c : Nat} {t : Score} (lt : p.demand c < t.height) : p ≠ p.set c t := by
  intro same
  have demand := p.demand_set c t c
  rw [← same, if_pos rfl] at demand
  omega

theorem Generalizes.length_le (pos : ok.Positive) (hp : p.Proper ok first)
    (hq : q.Proper ok first) (h : Generalizes p q) : p.length ≤ q.length := by
  induction q generalizing first p with
  | nil =>
    cases p with
    | nil => exact Nat.le_refl 0
    | cons x p =>
      have hnil : Proper ok (x.1+1) [] := trivial
      exact absurd h (not_generalizes_cons_left (pos x.1 x.2 hp.2.1).1 hnil)
  | cons y q ih =>
    obtain ⟨d, s⟩ := y
    have hs := (pos d s hq.2.1).1
    cases p with
    | nil => exact Nat.zero_le _
    | cons x p =>
      obtain ⟨c, t⟩ := x
      have ht := (pos c t hp.2.1).1
      rcases Nat.lt_trichotomy c d with lt | e | lt
      · have hqc : Proper ok (c+1) ((d, s)::q) := ⟨by omega, hq.2⟩
        exact absurd h (not_generalizes_cons_left ht hqc)
      · subst e
        have := ih hp.2.2 hq.2.2 ((generalizes_cons_iff t s hp.2.2 hq.2.2).mp h).2
        simpa using this
      · have hpd : Proper ok (d+1) ((c, t)::p) := ⟨lt, hp.2⟩
        have := ih hpd hq.2.2 ((generalizes_cons_right_iff (Int.le_of_lt hs) hpd hq.2.2).mp h)
        exact Nat.le_succ_of_le this

end MatchingDependencies.Path
