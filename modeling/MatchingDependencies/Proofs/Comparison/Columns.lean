import MatchingDependencies.Proofs.Comparison.Row

/-!
# The comparison of two columns

Whatever a measure answers, a comparison that was built is sound: similarities
are zero or positive numbers, the boundaries are the positive ones that occur,
the lowest similarity is the least of all and of one, and the index knows the
records that reach a threshold.
-/

set_option autoImplicit false

namespace MatchingDependencies

theorem exists_of_map_eq_ok {ε α β : Type} {f : α → β} {x : Except ε α} {b : β}
    (h : x.map f = .ok b) : ∃ a, x = .ok a ∧ f a = b := by
  cases x with
  | error e => nomatch h
  | ok a => exact ⟨a, rfl, Except.ok.inj h⟩

theorem exists_of_mapM_eq_ok {α β ε : Type} {f : α → Except ε β} {as : List α} {bs : List β}
    (h : as.mapM f = .ok bs) :
    bs.length = as.length ∧
      ∀ (i : Nat) (a : α), as[i]? = some a → ∃ b, bs[i]? = some b ∧ f a = .ok b := by
  induction as generalizing bs with
  | nil =>
    obtain rfl := Except.ok.inj h
    exact ⟨rfl, nofun⟩
  | cons a as ih =>
    rw [List.mapM_cons] at h
    cases first : f a with
    | error e =>
      rw [first] at h
      nomatch h
    | ok b =>
      rw [first] at h
      obtain ⟨cs, rest, rfl⟩ := exists_of_map_eq_ok h
      obtain ⟨length, all⟩ := ih rest
      constructor
      · exact congrArg Nat.succ length
      · intro i x found
        cases i with
        | zero =>
          obtain rfl := Option.some.inj found
          exact ⟨b, rfl, first⟩
        | succ i => exact all i x found

namespace Score

theorem foldl_smaller (scores : List Score) (start : Score) (unit : start.inUnit = true)
    (all : ∀ s ∈ scores, s.IsNonneg) :
    (scores.foldl smaller start).inUnit = true ∧
      (scores.foldl smaller start).height ≤ start.height ∧
      (∀ s ∈ scores, (scores.foldl smaller start).height ≤ s.height) ∧
      ((scores.foldl smaller start).height = start.height ∨
        ∃ s ∈ scores, (scores.foldl smaller start).height = s.height) := by
  induction scores generalizing start with
  | nil => exact ⟨unit, Int.le_refl _, by simp, .inl rfl⟩
  | cons s scores ih =>
    have nonneg := (all s List.mem_cons_self).1
    have height := height_smaller (b := s) (isNonneg_of_inUnit unit).2
    have next : (start.smaller s).inUnit = true := by
      rw [inUnit_iff] at unit ⊢
      omega
    obtain ⟨inside, le, least, attained⟩ :=
      ih (start.smaller s) next fun t ht => all t (List.mem_cons_of_mem _ ht)
    rw [List.foldl_cons]
    refine ⟨inside, by omega, fun t ht => ?_, ?_⟩
    · rcases List.mem_cons.mp ht with rfl | ht
      · omega
      · exact least t ht
    · rcases attained with eq | ⟨t, ht, eq⟩
      · by_cases lt : s.height < start.height
        · exact .inr ⟨s, List.mem_cons_self, by omega⟩
        · exact .inl (by omega)
      · exact .inr ⟨t, List.mem_cons_of_mem _ ht, eq⟩

theorem foldl_smaller_plain (scores : List Score) (start : Score) (plain : start.IsPlain)
    (all : ∀ s ∈ scores, s.IsPlain) : (scores.foldl smaller start).IsPlain := by
  induction scores generalizing start with
  | nil => exact plain
  | cons s scores ih =>
    refine ih (start.smaller s) ?_ fun t ht => all t (List.mem_cons_of_mem _ ht)
    rw [smaller]
    split
    · exact all s List.mem_cons_self
    · exact plain

end Score

namespace Comparison

open Ascending (scoreOf)

/-! ## Entries -/

theorem sublist_range_of_filter {α : Type} (texts : List α) (test : α × Nat → Bool) :
    (((texts.zipIdx).filter test).map (·.2)).Sublist (List.range texts.length) := by
  have whole : texts.zipIdx.map (·.2) = List.range texts.length := by
    rw [List.zipIdx_map_snd, List.range_eq_range']
  rw [← whole]
  exact List.filter_sublist.map _

theorem isThreshold_one : (1 : Score).IsThreshold := (Score.isThreshold_iff 1).mpr (by decide)

theorem ascending_map_one {numbers : List Nat} {count : Nat}
    (h : numbers.Sublist (List.range count)) :
    Ascending count (numbers.map fun right => (right, (1 : Score))) := by
  refine ⟨?_, fun e he => ?_, fun e he => ?_⟩
  · rw [List.pairwise_map]
    exact List.pairwise_lt_range.sublist h
  · obtain ⟨n, hn, rfl⟩ := List.mem_map.mp he
    exact List.mem_range.mp (h.subset hn)
  · obtain ⟨n, -, rfl⟩ := List.mem_map.mp he
    exact isThreshold_one.isPositive

theorem counted_sublist (cutoff : Score) (regular : List Nat) (scores : List Score) :
    ((counted cutoff regular scores).map (·.1)).Sublist regular := by
  induction regular generalizing scores with
  | nil => simp [counted]
  | cons right regular ih =>
    cases scores with
    | nil => simp [counted]
    | cons s scores =>
      rw [counted]
      split
      · exact (ih scores).cons_cons right
      · exact (ih scores).cons right

theorem mem_counted {cutoff : Score} {regular : List Nat} {scores : List Score} {e : Nat × Score}
    (h : e ∈ counted cutoff regular scores) : e.2 ∈ scores ∧ counts cutoff e.2 = true := by
  induction regular generalizing scores with
  | nil => simp [counted] at h
  | cons right regular ih =>
    cases scores with
    | nil => simp [counted] at h
    | cons s scores =>
      rw [counted] at h
      split at h
      · next pass =>
        rcases List.mem_cons.mp h with rfl | h
        · exact ⟨List.mem_cons_self, pass⟩
        · exact ⟨List.mem_cons_of_mem _ (ih h).1, (ih h).2⟩
      · exact ⟨List.mem_cons_of_mem _ (ih h).1, (ih h).2⟩

theorem entries_cases {measure : Measure} {nullEqualsNull : Bool} {texts : List String}
    {left : String} {es : Entries}
    (h : entries measure nullEqualsNull (RightValues.ofTexts texts) left = .ok es) :
    ∃ numbers : List Nat, numbers.Sublist (List.range texts.length) ∧
      (es = numbers.map (fun right => (right, 1)) ∨ ∃ rights : List String,
        es = counted measure.cutoff numbers
          (measure.row (Comparand.ofText left) (rights.map Comparand.ofText))) := by
  unfold entries at h
  split at h
  · obtain rfl := Except.ok.inj h
    split
    · exact ⟨_, sublist_range_of_filter texts _, .inl rfl⟩
    · exact ⟨[], List.nil_sublist _, .inl rfl⟩
  · obtain rfl := Except.ok.inj h
    exact ⟨_, sublist_range_of_filter texts _, .inl rfl⟩
  · refine ⟨_, sublist_range_of_filter texts fun x => ValueClass.of x.1 = .regular, .inr
      ⟨(texts.zipIdx.filter fun x => ValueClass.of x.1 = .regular).map (·.1), ?_⟩⟩
    rw [List.map_map]
    change (checkScores measure left (RightValues.ofTexts texts).comparands
      (measure.row (Comparand.ofText left) (RightValues.ofTexts texts).comparands)).map
        (fun _ => counted measure.cutoff (RightValues.ofTexts texts).regular
          (measure.row (Comparand.ofText left) (RightValues.ofTexts texts).comparands)) =
            .ok es at h
    cases checked : checkScores measure left (RightValues.ofTexts texts).comparands
        (measure.row (Comparand.ofText left) (RightValues.ofTexts texts).comparands) with
    | error e =>
      rw [checked] at h
      nomatch h
    | ok _ =>
      rw [checked] at h
      exact (Except.ok.inj h).symm

theorem entries_ascending {measure : Measure} {nullEqualsNull : Bool} {texts : List String}
    {left : String} {es : Entries}
    (h : entries measure nullEqualsNull (RightValues.ofTexts texts) left = .ok es) :
    Ascending texts.length es := by
  obtain ⟨numbers, inside, rfl | ⟨rights, rfl⟩⟩ := entries_cases h
  · exact ascending_map_one inside
  · have part := (counted_sublist measure.cutoff numbers
      (measure.row (Comparand.ofText left) (rights.map Comparand.ofText))).trans inside
    refine ⟨?_, fun e he => ?_, fun e he => ?_⟩
    · have := List.pairwise_lt_range.sublist part
      rwa [List.pairwise_map] at this
    · exact List.mem_range.mp (part.subset (List.mem_map_of_mem he))
    · have pass := (mem_counted he).2
      rw [counts, Bool.and_eq_true, decide_eq_true_iff, Score.lt_iff, Score.height_zero] at pass
      exact pass.1

section LeastOf

variable {count : Nat} {es : Entries}

theorem nodup_numbers (h : Ascending count es) : (es.map (·.1)).Nodup := by
  rw [List.nodup_iff_pairwise_ne, List.pairwise_map]
  exact h.increasing.imp Nat.ne_of_lt

theorem exists_scoreOf_eq_zero (h : Ascending count es) (few : es.length < count) :
    ∃ r, r < count ∧ scoreOf es r = 0 := by
  have absent : ∃ r, r < count ∧ r ∉ es.map (·.1) := by
    by_contra none
    have all : List.range count ⊆ es.map (·.1) := by
      intro r hr
      by_contra hn
      exact none ⟨r, List.mem_range.mp hr, hn⟩
    have longer := List.nodup_range.length_le_of_subset all
    simp at longer
    omega
  obtain ⟨r, hr, absent⟩ := absent
  rcases h.scoreOf_cases r with zero | ⟨-, mem⟩
  · exact ⟨r, hr, zero⟩
  · exact absurd (List.mem_map_of_mem mem) absent

theorem scoreOf_ne_zero (h : Ascending count es) {r : Nat} (entered : r ∈ es.map (·.1)) :
    scoreOf es r ≠ 0 := by
  obtain ⟨e, he, rfl⟩ := List.mem_map.mp entered
  intro zero
  have positive := (h.positive e he).1
  rw [← h.scoreOf_mem he, zero, Score.height_zero] at positive
  omega

theorem mem_of_count_le (h : Ascending count es) (many : count ≤ es.length) {r : Nat}
    (hr : r < count) :
    (r, scoreOf es r) ∈ es := by
  rcases h.scoreOf_cases r with zero | ⟨-, mem⟩
  · exfalso
    have sub : es.map (·.1) ⊆ (List.range count).erase r := by
      intro i hi
      obtain ⟨e, he, rfl⟩ := List.mem_map.mp hi
      rw [List.nodup_range.mem_erase_iff]
      exact ⟨fun eq => scoreOf_ne_zero h (eq ▸ hi) zero, List.mem_range.mpr (h.below e he)⟩
    have shorter := (nodup_numbers h).length_le_of_subset sub
    rw [List.length_erase_of_mem (List.mem_range.mpr hr)] at shorter
    simp at shorter
    omega
  · exact mem

theorem leastOf_spec (h : Ascending count es) : (leastOf count es).inUnit = true ∧
    (∀ r, r < count → (leastOf count es).height ≤ (scoreOf es r).height) ∧
    ((∃ r, r < count ∧ (leastOf count es).height = (scoreOf es r).height) ∨
      (leastOf count es).height = Score.unitHeight) := by
  rw [leastOf]
  split
  · next few =>
    refine ⟨by decide, fun r _ => ?_, .inl ?_⟩
    · rw [Score.height_zero]
      exact (h.isNonneg r).1
    · obtain ⟨r, hr, zero⟩ := exists_scoreOf_eq_zero h few
      exact ⟨r, hr, by rw [zero]⟩
  · next many =>
    have dense := Nat.not_lt.mp many
    have all := fun r hr =>
      List.mem_map_of_mem (f := (·.2)) (mem_of_count_le h dense (r := r) hr)
    have spec := Score.foldl_smaller (es.map (·.2)) 1 (by decide) fun s hs => by
      obtain ⟨e, he, rfl⟩ := List.mem_map.mp hs
      exact (h.positive e he).isNonneg
    refine ⟨spec.1, fun r hr => spec.2.2.1 _ (all r hr), ?_⟩
    rcases spec.2.2.2 with one | ⟨s, hs, eq⟩
    · exact .inr (one.trans Score.height_one)
    · obtain ⟨e, he, rfl⟩ := List.mem_map.mp hs
      exact .inl ⟨e.1, h.below e he, by rw [h.scoreOf_mem he]; exact eq⟩

end LeastOf

/-! ## All left values -/

/-- What a search relies on in the comparison of two columns. -/
structure Sound (c : Comparison) (lefts : Nat) (clusters : Array (List Nat)) : Prop where
  canonical : ∀ l r, c.similarity l r = 0 ∨ (c.similarity l r).IsPositive
  records : ∀ l, l < lefts → ∀ (records : Nat) (value : Nat → Nat),
    Clustered clusters records value → ∀ t : Score, 0 < t.height →
      match c.recordsFor? l t with
      | none => ∀ r, (c.similarity l r).height < t.height
      | some found => (∃ r, r < clusters.size ∧ t.height ≤ (c.similarity l r).height) ∧ found =
        (List.range records).filter fun x => t.height ≤ (c.similarity l (value x)).height
  sorted : c.boundaries.toList.Pairwise fun a b => a.height < b.height
  mem_boundaries_iff : ∀ t, t ∈ c.boundaries ↔
    t.IsPositive ∧ ∃ l r, l < lefts ∧ r < clusters.size ∧ c.similarity l r = t
  lowest_inUnit : c.lowest.inUnit = true
  lowest_le : ∀ l r, l < lefts → r < clusters.size →
    c.lowest.height ≤ (c.similarity l r).height
  lowest_attained : (∃ l r, l < lefts ∧ r < clusters.size ∧
    c.lowest.height = (c.similarity l r).height) ∨ c.lowest.height = Score.unitHeight

theorem exists_entries {measure : Measure} {nullEqualsNull : Bool} {left right : Column}
    {c : Comparison} (h : build measure nullEqualsNull left right = .ok c)
    (holds : Nat → Entries → Prop) (none : ∀ l, left.values.size ≤ l → holds l [])
    (all : ∀ l (hl : l < left.values.size) es, entries measure nullEqualsNull
      (RightValues.ofTexts right.values.toList) left.values[l] = .ok es → holds l es) :
    ∃ es : Nat → Entries, (∀ l, holds l (es l)) ∧
      c = ofRows ((List.range left.values.size).map fun l =>
        (leastOf right.clusters.size (es l), Row.ofEntries right.clusters (es l))) := by
  obtain ⟨rows, compared, rfl⟩ := exists_of_map_eq_ok h
  obtain ⟨length, row⟩ := exists_of_mapM_eq_ok compared
  have entered : ∀ l, ∃ es, holds l es ∧ (l < left.values.size →
      rows[l]? = some (leastOf right.clusters.size es, Row.ofEntries right.clusters es)) := by
    intro l
    by_cases hl : l < left.values.size
    · obtain ⟨_, found, made⟩ := row l left.values[l] (by simp [hl])
      obtain ⟨es, these, rfl⟩ := exists_of_map_eq_ok made
      exact ⟨es, all l hl es these, fun _ => found⟩
    · exact ⟨[], none l (Nat.le_of_not_lt hl), fun h => absurd h hl⟩
  -- The entries of each value are known to exist, so those of all of them are chosen.
  obtain ⟨es, hes⟩ := Classical.axiomOfChoice entered
  refine ⟨es, fun l => (hes l).1, congrArg _ (List.ext_getElem? fun l => ?_)⟩
  have length : rows.length = left.values.size := length.trans Array.length_toList
  by_cases hl : l < left.values.size
  · rw [(hes l).2 hl, List.getElem?_map, List.getElem?_range hl]
    rfl
  · rw [List.getElem?_eq_none (by omega), List.getElem?_eq_none (by simp; omega)]

section OfEntries

variable {lefts : Nat} {clusters : Array (List Nat)} {es : Nat → Entries}

def ofEntries (lefts : Nat) (clusters : Array (List Nat)) (es : Nat → Entries) : Comparison :=
  ofRows ((List.range lefts).map fun l =>
    (leastOf clusters.size (es l), Row.ofEntries clusters (es l)))

theorem row_ofEntries {l : Nat} (hl : l < lefts) :
    (ofEntries lefts clusters es).row l = Row.ofEntries clusters (es l) := by
  simp [ofEntries, ofRows, row, List.getElem?_range hl]

theorem similarity_ofEntries (h : ∀ l, Ascending clusters.size (es l)) {l : Nat} (hl : l < lefts)
    (r : Nat) : (ofEntries lefts clusters es).similarity l r = scoreOf (es l) r := by
  rw [similarity, row_ofEntries hl]
  exact Row.similarity_ofEntries (h l) r

theorem row_ofEntries_of_le {l : Nat} (hl : lefts ≤ l) :
    (ofEntries lefts clusters es).row l = default := by
  simp [ofEntries, ofRows, row, hl]

theorem similarity_ofEntries_of_le {l : Nat} (hl : lefts ≤ l) (r : Nat) :
    (ofEntries lefts clusters es).similarity l r = 0 := by
  rw [similarity, row_ofEntries_of_le hl]
  rfl

theorem boundaries_ofEntries (lefts : Nat) (clusters : Array (List Nat)) (es : Nat → Entries) :
    (ofEntries lefts clusters es).boundaries.toList =
      ascending ((List.range lefts).flatMap fun l =>
        (Row.ofEntries clusters (es l)).similarities.entries.map (·.2)) := by
  simp only [ofEntries, ofRows, List.flatMap_map]

theorem mem_boundaries_ofEntries (h : ∀ l, Ascending clusters.size (es l)) (t : Score) :
    t ∈ (ofEntries lefts clusters es).boundaries ↔
      ∃ l, l < lefts ∧ t.IsPositive ∧ ∃ r, r < clusters.size ∧ scoreOf (es l) r = t := by
  have entered : ∀ l s, s ∈ (Row.ofEntries clusters (es l)).similarities.entries.map (·.2) ↔
      s.IsPositive ∧ ∃ r, r < clusters.size ∧ scoreOf (es l) r = s := by
    intro l s
    rw [List.mem_map]
    constructor
    · rintro ⟨⟨r, s⟩, hs, rfl⟩
      obtain ⟨rfl, positive⟩ := (Row.mem_entries_ofEntries (h l) r s).mp hs
      exact ⟨positive, r, ((h l).mem_of_le positive.1 (Int.le_refl _)).1, rfl⟩
    · rintro ⟨positive, r, -, eq⟩
      exact ⟨(r, s), (Row.mem_entries_ofEntries (h l) r s).mpr ⟨eq, positive⟩, rfl⟩
  rw [← Array.mem_toList_iff, boundaries_ofEntries, Row.mem_ascending_of_positive, List.mem_flatMap]
  · simp only [List.mem_range, entered]
  · intro s hs
    obtain ⟨l, -, hs⟩ := List.mem_flatMap.mp hs
    exact ((entered l s).mp hs).1

theorem lowest_plain_ofEntries (h : ∀ l, Ascending clusters.size (es l)) :
    (ofEntries lefts clusters es).lowest.IsPlain := by
  refine Score.foldl_smaller_plain _ 1 isThreshold_one.isPlain fun s hs => ?_
  rw [List.map_map] at hs
  obtain ⟨l, -, rfl⟩ := List.mem_map.mp hs
  change (leastOf clusters.size (es l)).IsPlain
  rw [leastOf]
  split
  · exact fun _ => rfl
  · refine Score.foldl_smaller_plain _ 1 isThreshold_one.isPlain fun s hs => ?_
    obtain ⟨e, he, rfl⟩ := List.mem_map.mp hs
    exact ((h l).positive e he).isPlain

theorem lowest_ofEntries (h : ∀ l, Ascending clusters.size (es l)) :
    let c := ofEntries lefts clusters es
    c.lowest.inUnit = true ∧
      (∀ l r, l < lefts → r < clusters.size → c.lowest.height ≤ (c.similarity l r).height) ∧
      ((∃ l r, l < lefts ∧ r < clusters.size ∧ c.lowest.height = (c.similarity l r).height) ∨
        c.lowest.height = Score.unitHeight) := by
  intro c
  obtain ⟨unit, -, least, attained⟩ := Score.foldl_smaller
    ((List.range lefts).map fun l => leastOf clusters.size (es l)) 1 (by decide) fun s hs => by
      obtain ⟨l, -, rfl⟩ := List.mem_map.mp hs
      exact Score.isNonneg_of_inUnit (leastOf_spec (h l)).1
  have fold : c.lowest =
      ((List.range lefts).map fun l => leastOf clusters.size (es l)).foldl Score.smaller 1 := by
    simp [c, ofEntries, ofRows, Function.comp_def]
  rw [fold]
  refine ⟨unit, fun l r hl hr => ?_, ?_⟩
  · rw [similarity_ofEntries h hl]
    refine Int.le_trans (least _ ?_) ((leastOf_spec (h l)).2.1 r hr)
    exact List.mem_map_of_mem (List.mem_range.mpr hl)
  · rcases attained with one | ⟨s, hs, eq⟩
    · exact .inr (one.trans Score.height_one)
    · obtain ⟨l, hl, rfl⟩ := List.mem_map.mp hs
      rcases (leastOf_spec (h l)).2.2 with ⟨r, hr, same⟩ | one
      · refine .inl ⟨l, r, List.mem_range.mp hl, hr, ?_⟩
        rw [similarity_ofEntries h (List.mem_range.mp hl)]
        exact eq.trans same
      · exact .inr (eq.trans one)

theorem sound_ofEntries (h : ∀ l, Ascending clusters.size (es l)) :
    (ofEntries lefts clusters es).Sound lefts clusters := by
  obtain ⟨unit, least, attained⟩ := @lowest_ofEntries lefts clusters es h
  constructor
  · intro l r
    by_cases hl : l < lefts
    · rw [similarity_ofEntries h hl]
      exact (h l).canonical r
    · exact .inl (similarity_ofEntries_of_le (by omega) r)
  · intro l hl records value clustered t ht
    have found := Row.recordsFor?_ofEntries (h l) clustered ht
    simp only [similarity_ofEntries h hl, recordsFor?, row_ofEntries hl]
    exact found
  · rw [boundaries_ofEntries]
    exact (ascending_sorted _).imp fun lt => (Score.compare_eq_lt _ _).mp lt
  · intro t
    rw [mem_boundaries_ofEntries h]
    constructor
    · rintro ⟨l, hl, positive, r, hr, eq⟩
      rw [← similarity_ofEntries h hl] at eq
      exact ⟨positive, l, r, hl, hr, eq⟩
    · rintro ⟨positive, l, r, hl, hr, eq⟩
      rw [similarity_ofEntries h hl] at eq
      exact ⟨l, hl, positive, r, hr, eq⟩
  · exact unit
  · exact least
  · exact attained

end OfEntries

section Build

variable {measure : Measure} {nullEqualsNull : Bool} {left right : Column}
  (size : right.values.size = right.clusters.size) {c : Comparison}
  (h : build measure nullEqualsNull left right = .ok c)

include size h

/-- Data that were compared come from entries, and no condition is put on the measure. -/
theorem exists_ascending :
    ∃ es : Nat → Entries, (∀ l, Ascending right.clusters.size (es l)) ∧
      c = ofEntries left.values.size right.clusters es :=
  exists_entries h (fun _ => Ascending right.clusters.size)
    (fun _ _ => ⟨.nil, by simp, by simp⟩) fun _ _ _ these => by
      have := entries_ascending these
      rwa [Array.length_toList, size] at this

theorem sound_of_build : c.Sound left.values.size right.clusters := by
  obtain ⟨es, hes, rfl⟩ := exists_ascending size h
  exact sound_ofEntries hes

theorem lowest_plain_of_build : c.lowest.IsPlain := by
  obtain ⟨es, hes, rfl⟩ := exists_ascending size h
  exact lowest_plain_ofEntries hes

end Build

theorem boundaries_positive {measure : Measure} {nullEqualsNull : Bool} {left right : Column}
    {c : Comparison} (h : build measure nullEqualsNull left right = .ok c) :
    ∀ t ∈ c.boundaries, t.IsPositive := by
  obtain ⟨es, positive, rfl⟩ := exists_entries h (fun _ es => ∀ e ∈ es, e.2.IsPositive)
    (fun _ _ => by simp) fun _ _ _ these => (entries_ascending these).positive
  intro t ht
  change t ∈ (ofEntries left.values.size right.clusters es).boundaries at ht
  rw [← Array.mem_toList_iff, boundaries_ofEntries] at ht
  obtain ⟨l, -, ht⟩ := List.mem_flatMap.mp (mem_of_mem_ascending ht)
  obtain ⟨e, he, rfl⟩ := List.mem_map.mp ht
  obtain ⟨e', he', same⟩ := Row.entered_of_mem_entries he
  exact same ▸ positive l e' he'

theorem nextBoundary?_eq_of_sorted {c : Comparison} {b : Score}
    (sorted : c.boundaries.toList.Pairwise fun a b => a.height < b.height)
    (number : b.height < Score.topHeight) :
    c.nextBoundary? b = c.boundaries.toList.find? fun s => decide (b.height < s.height) := by
  have above : (fun s : Score => !decide (s ≤ b)) = fun s => decide (b.height < s.height) := by
    funext s
    rw [← decide_not, decide_eq_decide, Score.le_iff]
    omega
  have stays : StaysTrue (fun s => !decide (s ≤ b)) c.boundaries := by
    intro i j le hj pass
    rw [above, decide_eq_true_iff] at pass ⊢
    rcases Nat.lt_or_eq_of_le le with lt | rfl
    · have := List.pairwise_iff_getElem.mp sorted i j (by simp; omega) (by simpa using hj) lt
      simp only [Array.getElem_toList] at this
      omega
    · exact pass
  rw [nextBoundary?_eq_find? c b stays, ← Array.find?_toList, above]

namespace Sound

variable {c : Comparison} {lefts : Nat} {clusters : Array (List Nat)}

theorem isPositive (h : c.Sound lefts clusters) {l r : Nat}
    (nonzero : (c.similarity l r).isZero = false) : (c.similarity l r).IsPositive := by
  rcases h.canonical l r with zero | positive
  · rw [zero] at nonzero
    contradiction
  · exact positive

theorem nextBoundary?_eq_some_iff (h : c.Sound lefts clusters) {b : Score}
    (hb : b.height < Score.topHeight) (t : Score) :
    c.nextBoundary? b = some t ↔ t ∈ c.boundaries ∧ b.height < t.height ∧
      ∀ s ∈ c.boundaries, b.height < s.height → t.height ≤ s.height := by
  rw [nextBoundary?_eq_of_sorted h.sorted hb, find?_eq_some_iff_of_sorted Score.height h.sorted]
  simp only [Array.mem_toList_iff, decide_eq_true_iff]
  refine and_congr_right fun ht => and_congr_right fun _ => forall₂_congr fun s hs =>
    imp_congr_right fun _ => ?_
  constructor
  · rintro (rfl | lt)
    · exact Int.le_refl _
    · exact Int.le_of_lt lt
  · intro le
    rcases Int.lt_or_eq_of_le le with lt | eq
    · exact .inr lt
    · exact .inl (((h.mem_boundaries_iff t).mp ht).1.ext eq.symm)

theorem exists_nextBoundary (h : c.Sound lefts clusters) {b s : Score}
    (hb : b.height < Score.topHeight) (hs : s ∈ c.boundaries) (above : b.height < s.height) :
    ∃ t, c.nextBoundary? b = some t := by
  rw [nextBoundary?_eq_of_sorted h.sorted hb, ← Option.isSome_iff_exists, List.find?_isSome]
  exact ⟨s, Array.mem_toList_iff.mpr hs, decide_eq_true above⟩

end Sound

end Comparison

end MatchingDependencies
