import Mathlib.Order.Basic
import MatchingDependencies.Proofs.Comparison.Columns

/-!
# The similarity a comparison is of

The similarity of two values goes by their classes: missing values are like
each other if the search wants it so, empty values are like each other, and the
score of regular values counts if it is positive and reaches the cutoff. A
comparison sorts the right values by class first, asks the measure for a whole
row, and drops what does not count. What it stores is this similarity.
-/

set_option autoImplicit false

namespace MatchingDependencies

def isRegular (text : String) : Bool := ValueClass.of text = .regular

theorem isRegular_iff (text : String) : isRegular text = true ↔ ValueClass.of text = .regular :=
  decide_eq_true_iff

theorem getElem?_filter_iff {α : Type} (test : α → Bool) (xs : List α) (k : Nat) (a : α) :
    (xs.filter test)[k]? = some a ↔
      ∃ i, xs[i]? = some a ∧ test a = true ∧ (xs.take i).countP test = k := by
  induction xs generalizing k with
  | nil => simp
  | cons x xs ih =>
    rw [← Nat.or_exists_add_one]
    simp only [List.getElem?_cons_zero, List.getElem?_cons_succ, List.take_succ_cons,
      List.countP_cons, List.take_zero, List.countP_nil, Option.some.injEq]
    by_cases pass : test x = true
    · rw [List.filter_cons_of_pos pass, if_pos pass]
      cases k with
      | zero =>
        simp only [List.getElem?_cons_zero, Option.some.injEq]
        constructor
        · rintro rfl
          exact .inl ⟨rfl, pass, trivial⟩
        · rintro (⟨eq, -⟩ | ⟨i, -, -, more⟩)
          · exact eq
          · omega
      | succ k => simp [ih]
    · rw [List.filter_cons_of_neg pass, if_neg pass, ih]
      constructor
      · exact .inr
      · rintro (⟨rfl, absurd, -⟩ | later)
        · contradiction
        · exact later

theorem getElem?_filter_zipIdx_iff {α : Type} (test : α → Bool) (xs : List α) (k : Nat)
    (a : α) (i : Nat) : ((xs.zipIdx).filter fun x => test x.1)[k]? = some (a, i) ↔
      xs[i]? = some a ∧ test a = true ∧ (xs.take i).countP test = k := by
  have before : ∀ j, (xs.zipIdx.take j).countP (fun x => test x.1) =
      (xs.take j).countP test := fun j => by
    have firsts : (xs.zipIdx.take j).map (·.1) = xs.take j := by
      rw [List.map_take, List.zipIdx_map_fst]
    rw [← firsts, List.countP_map]
    rfl
  rw [getElem?_filter_iff]
  simp only [before, List.getElem?_zipIdx, Option.map_eq_some_iff, Prod.mk.injEq, Nat.zero_add]
  constructor
  · rintro ⟨j, ⟨b, found, rfl, rfl⟩, rest⟩
    exact ⟨found, rest⟩
  · rintro ⟨found, rest⟩
    exact ⟨i, ⟨a, found, rfl, rfl⟩, rest⟩

theorem map_eq_error_iff {ε α β : Type} {f : α → β} {x : Except ε α} {e : ε} :
    x.map f = .error e ↔ x = .error e := by
  cases x with
  | error d =>
    exact ⟨fun h => congrArg _ (Except.error.inj h), fun h => congrArg _ (Except.error.inj h)⟩
  | ok a => exact ⟨nofun, nofun⟩

theorem exists_of_mapM_eq_error {α β ε : Type} {f : α → Except ε β} {as : List α} {e : ε}
    (h : as.mapM f = .error e) : ∃ a ∈ as, f a = .error e := by
  induction as with
  | nil => cases h
  | cons a as ih =>
    rw [List.mapM_cons] at h
    cases first : f a with
    | error d =>
      rw [first] at h
      exact ⟨a, List.mem_cons_self, first.trans (congrArg _ (Except.error.inj h))⟩
    | ok b =>
      rw [first] at h
      obtain ⟨a, mem, refused⟩ := ih (map_eq_error_iff.mp h)
      exact ⟨a, List.mem_cons_of_mem _ mem, refused⟩

/-! ## The reference -/

namespace Measure

/-- What a measure answers for a left value and a regular right one, given by
its place among all right values. The measure sees the regular ones only. -/
def answer (m : Measure) (rights : List String) (left : String) (r : Nat) : Score :=
  (m.row (Comparand.ofText left) ((rights.filter isRegular).map Comparand.ofText)).getD
    ((rights.take r).countP isRegular) 0

def reference (m : Measure) (nullEqualsNull : Bool) (rights : List String) (left : String)
    (r : Nat) : Score :=
  match ValueClass.of left, rights[r]?.map ValueClass.of with
  | .null, some .null => if nullEqualsNull then 1 else 0
  | .empty, some .empty => 1
  | .regular, some .regular =>
    if 0 < m.answer rights left r ∧ m.cutoff ≤ m.answer rights left r then
      m.answer rights left r
    else 0
  | _, _ => 0

def Outside (m : Measure) (rights : List String) (left : String) (r : Nat) (right : String) :
    Prop :=
  rights[r]? = some right ∧ isRegular left = true ∧ isRegular right = true ∧
    (m.answer rights left r).inUnit = false

/-- Some answer for two regular values is no similarity. -/
def Strays (m : Measure) (lefts rights : List String) : Prop :=
  ∃ left ∈ lefts, ∃ r right, m.Outside rights left r right

variable {m : Measure} {nullEqualsNull : Bool} {rights : List String} {left right : String}
  {r : Nat}

theorem answer_eq_iff (found : rights[r]? = some right) (regular : isRegular right = true)
    (s : Score) : m.answer rights left r = s ↔
      (m.row (Comparand.ofText left) ((rights.filter isRegular).map Comparand.ofText))[
        (rights.take r).countP isRegular]? = some s := by
  have place := (getElem?_filter_iff isRegular rights _ right).mpr ⟨r, found, regular, rfl⟩
  have inside := (List.getElem?_eq_some_iff.mp place).1
  rw [answer, List.getD_eq_getElem?_getD, List.getElem?_eq_getElem (by
    rwa [m.row_length, List.length_map]), Option.getD_some, Option.some.injEq]

theorem answer_pairwise (name : String) (cutoff : Score) (checksRange : Bool)
    (similarity : Comparand → Comparand → Score) (found : rights[r]? = some right)
    (regular : isRegular right = true) :
    (pairwise name cutoff checksRange similarity).answer rights left r =
      similarity (Comparand.ofText left) (Comparand.ofText right) := by
  have place := (getElem?_filter_iff isRegular rights _ right).mpr ⟨r, found, regular, rfl⟩
  rw [answer_eq_iff found regular, pairwise, List.getElem?_map, List.getElem?_map, place]
  rfl

theorem reference_cases (m : Measure) (nullEqualsNull : Bool) (rights : List String) (left : String)
    (r : Nat) : m.reference nullEqualsNull rights left r = 0 ∨
      0 < m.reference nullEqualsNull rights left r := by
  rw [reference]
  split
  · cases nullEqualsNull with
    | true => exact .inr (by decide)
    | false => exact .inl rfl
  · exact .inr (by decide)
  · split
    · next counts => exact .inr counts.1
    · exact .inl rfl
  · exact .inl rfl

theorem reference_plain (m : Measure) (nullEqualsNull : Bool) (rights : List String)
    (left : String) (r : Nat) : (m.reference nullEqualsNull rights left r).IsPlain := by
  rcases m.reference_cases nullEqualsNull rights left r with zero | positive
  · exact fun _ => zero
  · rw [Score.lt_iff, Score.height_zero] at positive
    exact Score.IsPositive.isPlain positive

theorem reference_inUnit (inside : ∀ r right, ¬m.Outside rights left r right) (r : Nat) :
    (m.reference nullEqualsNull rights left r).inUnit = true := by
  rw [reference]
  split
  · cases nullEqualsNull <;> decide
  · decide
  · next ofLeft ofRight =>
    split
    · obtain ⟨right, found, regular⟩ := Option.map_eq_some_iff.mp ofRight
      by_contra stray
      exact inside r right ⟨found, (isRegular_iff left).mpr ofLeft,
        (isRegular_iff right).mpr regular, Bool.eq_false_iff.mpr stray⟩
    · decide
  · decide

theorem reference_of_le (outside : rights.length ≤ r) :
    m.reference nullEqualsNull rights left r = 0 := by
  rw [reference, List.getElem?_eq_none outside]
  cases ValueClass.of left <;> rfl

end Measure

namespace Comparison

open Ascending (scoreOf)

/-! ## The entries of a left value -/

section Entries

variable {m : Measure} {nullEqualsNull : Bool} {texts : List String} {left : String}

theorem comparands_ofTexts (texts : List String) :
    (RightValues.ofTexts texts).comparands =
      (texts.filter isRegular).map Comparand.ofText := by
  have firsts : (texts.zipIdx.filter fun x => isRegular x.1).map (·.1) =
      texts.filter isRegular := by
    conv_rhs => rw [← List.zipIdx_map_fst 0 texts, List.filter_map]
    rfl
  rw [← firsts, List.map_map]
  rfl

theorem mem_places_iff (kind : ValueClass) (r : Nat) :
    r ∈ (texts.zipIdx.filter fun x => ValueClass.of x.1 = kind).map (·.2) ↔
      texts[r]?.map ValueClass.of = some kind := by
  rw [List.mem_map, Option.map_eq_some_iff]
  constructor
  · rintro ⟨⟨text, i⟩, mem, rfl⟩
    obtain ⟨mem, class_eq⟩ := List.mem_filter.mp mem
    exact ⟨text, List.mem_zipIdx_iff_getElem?.mp mem, of_decide_eq_true class_eq⟩
  · rintro ⟨text, found, class_eq⟩
    exact ⟨(text, r), List.mem_filter.mpr
      ⟨List.mem_zipIdx_iff_getElem?.mpr found, decide_eq_true class_eq⟩, rfl⟩

theorem getElem?_regular_iff (k r : Nat) : (RightValues.ofTexts texts).regular[k]? = some r ↔
    ∃ right, texts[r]? = some right ∧ isRegular right = true ∧
      (texts.take r).countP isRegular = k := by
  have list : (RightValues.ofTexts texts).regular =
      (texts.zipIdx.filter fun x => isRegular x.1).map (·.2) := rfl
  rw [list, List.getElem?_map, Option.map_eq_some_iff]
  constructor
  · rintro ⟨⟨right, i⟩, found, rfl⟩
    exact ⟨right, (getElem?_filter_zipIdx_iff isRegular texts k right i).mp found⟩
  · rintro ⟨right, found⟩
    exact ⟨(right, r), (getElem?_filter_zipIdx_iff isRegular texts k right r).mpr found, rfl⟩

theorem mem_counted_iff (cutoff : Score) (regular : List Nat) (scores : List Score) (r : Nat)
    (s : Score) : (r, s) ∈ counted cutoff regular scores ↔
      counts cutoff s = true ∧ ∃ k : Nat, regular[k]? = some r ∧ scores[k]? = some s := by
  induction regular generalizing scores with
  | nil => simp [counted]
  | cons i regular ih =>
    cases scores with
    | nil => simp [counted]
    | cons t scores =>
      rw [counted, ← Nat.or_exists_add_one]
      simp only [List.getElem?_cons_zero, List.getElem?_cons_succ, Option.some.injEq]
      split
      · next pass =>
        rw [List.mem_cons, ih, Prod.mk.injEq]
        constructor
        · rintro (⟨rfl, rfl⟩ | ⟨counts, later⟩)
          · exact ⟨pass, .inl ⟨rfl, rfl⟩⟩
          · exact ⟨counts, .inr later⟩
        · rintro ⟨counts, ⟨rfl, rfl⟩ | later⟩
          · exact .inl ⟨rfl, rfl⟩
          · exact .inr ⟨counts, later⟩
      · next fail =>
        rw [ih]
        refine and_congr_right fun counts => (or_iff_right ?_).symm
        rintro ⟨-, rfl⟩
        exact fail counts

theorem mem_ones_iff (kind : ValueClass) (r : Nat) (s : Score) :
    (r, s) ∈ ((texts.zipIdx.filter fun x => ValueClass.of x.1 = kind).map (·.2)).map
        (fun right => (right, (1 : Score))) ↔
      texts[r]?.map ValueClass.of = some kind ∧ s = 1 := by
  rw [List.mem_map, ← mem_places_iff]
  constructor
  · rintro ⟨i, hi, eq⟩
    obtain ⟨rfl, rfl⟩ := Prod.mk.inj eq
    exact ⟨hi, rfl⟩
  · rintro ⟨hr, rfl⟩
    exact ⟨r, hr, rfl⟩

theorem mem_answers_iff (left : String) (r : Nat) (s : Score) :
    (r, s) ∈ counted m.cutoff (RightValues.ofTexts texts).regular
        (m.row (Comparand.ofText left) (RightValues.ofTexts texts).comparands) ↔
      texts[r]?.map ValueClass.of = some .regular ∧ m.answer texts left r = s ∧
        counts m.cutoff s = true := by
  rw [mem_counted_iff, comparands_ofTexts, Option.map_eq_some_iff]
  constructor
  · rintro ⟨counts, k, place, answered⟩
    obtain ⟨right, found, regular, rfl⟩ := (getElem?_regular_iff k r).mp place
    exact ⟨⟨right, found, (isRegular_iff right).mp regular⟩,
      (Measure.answer_eq_iff found regular s).mpr answered, counts⟩
  · rintro ⟨⟨right, found, regular⟩, answered, counts⟩
    rw [← isRegular_iff] at regular
    exact ⟨counts, _, (getElem?_regular_iff _ r).mpr ⟨right, found, regular, rfl⟩,
      (Measure.answer_eq_iff found regular s).mp answered⟩

theorem entries_of_regular (regular : ValueClass.of left = .regular) :
    entries m nullEqualsNull (RightValues.ofTexts texts) left =
      (checkScores m left (RightValues.ofTexts texts).comparands
        (m.row (Comparand.ofText left) (RightValues.ofTexts texts).comparands)).map fun _ =>
          counted m.cutoff (RightValues.ofTexts texts).regular
            (m.row (Comparand.ofText left) (RightValues.ofTexts texts).comparands) := by
  rw [entries, regular]

theorem mem_entries_iff {es : Entries}
    (h : entries m nullEqualsNull (RightValues.ofTexts texts) left = .ok es) (r : Nat) (s : Score) :
    (r, s) ∈ es ↔ m.reference nullEqualsNull texts left r = s ∧ 0 < s := by
  have zero : ¬((0 : Score) = s ∧ 0 < s) := by
    rintro ⟨rfl, positive⟩
    exact absurd positive (by decide)
  have one : s = 1 ↔ (1 : Score) = s ∧ 0 < s :=
    ⟨fun eq => ⟨eq.symm, eq ▸ by decide⟩, fun h => h.1.symm⟩
  cases ofLeft : ValueClass.of left with
  | null =>
    simp only [entries, ofLeft, RightValues.ofTexts, Except.ok.injEq] at h
    subst h
    simp only [Measure.reference, ofLeft]
    cases nullEqualsNull with
    | true =>
      rw [if_pos rfl, mem_ones_iff]
      generalize texts[r]?.map ValueClass.of = kind
      rcases kind with - | (- | - | -) <;> simp [zero, one]
    | false =>
      generalize texts[r]?.map ValueClass.of = kind
      rcases kind with - | (- | - | -) <;> simp [zero]
  | empty =>
    simp only [entries, ofLeft, RightValues.ofTexts, Except.ok.injEq] at h
    subst h
    rw [mem_ones_iff, Measure.reference, ofLeft]
    generalize texts[r]?.map ValueClass.of = kind
    rcases kind with - | (- | - | -) <;> simp [zero, one]
  | regular =>
    rw [entries_of_regular ofLeft] at h
    obtain ⟨-, -, rfl⟩ := exists_of_map_eq_ok h
    rw [mem_answers_iff, Measure.reference, ofLeft, counts, Bool.and_eq_true, decide_eq_true_iff,
      decide_eq_true_iff]
    generalize texts[r]?.map ValueClass.of = kind
    rcases kind with - | (- | - | -)
    · simp [zero]
    · simp [zero]
    · simp [zero]
    · simp only [true_and]
      constructor
      · rintro ⟨rfl, counts⟩
        exact ⟨if_pos counts, counts.1⟩
      · rintro ⟨eq, positive⟩
        split at eq
        · next counts => exact ⟨eq, eq ▸ counts⟩
        · exact absurd ⟨eq, positive⟩ zero

/-- The score of a right value among the entries is its similarity, also if it
has no entry. -/
theorem scoreOf_entries {es : Entries}
    (h : entries m nullEqualsNull (RightValues.ofTexts texts) left = .ok es) (r : Nat) :
    scoreOf es r = m.reference nullEqualsNull texts left r := by
  have ascending := entries_ascending h
  rcases Measure.reference_cases m nullEqualsNull texts left r with zero | positive
  · rcases ascending.scoreOf_cases r with eq | ⟨-, mem⟩
    · rw [eq, zero]
    · exact ((mem_entries_iff h r _).mp mem).1.symm
  · exact ascending.scoreOf_mem ((mem_entries_iff h r _).mpr ⟨rfl, positive⟩)

/-! ## Answers that are refused -/

theorem unit_of_firstOutside_ok {rights : List Comparand} {scores : List Score} {u : Unit}
    (h : firstOutside m left rights scores = .ok u) (k : Nat) {right : Comparand} {s : Score}
    (hr : rights[k]? = some right) (hs : scores[k]? = some s) : s.inUnit = true := by
  fun_induction firstOutside m left rights scores generalizing k with
  | case1 right' rights s' scores unit ih =>
    cases k with
    | zero =>
      obtain rfl := Option.some.inj hs
      exact unit
    | succ k => exact ih h k hr hs
  | case2 => cases h
  | case3 rights scores short =>
    cases rights with
    | nil => cases hr
    | cons right' rights =>
      cases scores with
      | nil => cases hs
      | cons s' scores => exact absurd rfl (short _ _ _ _ rfl)

theorem stray_of_firstOutside_error {rights : List Comparand} {scores : List Score}
    {e : RequestError} (h : firstOutside m left rights scores = .error e) :
    ∃ (k : Nat) (right : Comparand) (s : Score), rights[k]? = some right ∧
      scores[k]? = some s ∧ s.inUnit = false ∧
        e = .similarityOutOfRange m.name left right.text s := by
  fun_induction firstOutside m left rights scores with
  | case1 right rights s scores unit ih =>
    obtain ⟨k, stray⟩ := ih h
    exact ⟨k + 1, stray⟩
  | case2 right rights s scores stray =>
    exact ⟨0, right, s, rfl, rfl, Bool.eq_false_iff.mpr stray, (Except.error.inj h).symm⟩
  | case3 => cases h

theorem getElem?_comparands_iff (k : Nat) (c : Comparand) :
    (RightValues.ofTexts texts).comparands[k]? = some c ↔
      ∃ r right, texts[r]? = some right ∧ isRegular right = true ∧
        (texts.take r).countP isRegular = k ∧ Comparand.ofText right = c := by
  rw [comparands_ofTexts, List.getElem?_map, Option.map_eq_some_iff]
  constructor
  · rintro ⟨right, found, rfl⟩
    obtain ⟨r, found⟩ := (getElem?_filter_iff isRegular texts k right).mp found
    exact ⟨r, right, found.1, found.2.1, found.2.2, rfl⟩
  · rintro ⟨r, right, found, regular, place, rfl⟩
    exact ⟨right, (getElem?_filter_iff isRegular texts k right).mpr ⟨r, found, regular, place⟩, rfl⟩

theorem outside_of_entries_error {e : RequestError}
    (h : entries m nullEqualsNull (RightValues.ofTexts texts) left = .error e) :
    m.checksRange = true ∧ ∃ r right, m.Outside texts left r right ∧
      e = .similarityOutOfRange m.name left right (m.answer texts left r) := by
  cases ofLeft : ValueClass.of left with
  | null => simp [entries, ofLeft] at h
  | empty => simp [entries, ofLeft] at h
  | regular =>
    rw [entries_of_regular ofLeft, map_eq_error_iff, checkScores] at h
    split at h
    · next checks =>
      obtain ⟨k, c, s, hc, hs, stray, rfl⟩ := stray_of_firstOutside_error h
      obtain ⟨r, right, found, regular, rfl, rfl⟩ := (getElem?_comparands_iff k c).mp hc
      rw [comparands_ofTexts, ← Measure.answer_eq_iff found regular] at hs
      subst hs
      exact ⟨checks, r, right, ⟨found, (isRegular_iff left).mpr ofLeft, regular, stray⟩, rfl⟩
    · cases h

theorem not_outside_of_entries_ok {es : Entries} (checks : m.checksRange = true)
    (h : entries m nullEqualsNull (RightValues.ofTexts texts) left = .ok es) (r : Nat)
    (right : String) : ¬m.Outside texts left r right := by
  rintro ⟨found, ofLeft, regular, stray⟩
  rw [entries_of_regular ((isRegular_iff left).mp ofLeft), checkScores, if_pos checks] at h
  obtain ⟨u, inside, -⟩ := exists_of_map_eq_ok h
  have unit := unit_of_firstOutside_ok inside _
    ((getElem?_comparands_iff _ _).mpr ⟨r, right, found, regular, rfl, rfl⟩)
    (by rw [comparands_ofTexts]; exact (Measure.answer_eq_iff found regular _).mp rfl)
  rw [unit] at stray
  contradiction

end Entries

/-! ## Two columns -/

section Build

variable {m : Measure} {nullEqualsNull : Bool} {left right : Column}

theorem outside_of_build_error {e : RequestError}
    (h : build m nullEqualsNull left right = .error e) :
    m.checksRange = true ∧ ∃ text ∈ left.values.toList, ∃ r rightText,
      m.Outside right.values.toList text r rightText ∧
        e = .similarityOutOfRange m.name text rightText (m.answer right.values.toList text r) := by
  rw [build, map_eq_error_iff] at h
  obtain ⟨text, mem, refused⟩ := exists_of_mapM_eq_error h
  rw [compareLeft, map_eq_error_iff] at refused
  obtain ⟨checks, r, rightText, outside⟩ := outside_of_entries_error refused
  exact ⟨checks, text, mem, r, rightText, outside⟩

theorem not_strays_of_build_ok {c : Comparison} (checks : m.checksRange = true)
    (h : build m nullEqualsNull left right = .ok c) :
    ¬m.Strays left.values.toList right.values.toList := by
  rintro ⟨text, mem, r, rightText, outside⟩
  rw [build] at h
  obtain ⟨rows, compared, -⟩ := exists_of_map_eq_ok h
  obtain ⟨i, found⟩ := List.getElem?_of_mem mem
  obtain ⟨row, -, made⟩ := (exists_of_mapM_eq_ok compared).2 i text found
  obtain ⟨es, entered, -⟩ := exists_of_map_eq_ok made
  exact not_outside_of_entries_ok checks entered r rightText outside

theorem build_error_iff : (∃ e, build m nullEqualsNull left right = .error e) ↔
    m.checksRange = true ∧ m.Strays left.values.toList right.values.toList := by
  constructor
  · rintro ⟨e, h⟩
    obtain ⟨checks, text, mem, r, rightText, outside, -⟩ := outside_of_build_error h
    exact ⟨checks, text, mem, r, rightText, outside⟩
  · rintro ⟨checks, strays⟩
    cases h : build m nullEqualsNull left right with
    | error e => exact ⟨e, rfl⟩
    | ok c => exact absurd strays (not_strays_of_build_ok checks h)

/-- A left value has an entry for a right one in the row of the comparison. -/
def Enters (c : Comparison) (l r : Nat) (s : Score) : Prop :=
  (r, s) ∈ (c.row l).similarities.entries

theorem reference_inUnit (stays : ¬m.Strays left.values.toList right.values.toList) {l : Nat}
    (hl : l < left.values.size) (r : Nat) :
    (m.reference nullEqualsNull right.values.toList (left.value l) r).inUnit = true := by
  refine Measure.reference_inUnit (fun i rightText outside => ?_) r
  refine stays ⟨left.value l, ?_, i, rightText, outside⟩
  rw [Column.value, Array.getD_eq_getD_getElem?, Array.getElem?_eq_getElem hl]
  exact Array.getElem_mem_toList hl

section Similarities

variable (size : right.values.size = right.clusters.size) {c : Comparison}
  (h : build m nullEqualsNull left right = .ok c)

include size h

theorem exists_reference_entries :
    ∃ es : Nat → Entries, (∀ l, Ascending right.clusters.size (es l)) ∧
      (∀ l, l < left.values.size → ∀ r, scoreOf (es l) r =
        m.reference nullEqualsNull right.values.toList (left.value l) r) ∧
      c = ofEntries left.values.size right.clusters es := by
  obtain ⟨es, hes, eq⟩ := exists_entries h
    (fun l es => Ascending right.clusters.size es ∧ (l < left.values.size → ∀ r, scoreOf es r =
      m.reference nullEqualsNull right.values.toList (left.value l) r))
    (fun l hl => ⟨⟨.nil, by simp, by simp⟩, fun lt => absurd lt (by omega)⟩)
    fun l hl es these => by
      have text : left.values[l] = left.value l := by
        rw [Column.value, Array.getD_eq_getD_getElem?, Array.getElem?_eq_getElem hl,
          Option.getD_some]
      rw [text] at these
      have ascending := entries_ascending these
      rw [Array.length_toList, size] at ascending
      exact ⟨ascending, fun _ => scoreOf_entries these⟩
  exact ⟨es, fun l => (hes l).1, fun l => (hes l).2, eq⟩

theorem similarity_of_build {l : Nat} (hl : l < left.values.size) (r : Nat) : c.similarity l r =
    m.reference nullEqualsNull right.values.toList (left.value l) r := by
  obtain ⟨es, ascending, eq, rfl⟩ := exists_reference_entries size h
  rw [similarity_ofEntries ascending hl, eq l hl]

theorem enters_iff (l r : Nat) (s : Score) : c.Enters l r s ↔
    l < left.values.size ∧ r < right.values.size ∧
      m.reference nullEqualsNull right.values.toList (left.value l) r = s ∧ 0 < s := by
  obtain ⟨es, ascending, eq, rfl⟩ := exists_reference_entries size h
  by_cases hl : l < left.values.size
  · rw [Enters, row_ofEntries hl, Row.mem_entries_ofEntries (ascending l), eq l hl]
    constructor
    · rintro ⟨rfl, positive⟩
      refine ⟨hl, ?_, rfl, by rwa [Score.lt_iff, Score.height_zero]⟩
      by_contra outside
      rw [Measure.reference_of_le (by rw [Array.length_toList]; omega)] at positive
      exact absurd positive.ne_zero (by decide)
    · rintro ⟨-, -, same, positive⟩
      rw [Score.lt_iff, Score.height_zero] at positive
      exact ⟨same, positive⟩
  · have none : (ofEntries left.values.size right.clusters es).row l = default :=
      row_ofEntries_of_le (Nat.not_lt.mp hl)
    rw [Enters, none]
    exact iff_of_false List.not_mem_nil fun inside => hl inside.1

end Similarities

end Build

end Comparison

end MatchingDependencies
