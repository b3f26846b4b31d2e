import Mathlib.Tactic.IntervalCases
import MatchingDependencies.Text.Utf8

/-!
# Decoding what has been encoded

Characters are encoded one after the other, each to one to four bytes. Decoding
gives them back: the first byte of a sequence and the range of its second one
leave out only what no character is encoded to.
-/

set_option autoImplicit false

namespace MatchingDependencies.Text

def encode (characters : List Char) : List UInt8 := characters.flatMap String.utf8EncodeChar

@[simp] theorem encode_nil : encode [] = [] := rfl

@[simp] theorem encode_cons (c : Char) (characters : List Char) :
    encode (c::characters) = String.utf8EncodeChar c ++ encode characters := rfl

@[simp] theorem encode_append (first second : List Char) :
    encode (first ++ second) = encode first ++ encode second := List.flatMap_append

/-! ## Steps -/

section Steps

variable {position start seen code n : Nat} {done : List Char} {rest : List UInt8}
  {low high : UInt8}

theorem decodeFrom_lead {b : UInt8} {l : Lead} (long : ¬b < 0x80) (lead : lead? b = some l) :
    decodeFrom position none done (b::rest) =
      decodeFrom (position+1) (some ⟨position, 1, l.bits, l.low, l.high, l.more⟩) done rest := by
  rw [decodeFrom, if_neg long, lead]

theorem toNat_tail (small : n < 64) : (UInt8.ofNat (n+128)).toNat = n+128 := by
  rw [UInt8.toNat_ofNat', Nat.mod_eq_of_lt (by omega)]

theorem tail_between (small : n < 64) (above : low.toNat ≤ n+128) (below : n+128 ≤ high.toNat) :
    (low ≤ UInt8.ofNat (n+128) && UInt8.ofNat (n+128) ≤ high) = true := by
  simp only [UInt8.le_iff_toNat_le, toNat_tail small, above, below, decide_true, Bool.and_self]

theorem decodeFrom_last (small : n < 64) (above : low.toNat ≤ n+128)
    (below : n+128 ≤ high.toNat) :
    decodeFrom position (some ⟨start, seen, code, low, high, 0⟩) done
        (UInt8.ofNat (n+128) :: rest) =
      decodeFrom (position+1) none (Char.ofNat (code*64 + n) :: done) rest := by
  rw [decodeFrom, if_pos (tail_between small above below)]
  simp only [toNat_tail small, Nat.add_sub_cancel]

theorem decodeFrom_more {more : Nat} (small : n < 64) (above : low.toNat ≤ n+128)
    (below : n+128 ≤ high.toNat) :
    decodeFrom position (some ⟨start, seen, code, low, high, more+1⟩) done
        (UInt8.ofNat (n+128) :: rest) =
      decodeFrom (position+1) (some ⟨start, seen+1, code*64 + n, 0x80, 0xBF, more⟩) done rest := by
  rw [decodeFrom, if_pos (tail_between small above below)]
  simp only [toNat_tail small, Nat.add_sub_cancel]

end Steps

/-! ## First bytes -/

theorem lead?_of_two {n : Nat} (above : 2 ≤ n) (below : n < 32) :
    ¬UInt8.ofNat (n+192) < 0x80 ∧ lead? (UInt8.ofNat (n+192)) = some ⟨n, 0x80, 0xBF, 0⟩ := by
  interval_cases n <;> exact ⟨by decide, rfl⟩

theorem lead?_of_three {n : Nat} (below : n < 16) :
    ¬UInt8.ofNat (n+224) < 0x80 ∧ lead? (UInt8.ofNat (n+224)) =
      some ⟨n, if n = 0 then 0xA0 else 0x80, if n = 13 then 0x9F else 0xBF, 1⟩ := by
  interval_cases n <;> exact ⟨by decide, rfl⟩

theorem lead?_of_four {n : Nat} (below : n < 5) :
    ¬UInt8.ofNat (n+240) < 0x80 ∧ lead? (UInt8.ofNat (n+240)) =
      some ⟨n, if n = 0 then 0x90 else 0x80, if n = 4 then 0x8F else 0xBF, 2⟩ := by
  interval_cases n <;> exact ⟨by decide, rfl⟩

/-! ## Characters -/

theorem toNat_valid (c : Char) :
    c.val.toNat < 0xD800 ∨ 0xE000 ≤ c.val.toNat ∧ c.val.toNat < 0x110000 := by
  have valid := c.valid
  simp only [UInt32.isValidChar, Nat.isValidChar] at valid
  omega

theorem ofNat_toNat (c : Char) {n : Nat} (h : n = c.val.toNat) : Char.ofNat n = c := by
  subst h
  exact Char.ofNat_toNat c

/-- The bytes of one character are used up, and the character is put before
those so far. -/
theorem decodeFrom_character (c : Char) (position : Nat) (done : List Char) (rest : List UInt8) :
    ∃ next, decodeFrom position none done (String.utf8EncodeChar c ++ rest) =
      decodeFrom next none (c::done) rest := by
  have valid := toNat_valid c
  have given := fun n => ofNat_toNat c (n := n)
  simp only [String.utf8EncodeChar]
  generalize c.val.toNat = v at valid given ⊢
  split_ifs with one two three
  · have value : (UInt8.ofNat v).toNat = v := by
      rw [UInt8.toNat_ofNat', Nat.mod_eq_of_lt (by omega)]
    have short : UInt8.ofNat v < 0x80 := by
      rw [UInt8.lt_iff_toNat_lt, value]
      exact Nat.lt_succ_of_le one
    rw [List.singleton_append, decodeFrom, if_pos short, given _ value]
    exact ⟨_, rfl⟩
  · obtain ⟨long, lead⟩ := lead?_of_two (n := v/64 % 32) (by omega) (by omega)
    rw [List.cons_append, List.singleton_append, decodeFrom_lead long lead,
      decodeFrom_last (Nat.mod_lt _ (by decide)) (Nat.le_add_left _ _) (by simp; omega),
      given _ (by simp only; omega)]
    exact ⟨_, rfl⟩
  · obtain ⟨long, lead⟩ := lead?_of_three (n := v/4096 % 16) (by omega)
    rw [List.cons_append, List.cons_append, List.singleton_append, decodeFrom_lead long lead,
      decodeFrom_more (Nat.mod_lt _ (by decide)) (by split_ifs <;> simp <;> omega)
        (by split_ifs <;> simp <;> omega),
      decodeFrom_last (Nat.mod_lt _ (by decide)) (Nat.le_add_left _ _) (by simp; omega),
      given _ (by simp only; omega)]
    exact ⟨_, rfl⟩
  · obtain ⟨long, lead⟩ := lead?_of_four (n := v/262144 % 8) (by omega)
    rw [List.cons_append, List.cons_append, List.cons_append, List.singleton_append,
      decodeFrom_lead long lead,
      decodeFrom_more (Nat.mod_lt _ (by decide)) (by split_ifs <;> simp <;> omega)
        (by split_ifs <;> simp <;> omega),
      decodeFrom_more (Nat.mod_lt _ (by decide)) (Nat.le_add_left _ _) (by simp; omega),
      decodeFrom_last (Nat.mod_lt _ (by decide)) (Nat.le_add_left _ _) (by simp; omega),
      given _ (by simp only; omega)]
    exact ⟨_, rfl⟩

theorem decodeFrom_encode (characters : List Char) (position : Nat) (done : List Char) :
    decodeFrom position none done (encode characters) = .ok (done.reverse ++ characters) := by
  induction characters generalizing position done with
  | nil => rw [encode_nil, decodeFrom, List.append_nil]
  | cons c characters ih =>
    obtain ⟨next, step⟩ := decodeFrom_character c position done (encode characters)
    rw [encode_cons, step, ih, List.reverse_cons, List.append_assoc]
    rfl

theorem decode_encode (text : String) : decode (encode text.toList) = .ok text := by
  rw [decode, decodeFrom_encode]
  show Except.ok (String.ofList text.toList) = .ok text
  rw [String.ofList_toList]

theorem eq_of_mem_utf8EncodeChar {c : Char} {b : UInt8} (mem : b ∈ String.utf8EncodeChar c)
    (short : b < 0x80) : c = Char.ofNat b.toNat := by
  have valid := toNat_valid c
  rw [UInt8.lt_iff_toNat_lt] at short
  simp only [String.utf8EncodeChar] at mem
  split_ifs at mem with one two three
  · rw [List.mem_singleton.mp mem, UInt8.toNat_ofNat', Nat.mod_eq_of_lt (by omega)]
    exact (Char.ofNat_toNat c).symm
  all_goals
    exfalso
    simp only [List.mem_cons, List.not_mem_nil, or_false] at mem
    rcases mem with rfl | rfl | rfl | rfl <;>
      simp only [UInt8.toNat_ofNat', UInt8.reduceToNat] at short <;> omega

end MatchingDependencies.Text
