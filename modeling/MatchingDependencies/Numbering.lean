import Std.Data.HashMap

/-!
# Numbered values

A numbering counts values in the order of their first appearance. It finds the
value of a number and the number of a value; the two agree, so no value is
numbered twice.
-/

set_option autoImplicit false

namespace MatchingDependencies

structure Numbering where
  values : Array String
  numbers : Std.HashMap String Nat
  agree : ∀ (v : String) (i : Nat), numbers[v]? = some i ↔ values[i]? = some v

namespace Numbering

def empty : Numbering := ⟨#[], ∅, by simp⟩

def add (n : Numbering) (v : String) : Numbering :=
  if h : v ∈ n.numbers then n
  else
    { values := n.values.push v
      numbers := n.numbers.insert v n.values.size
      agree := by
        intro w i
        have absent : n.numbers[v]? = none := Std.HashMap.getElem?_eq_none h
        have old := n.agree w i
        rw [Std.HashMap.getElem?_insert, Array.getElem?_push]
        by_cases hw : v = w
        · subst hw
          simp only [beq_self_eq_true, if_true, Option.some.injEq]
          grind
        · grind }

def size (n : Numbering) : Nat := n.values.size

def number (n : Numbering) (v : String) : Nat := n.numbers.getD v n.size

end Numbering

end MatchingDependencies
