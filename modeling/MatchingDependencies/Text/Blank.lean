/-!
# Blanks

The blanks are the characters with the Unicode property White_Space. Words are
the longest runs of other characters.
-/

set_option autoImplicit false

namespace MatchingDependencies.Text

def blanks : List Char :=
  ['\t', '\n', '\x0b', '\x0c', '\r', ' ', '\u0085', '\u00a0', '\u1680',
   '\u2000', '\u2001', '\u2002', '\u2003', '\u2004', '\u2005', '\u2006', '\u2007',
   '\u2008', '\u2009', '\u200a', '\u2028', '\u2029', '\u202f', '\u205f', '\u3000']

def isBlank (c : Char) : Bool := blanks.contains c

/-- The words read so far, last first, and the characters of the word that is
being read, last first. -/
structure Reading where
  words : List (List Char)
  word : List Char

namespace Reading

def ended (r : Reading) : List (List Char) :=
  if r.word.isEmpty then r.words else r.word.reverse :: r.words

def step (r : Reading) (c : Char) : Reading :=
  if isBlank c then ⟨r.ended, []⟩ else { r with word := c :: r.word }

end Reading

def words (cs : List Char) : List (List Char) := (cs.foldl Reading.step ⟨[], []⟩).ended.reverse

def trimmed (cs : List Char) : List Char :=
  ((cs.dropWhile isBlank).reverse.dropWhile isBlank).reverse

end MatchingDependencies.Text
