/-!
# Sets of characters given by ranges

Properties of characters are stored as texts, which are read once into lists of inclusive bounds. A text holds numbers in base
26, one after the other, with a small letter for the last digit of each and capitals for the digits before it: `"Cnz"` stands
for 65 and 25.
-/

namespace LineScript.Text

def hexValue (ds : List Char) : Nat :=
  ds.foldl (fun n d => n * 16 + (if d.isDigit then d.toNat - 48 else d.toNat - 87)) 0

/-- The numbers of a text, of which the first has begun with `n`. -/
def numbersFrom (n : Nat) : List Char → List Nat
  | [] => []
  | c :: cs =>
    if c.isUpper then numbersFrom (26 * n + (c.toNat - 65)) cs else (26 * n + (c.toNat - 97)) :: numbersFrom 0 cs

def numbersOf (lines : List String) : List Nat := numbersFrom 0 (lines.flatMap String.toList)

/-- Inclusive ranges of code points. -/
abbrev RangeSet := List (Nat × Nat)

/-- Ranges beyond `last`. Each is given by its distance from the last code point so far and by how many follow its first. -/
def RangeSet.beyond (last : Nat) : List Nat → RangeSet
  | gap :: more :: ns => (last + gap, last + gap + more) :: beyond (last + gap + more) ns
  | _ => []

def RangeSet.ofLines (lines : List String) : RangeSet := beyond 0 (numbersOf lines)

def RangeSet.contains (s : RangeSet) (c : Char) : Bool :=
  s.any fun r => r.1 ≤ c.toNat && c.toNat ≤ r.2

end LineScript.Text
