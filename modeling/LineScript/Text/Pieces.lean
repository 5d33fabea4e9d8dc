import LineScript.Text.Classes

/-!
# Pieces of a text

Trimming, searching, splitting and replacing on lists of characters. Searches go from left to right
and never overlap.
-/

namespace LineScript.Text

def trimLeft (p : Char → Bool) (s : List Char) : List Char := s.dropWhile p

def trimRight (p : Char → Bool) (s : List Char) : List Char := (s.reverse.dropWhile p).reverse

def trim (p : Char → Bool) (s : List Char) : List Char := trimRight p (trimLeft p s)

/-- The text without white space at its ends. -/
def strip (s : List Char) : List Char := trim isBlank s

/-- The text without quote characters at its ends. -/
def stripQuotes (s : List Char) : List Char := trim (fun c => c = '"' || c = '\x27') s

def startsWith (s p : List Char) : Bool := p.isPrefixOf s

def endsWith (s p : List Char) : Bool := p.isSuffixOf s

/-- Position of the first occurrence of `p`, counted from `i`. -/
def findFrom (p : List Char) (i : Nat) : List Char → Option Nat
  | [] => if p.isEmpty then some i else none
  | c :: cs => if p.isPrefixOf (c :: cs) then some i else findFrom p (i + 1) cs

def find? (p s : List Char) : Option Nat := findFrom p 0 s

def contains (s p : List Char) : Bool := (find? p s).isSome

/-- The texts before and after the first occurrence of `p`. -/
def cut? (p s : List Char) : Option (List Char × List Char) :=
  (find? p s).map fun i => (s.take i, s.drop (i + p.length))

/-- The texts around the occurrences of `sep`, at most `n` of them if `n` is given; `cur` is the piece
so far, last character first, and `skip` counts characters of a separator still to pass over. -/
def splitGo (sep : List Char) : Option Nat → List Char → Nat → List Char → List (List Char)
  | _, cur, _, [] => [cur.reverse]
  | n, cur, k + 1, _ :: cs => splitGo sep n cur k cs
  | some 0, cur, 0, c :: cs => splitGo sep (some 0) (c :: cur) 0 cs
  | n, cur, 0, c :: cs =>
    if sep.isPrefixOf (c :: cs) then cur.reverse :: splitGo sep (n.map (· - 1)) [] (sep.length - 1) cs
    else splitGo sep n (c :: cur) 0 cs

def splitOn (sep : List Char) (s : List Char) : List (List Char) := splitGo sep none [] 0 s

/-- Splits at most `n` times. -/
def splitOnMax (sep : List Char) (n : Nat) (s : List Char) : List (List Char) :=
  splitGo sep (some n) [] 0 s

/-- Maximal runs of characters that are not white space. -/
def words (s : List Char) : List (List Char) :=
  let step (c : Char) (acc : List Char × List (List Char)) :=
    if isBlank c then ([], if acc.1.isEmpty then acc.2 else acc.1 :: acc.2) else (c :: acc.1, acc.2)
  let (w, ws) := s.foldr step ([], [])
  if w.isEmpty then ws else w :: ws

/-- The first `n` words, then what follows them from its first character that is not white space. -/
def wordsMax : Nat → List Char → List (List Char)
  | 0, s =>
    let rest := s.dropWhile isBlank
    if rest.isEmpty then [] else [rest]
  | n + 1, s =>
    let rest := s.dropWhile isBlank
    if rest.isEmpty then []
    else rest.takeWhile (!isBlank ·) :: wordsMax n (rest.dropWhile (!isBlank ·))

/-- Number of occurrences of a text that is not empty. -/
def countGo (p : List Char) : Nat → List Char → Nat
  | _, [] => 0
  | k + 1, _ :: cs => countGo p k cs
  | 0, c :: cs => if p.isPrefixOf (c :: cs) then countGo p (p.length - 1) cs + 1 else countGo p 0 cs

/-- The empty text occurs around every character. -/
def count (p s : List Char) : Nat := if p.isEmpty then s.length + 1 else countGo p 0 s

/-- Replaces occurrences of a text that is not empty, at most `n` of them if `n` is given. -/
def replaceGo (old new : List Char) : Option Nat → Nat → List Char → List Char
  | _, _, [] => []
  | n, k + 1, _ :: cs => replaceGo old new n k cs
  | some 0, 0, c :: cs => c :: replaceGo old new (some 0) 0 cs
  | n, 0, c :: cs =>
    if old.isPrefixOf (c :: cs) then new ++ replaceGo old new (n.map (· - 1)) (old.length - 1) cs
    else c :: replaceGo old new n 0 cs

/-- Puts `new` before each character and at the end, at most `n` times if `n` is given. -/
def interleave (new : List Char) : Option Nat → List Char → List Char
  | some 0, s => s
  | _, [] => new
  | n, c :: cs => new ++ c :: interleave new (n.map (· - 1)) cs

def replaceMax (old new : List Char) (n : Option Nat) (s : List Char) : List Char :=
  if old.isEmpty then interleave new n s else replaceGo old new n 0 s

def replace (old new s : List Char) : List Char := replaceMax old new none s

def joinWith (sep : List Char) : List (List Char) → List Char
  | [] => []
  | [s] => s
  | s :: ss => s ++ sep ++ joinWith sep ss

def padRight (n : Nat) (fill : Char) (s : List Char) : List Char :=
  s ++ List.replicate (n - s.length) fill

def padLeft (n : Nat) (fill : Char) (s : List Char) : List Char :=
  List.replicate (n - s.length) fill ++ s

/-- Text in the middle of a field; an odd space goes left in odd fields and right in even ones. -/
def centered (width : Nat) (fill : Char) (s : List Char) : List Char :=
  let margin := width - s.length
  let left := margin / 2 + margin % 2 * (width % 2)
  List.replicate left fill ++ s ++ List.replicate (margin - left) fill

/-- Line ends: a carriage return before a line feed belongs to it. -/
def isLineEnd (c : Char) : Bool :=
  (10 ≤ c.toNat && c.toNat ≤ 13) || (28 ≤ c.toNat && c.toNat ≤ 30) || c.toNat = 0x85
    || c.toNat = 0x2028 || c.toNat = 0x2029

/-- Lines without their ends; a text that ends with a line end has no empty last line. -/
def linesGo (cur : List Char) : List Char → List (List Char)
  | [] => if cur.isEmpty then [] else [cur.reverse]
  | '\r' :: '\n' :: cs => cur.reverse :: linesGo [] cs
  | c :: cs => if isLineEnd c then cur.reverse :: linesGo [] cs else linesGo (c :: cur) cs

def lines (s : List Char) : List (List Char) := linesGo [] s

/-- Lines that end in a line feed and keep it. -/
def fileLinesGo (cur : List Char) : List Char → List (List Char)
  | [] => if cur.isEmpty then [] else [cur.reverse]
  | '\n' :: cs => ('\n' :: cur).reverse :: fileLinesGo [] cs
  | c :: cs => fileLinesGo (c :: cur) cs

def fileLines (s : List Char) : List (List Char) := fileLinesGo [] s

end LineScript.Text
