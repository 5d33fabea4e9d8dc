import LineScript.Json.Basic

/-!
# Writing JSON

Two spaces for each level, one item a line, characters beyond ASCII by their numbers.
-/

namespace LineScript.Json

def unitText (n : Nat) : List Char := '\\' :: 'u' :: Text.hexDigits 4 n

def escapeChar (c : Char) : List Char :=
  match c with
  | '"' => ['\\', '"']
  | '\\' => ['\\', '\\']
  | '\n' => ['\\', 'n']
  | '\r' => ['\\', 'r']
  | '\t' => ['\\', 't']
  | '\x08' => ['\\', 'b']
  | '\x0c' => ['\\', 'f']
  | c =>
    let n := c.toNat
    if 0x20 ≤ n && n < 0x7f then [c]
    else if n < 0x10000 then unitText n
    else unitText (0xd800 + (n - 0x10000) / 1024) ++ unitText (0xdc00 + (n - 0x10000) % 1024)

def stringText (s : String) : List Char := '"' :: s.toList.flatMap escapeChar ++ ['"']

def newLine (level : Nat) : List Char := '\n' :: List.replicate (2 * level) ' '

def floatWord (x : Float) : List Char :=
  if x.isNaN then "NaN".toList
  else if x.isInf then (if x < 0.0 then "-Infinity".toList else "Infinity".toList)
  else Number.floatText x

mutual

def print (level : Nat) : Json → Except Fault (List Char)
  | .null => .ok "null".toList
  | .bool b => .ok (if b then "true".toList else "false".toList)
  | .int n => do return (← Value.intString n).toList
  | .float x => .ok (floatWord x)
  | .str s => .ok (stringText s)
  | .arr [] => .ok ['[', ']']
  | .arr items => do
    return '[' :: Text.joinWith [','] (← printItems (level + 1) items) ++ newLine level ++ [']']
  | .obj [] => .ok ['\x7b', '\x7d']
  | .obj fields => do
    return '\x7b' :: Text.joinWith [','] (← printFields (level + 1) fields) ++ newLine level ++ ['\x7d']

def printItems (level : Nat) : List Json → Except Fault (List (List Char))
  | [] => .ok []
  | j :: js => do
    let s ← print level j
    return (newLine level ++ s) :: (← printItems level js)

def printFields (level : Nat) : List (String × Json) → Except Fault (List (List Char))
  | [] => .ok []
  | (k, j) :: rest => do
    let s ← print level j
    return (newLine level ++ stringText k ++ [':', ' '] ++ s) :: (← printFields level rest)

end

def toText (j : Json) : Except Fault (List Char) := print 0 j

end LineScript.Json
