import LineScript.Calendar

/-!
# Times written by a pattern

A pattern is text with fields in it: `%`, marks that tell how to write the field, and a letter that tells what
the field shows. A field that means nothing is written as it stands.
-/

namespace LineScript.Calendar

structure Style where
  /-- What fills a number up: `0`, `_` for blanks, or `-` for nothing. -/
  fill : Option Char := none
  upper : Bool := false
  /-- Names in capital letters; what is in capital letters anyway in small ones. -/
  swap : Bool := false
  width : Nat := 0
  /-- `E` or `O`, which ask for other calendars and digits. There are none, but not every field admits them. -/
  variant : Option Char := none

inductive Field where
  /-- A number of so many digits, filled up with blanks or zeros. -/
  | number (digits : Nat) (blanks : Bool) (n : Int)
  | name (s : String)
  /-- A name in capital letters. -/
  | capitals (s : String)
  | small (s : String)
  /-- The name of a time zone, which is not filled up where numbers are not. -/
  | place (s : String)
  | zone (n : Nat)
  /-- Fields that are often used together. -/
  | pattern (s : String)

def field? (t : Time) (c : Char) : Option Field :=
  let d := ofDays t.days
  let hour := t.seconds / 3600
  let hour12 := if hour % 12 = 0 then 12 else hour % 12
  let yday := daysBefore (isLeap d.year) d.month + d.day
  let wday := weekday t.days
  let sunday := (wday + 1) % 7
  let short (s : String) := String.ofList (s.toList.take 3)
  let month := months.getD (d.month - 1) ""
  let half := if hour < 12 then "AM" else "PM"
  match c with
  | 'Y' => some (.number 1 false d.year)
  | 'C' => some (.number 2 false (d.year.fdiv 100))
  | 'y' => some (.number 2 false (d.year % 100))
  | 'G' => some (.number 1 false (isoWeek t.days).1)
  | 'g' => some (.number 2 false ((isoWeek t.days).1 % 100))
  | 'm' => some (.number 2 false d.month)
  | 'd' => some (.number 2 false d.day)
  | 'e' => some (.number 2 true d.day)
  | 'H' => some (.number 2 false hour)
  | 'k' => some (.number 2 true hour)
  | 'I' => some (.number 2 false hour12)
  | 'l' => some (.number 2 true hour12)
  | 'M' => some (.number 2 false (t.seconds / 60 % 60 : Nat))
  | 'S' => some (.number 2 false (t.seconds % 60 : Nat))
  | 'j' => some (.number 3 false yday)
  | 'u' => some (.number 1 false (wday + 1))
  | 'w' => some (.number 1 false sunday)
  | 'U' => some (.number 2 false ((yday + 6 - sunday) / 7 : Nat))
  | 'W' => some (.number 2 false ((yday + 6 - wday) / 7 : Nat))
  | 'V' => some (.number 2 false (isoWeek t.days).2)
  | 'A' => some (.name (dayName t.days))
  | 'a' => some (.name (short (dayName t.days)))
  | 'B' => some (.name month)
  | 'b' | 'h' => some (.name (short month))
  | 'p' => some (.capitals half)
  | 'P' => some (.small half)
  | 'Z' => some (.place "UTC")
  | 'z' => some (.zone 0)
  | 's' => some (.name (toString (t.days * 86400 + t.seconds)))
  | 'n' => some (.name "\n")
  | 't' => some (.name "\t")
  | '%' => some (.name "%")
  | 'D' | 'x' => some (.pattern "%m/%d/%y")
  | 'F' => some (.pattern "%Y-%m-%d")
  | 'T' | 'X' => some (.pattern "%H:%M:%S")
  | 'R' => some (.pattern "%H:%M")
  | 'r' => some (.pattern "%I:%M:%S %p")
  | 'c' => some (.pattern "%a %b %e %H:%M:%S %Y")
  | _ => none

def admits (c variant : Char) : Bool :=
  !((if variant = 'E' then "aADF%bhBdeHIkljMmSUVgGWw" else "aADF%cxXY").toList.contains c)

/-- Text filled up to the width. -/
def Style.widen (s : Style) (text : List Char) : List Char :=
  List.replicate (s.width - text.length) (if s.fill = some '0' then '0' else ' ') ++ text

/-- Text in capital letters if they are asked for, filled up to the width. -/
def Style.lay (s : Style) (text : List Char) : List Char :=
  s.widen (if s.upper then text.map Char.toUpper else text)

def Style.layNumber (s : Style) (digits : Nat) (blanks : Bool) (n : Int) : List Char :=
  let text := (yearText n).toList
  let missing := max digits s.width - text.length
  match s.fill, blanks with
  | some '-', _ => s.widen text
  | some '_', _ | none, true => List.replicate missing ' ' ++ text
  | _, _ => List.replicate missing '0' ++ text

/-- A field in a style; `inside` writes the fields that a field stands for. -/
def Style.write (inside : List Char → List Char) (s : Style) : Field → List Char
  | .number digits blanks n => s.layNumber digits blanks n
  | .name text => { s with upper := s.upper || s.swap }.lay text.toList
  | .capitals text => if s.swap then s.widen (text.toList.map Char.toLower) else s.lay text.toList
  | .place text => if s.fill = some '-' then text.toList else s.lay text.toList
  | .small text => s.widen (text.toList.map Char.toLower)
  | .zone n => s.widen ['+'] ++ s.layNumber 4 false n
  | .pattern p => s.lay (inside p.toList)

def readFill (s : Style) : List Char → Style × List Char
  | c :: cs =>
    if c = '_' || c = '-' || c = '0' then readFill { s with fill := some c } cs
    else if c = '^' then readFill { s with upper := true } cs
    else if c = '#' then readFill { s with swap := true } cs
    else (s, c :: cs)
  | [] => (s, [])

def readStyle (cs : List Char) : Style × List Char :=
  let (s, cs) := readFill {} cs
  let digits := cs.takeWhile Char.isDigit
  let s := { s with width := digits.foldl (fun n c => n * 10 + (c.toNat - 48)) 0 }
  match cs.drop digits.length with
  | 'E' :: rest => ({ s with variant := some 'E' }, rest)
  | 'O' :: rest => ({ s with variant := some 'O' }, rest)
  | rest => (s, rest)

/-- The text of the field whose marks and letter come first, and how many characters these are. -/
def fieldText (inside : List Char → List Char) (t : Time) (cs : List Char) : List Char × Nat :=
  let (style, rest) := readStyle cs
  let marks := cs.take (cs.length - rest.length)
  match rest with
  | [] => (style.lay ('%' :: marks), marks.length)
  | c :: _ =>
    let text :=
      match (field? t c).filter fun _ => style.variant.all (admits c) with
      | some f => style.write inside f
      | none => style.lay (if c = '%' then ['%'] else '%' :: marks ++ [c])
    (text, marks.length + 1)

/-- Goes through a pattern; `skip` counts characters of a field that is written already. -/
def formatWith (inside : List Char → List Char) (t : Time) : Nat → List Char → List Char
  | _, [] => []
  | skip + 1, _ :: cs => formatWith inside t skip cs
  | 0, c :: cs =>
    if c = '%' then
      let (text, used) := fieldText inside t cs
      text ++ formatWith inside t used cs
    else c :: formatWith inside t 0 cs

/-- A time by a pattern. The fields that a field stands for are plain ones. -/
def format (t : Time) (pattern : List Char) : List Char :=
  formatWith (formatWith (fun _ => []) t 0) t 0 pattern

end LineScript.Calendar
