import LineScript.Value.Method
import LineScript.Calendar.Pattern

/-!
# Bundled libraries

The functions of the packages for texts, for time and for simple windows.
-/

namespace LineScript.Value

open Number Text

/-- Calls the method of a value that has the given name. -/
def callNamed (v : Value) (name : String) (args : List Value) : Eval Value :=
  match attribute? v name with
  | some (.method self m) => callMethod self m ⟨args, []⟩
  | _ => throw (.primitive .attribute ("'" ++ v.typeName ++ "' object has no attribute '" ++ name ++ "'"))

def reversed (v : Value) : Eval Value := do
  match v with
  | .str s => return .ofText s.toList.reverse
  | .bytes bs => return .bytes bs.reverse
  | .tuple vs => return .tuple vs.reverse
  | .list ref => Eval.newList ((← get).items ref).reverse
  | .builtin .int | .builtin .float | .builtin .str =>
    throw (.type ("type '" ++ (match v with | .builtin b => b.label | _ => "") ++ "' is not subscriptable"))
  | v => throw (.type ("'" ++ v.typeName ++ "' object is not subscriptable"))

/-- The method that a function of the text library stands for, when it has one parameter. -/
def textAlias : String → String
  | "toupper" => "upper"
  | "tolower" => "lower"
  | "titlecase" => "title"
  | name => name

def required (names : List String) : List (String × Option Value) := names.map fun x => (x, Option.none)

def callTextLibrary (name : String) (a : Args) : Eval Value := do
  let two (second method : String) : Eval Value := do
    match ← a.bind name (required ["s", second]) with
    | s :: r => callNamed s method r
    | [] => return .nothing
  match name with
  | "reverse" =>
    match ← a.bind name (required ["s"]) with
    | [s] => reversed s
    | _ => return .nothing
  | "countsubstring" => two "sub" "count"
  | "startswith" => two "prefix" "startswith"
  | "endswith" => two "suffix" "endswith"
  | "stripchars" => two "chars" "strip"
  | "lstripchars" => two "chars" "lstrip"
  | "rstripchars" => two "chars" "rstrip"
  | "removewhitespace" =>
    match ← a.bind name (required ["s"]) with
    | [s] =>
      let parts ← callNamed s "split" []
      return .ofText (← joinTexts (← get) [] parts)
    | _ => return .nothing
  | "replace" =>
    match ← a.bind name (required ["s", "old", "new"] ++ [("count", some (.int (-1)))]) with
    | s :: r => callNamed s "replace" r
    | [] => return .nothing
  | _ =>
    match ← a.bind name (required ["s"]) with
    | [s] => callNamed s (textAlias name) []
    | _ => return .nothing

/-- Microseconds in so many days, a half going to the even neighbour. -/
def daysToMicros (v : Value) : Except Fault Int :=
  let day : Int := 86400000000
  match v with
  | .bool b => .ok (if b then day else 0)
  | .int n => .ok (n * day)
  | .float x => do
    let whole ← floatToInt x
    let fraction := (x - Float.ofInt whole) * Float.ofInt day
    return whole * day + roundWhole fraction
  | v => .error (.type ("unsupported type for timedelta days component: " ++ v.typeName))

def dateAfter (clock : Int) (v : Value) : Except Fault Calendar.Date := do
  let micros ← daysToMicros v
  let days := micros.fdiv 86400000000
  if days ≥ Nat.pow 2 31 || days < -Nat.pow 2 31 then
    throw (.primitive .overflow "Python int too large to convert to C int")
  if days.natAbs > 999999999 then
    throw (.primitive .overflow ("days=" ++ toString days ++ "; must have magnitude <= 999999999"))
  let target := (clock * 1000000 + micros).fdiv 86400000000
  if target < -719162 || target > 2932896 then
    throw (.primitive .overflow "date value out of range")
  return Calendar.ofDays target

def formatTime (clock : Int) (v : Value) : Except Fault Value :=
  match v with
  | .str s =>
    if s.toList.contains '\x00' then .error (.value "embedded null character")
    else .ok (.ofText (Calendar.format (Calendar.Time.ofUnix clock) s.toList))
  | v => .error (.type ("strftime() argument 1 must be str, not " ++ v.argumentName))

def callTimeLibrary (name : String) (a : Args) : Eval Value := do
  let clock := (← get).clock
  match name with
  | "current_time" => do
    let _ ← a.bind name []
    formatTime clock (.str "%Y-%m-%d %H:%M:%S")
  | "timestamp" => do
    let _ ← a.bind name []
    return .int clock
  | "sleep" => do
    match ← a.bind name (required ["seconds"]) with
    | v :: _ =>
      modify (·.emit (.sleep v))
      return .nothing
    | [] => return .nothing
  | "future_date" => do
    match ← a.bind name [("days", some (.int 0))] with
    | v :: _ => return .str (Calendar.dateText (← dateAfter clock v))
    | [] => return .nothing
  | "timezone" => do
    let _ ← a.bind name []
    return .tuple [.str "UTC", .str "UTC"]
  | "day_of_week" => do
    let _ ← a.bind name []
    formatTime clock (.str "%A")
  | _ => do
    match ← a.bind name [("fmt", some (.str "%H:%M:%S"))] with
    | v :: _ => formatTime clock v
    | [] => return .nothing

/-- The application that the window library works on. -/
def needApp (load : Nat) : Eval Unit := do
  if !(← get).apps.contains load then throw (.primitive .name "name 'var' is not defined")

def callEasyGui (load : Nat) (name : String) (a : Args) : Eval Value := do
  let note (entries : List Value) : Eval Unit := modify (·.emit (.model (.str "easygui" :: entries)))
  match name with
  | "App" => do
    match ← a.bind name (required ["name"]) with
    | v :: _ =>
      note [.str "App", v]
      modify fun s => { s with apps := load :: s.apps }
      return .tuple [.str "Started EasyGUI app with name ", v]
    | [] => return .nothing
  | "text" => do
    match ← a.bind name (required ["text"]) with
    | v :: _ =>
      needApp load
      note [.str "text", v]
      return .tuple [.str "Added text ", v]
    | [] => return .nothing
  | _ => do
    let _ ← a.bind name []
    needApp load
    note [.str "run"]
    return .str "Running"

def callLibrary (lib : Library) (load : Nat) (name : String) (a : Args) : Eval Value :=
  match lib with
  | .text => callTextLibrary name a
  | .time => callTimeLibrary name a
  | .easygui => callEasyGui load name a
  | .empty => return .nothing

end LineScript.Value
