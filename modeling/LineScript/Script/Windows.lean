import LineScript.Script.Statements

/-!
# Window commands

Commands that open windows, put widgets into them and exchange texts with them.
-/

namespace LineScript.Run

open Text Line Window

def wholeArg (args : List (List Char)) (i : Nat) : Run Int := do
  match ← check (Value.toInt (.ofText (args.getD i []))) with
  | .int n => return n
  | _ => return 0

/-- A text among the arguments, without quotes around it; `default` if it is missing. -/
def textArg (args : List (List Char)) (i : Nat) (default : String) : String :=
  match args[i]? with
  | some a => String.ofList (stripQuotes a)
  | none => default

/-- Position and size, if all four numbers from the `i`th on are there. -/
def boxArg (args : List (List Char)) (i : Nat) : Run Gui.Box := do
  if args.length ≥ i + 4 then
    let x ← wholeArg args i
    let y ← wholeArg args (i + 1)
    let width ← wholeArg args (i + 2)
    let height ← wholeArg args (i + 3)
    return ⟨x, y, width, height⟩
  else return {}

def windowSpec (args : List (List Char)) : Run Gui.WindowSpec := do
  let spec : Gui.WindowSpec := { title := .text (textArg args 1 "Guython Window") }
  let spec ←
    if args.length ≥ 4 then
      let width ← wholeArg args 2
      let height ← wholeArg args 3
      pure { spec with width := toString width, height := toString height }
    else pure spec
  if args.length ≥ 5 then
    return { spec with resizable := .flag (String.ofList (lower (args.getD 4 [])) = "true") }
  else return spec

/-- What is wrong with a picture file. -/
def pictureFault (path : String) : Run (Option Fault) := do
  if (← world).disk.isThere path.toList then return none else return some (Disk.notFound path.toList)

def createImage (path : String) (x y : Int) (width height : Option Int) : Run String := do
  gui (Gui.createImage path x y width height (← pictureFault path))

def imageCommand (args : List (List Char)) : Run Unit := do
  if args.length < 4 then malformed .imageForm
  let path := textArg args 1 ""
  let x ← wholeArg args 2
  let y ← wholeArg args 3
  let width ← if args.length ≥ 5 then (some <$> wholeArg args 4) else pure none
  let height ← if args.length ≥ 6 then (some <$> wholeArg args 5) else pure none
  Act.say ("Created image: " ++ (← createImage path x y width height))

def windowAction (command : String) (args : List (List Char)) : Run Unit := do
  match command with
  | "createWindow" => do
    let spec ← windowSpec args
    Act.say ("Created window: " ++ (← gui (Gui.createWindow spec)))
  | "createButton" => do
    let box ← boxArg args 2
    let action := (args[6]?).map String.ofList
    Act.say ("Created button: " ++ (← gui (Gui.createButton (textArg args 1 "Button") box action)))
  | "createLabel" => do
    let box ← boxArg args 2
    Act.say ("Created label: " ++ (← gui (Gui.createLabel (textArg args 1 "Label") box)))
  | "createEntry" => do
    let box ← boxArg args 1
    Act.say ("Created entry: " ++ (← gui (Gui.createEntry box (textArg args 5 ""))))
  | "createImage" => imageCommand args
  | "showMessage" =>
    gui (Gui.showMessage (.text (textArg args 1 "Message")) (.text (textArg args 2 ""))
      (((args[3]?).map String.ofList).getD "info"))
  | "setWindowColor" => gui (Gui.setWindowColor (textArg args 1 "#ffffff"))
  | "startGui" => do
    gui Gui.start
    Act.say "GUI started"
  | "waitGui" => gui Gui.wait
  | c => malformed (.unknownGui c)

/-- Runs a window command. A malformed number is an error of form, every other failure one of running. -/
def windowCommand (code : List Char) (importing : Bool) : Run Unit := do
  if importing then return ()
  match arguments code with
  | [] => return ()
  | word :: rest =>
    let command := String.ofList word
    recover (windowAction command (word :: rest)) fun f =>
      if f.isValue then malformed (.guiParameters command f.message)
      else broken (.guiCommand command f.message)

def setTextCommand (code : List Char) (importing : Bool) : Run Unit := do
  if importing then return ()
  match wordsMax 2 code with
  | [_, id, source] =>
    let id := String.ofList id
    let ids := Pkg.quotedList (← session).screen.widgets.names
    note ("Attempting to set text on widget: " ++ id)
    note ("Available widgets: " ++ ids)
    let text ← wrapping .evaluatingText (
      if isQuoted source then return String.ofList (inner source)
      else do display (← evaluate source))
    wrapping .settingText do
      if !(← session).screen.widgets.contains id then broken (.widgetNotFound id ids)
      gui (Gui.setText id text)
      note ("Successfully set text of " ++ id ++ " to: " ++ text)
  | _ => malformed .setTextForm

def readTextCommand (code : List Char) (importing : Bool) : Run Unit := do
  if importing then return ()
  match arguments code with
  | [_, id, name] =>
    if !isValidName name then malformed (.variableName (String.ofList name))
    let id := String.ofList id
    let name := String.ofList name
    wrapping (.readingWidget id) do
      let text ← gui (Gui.getValue id)
      let v ← check (Typed.widgetValue text.toList)
      setVariable name v
      note ("Read text from " ++ id ++ " into " ++ name ++ ": " ++ (← display v))
  | _ => malformed .readTextForm

def closeWindow (id : String) : Run Unit := do
  match (← session).screen.handlers.find? id with
  | none => return ()
  | some i =>
    match ← gui (Gui.closeWindow id i) with
    | some message => Act.say ("Error during window close: " ++ message)
    | none => return ()

def press (run : Runner) (id : String) : Run Unit := do
  let screen := (← session).screen
  match (screen.widgets.find? id).bind fun i => (screen.object i).action with
  | none => return ()
  | some code =>
    recover (do
      Act.say ("BUTTON PRESS: " ++ code)
      run code.toList false 0)
      fun f => Act.say ("BUTTON ERROR: " ++ f.message)

/-- The colour that the user chooses; black if none. -/
def chooseColor : Run String := do
  let w ← world
  match w.choices with
  | .color name :: rest =>
    act (modify fun w => { w with choices := rest })
    return match name with
      | some n => if n.isEmpty then "#000000" else n
      | none => "#000000"
  | _ => return "#000000"

def chooseFile (types : String) : Run Value := do
  Act.emit (.fileDialog types)
  let w ← world
  match w.choices with
  | .file v :: rest =>
    act (modify fun w => { w with choices := rest })
    return v
  | _ => return .str ""

end LineScript.Run
