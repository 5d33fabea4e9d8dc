import LineScript.Window.Toolkit

/-!
# Windows and widgets of a script

A script knows windows and widgets by ids. New widgets go into the current window.
-/

namespace LineScript.Window

namespace Gui

structure WindowSpec where
  title : Arg := .text "Guython Window"
  width : String := "400"
  height : String := "300"
  resizable : Arg := .flag true

/-- Opens a window, which becomes the current one. -/
def createWindow (spec : WindowSpec) : Gui String := do
  let i ← newWindow (if (← get).windows.isEmpty then .tk else .toplevel)
  noteCall i "title" [spec.title] []
  noteCall i "geometry" [.text (spec.width ++ "x" ++ spec.height)] []
  noteCall i "resizable" [spec.resizable, spec.resizable] []
  let s ← get
  let id := "window_" ++ toString s.windows.length
  set { s with windows := s.windows.set id i, current := some id, handlers := s.handlers.set id i }
  noteCall i "protocol" [.text "WM_DELETE_WINDOW", .callback] []
  return id

def currentWindow : Gui Nat := do
  let s ← get
  match s.current.bind s.windows.find? with
  | some i => return i
  | none => throw (.runtime .noWindow)

def register (kind : String) (i : Nat) : Gui String := do
  let s ← get
  let id := kind ++ "_" ++ toString s.counter
  set { s with widgets := s.widgets.set id i, counter := s.counter + 1 }
  return id

structure Box where
  x : Int := 10
  y : Int := 10
  width : Int := 100
  height : Int := 30

def Box.options (b : Box) : List (String × Arg) :=
  [("x", .number b.x), ("y", .number b.y), ("width", .number b.width), ("height", .number b.height)]

/-- A button; `action` is the code that it runs. -/
def createButton (text : String) (box : Box) (action : Option String) : Gui String := do
  let w ← currentWindow
  let i ← newWidget .button w
    [("text", .text text), ("width", .number (box.width.fdiv 8)), ("height", .number (box.height.fdiv 20))]
  place i box.options
  if action.any (!·.isEmpty) then
    config i [("command", .callback)]
    change i fun o => { o with action }
  register "button" i

def createLabel (text : String) (box : Box) : Gui String := do
  let w ← currentWindow
  let i ← newWidget .label w [("text", .text text)]
  place i box.options
  register "label" i

/-- A field to type into. Its placeholder is shown in grey. -/
def createEntry (box : Box) (placeholder : String) : Gui String := do
  let w ← currentWindow
  let i ← newWidget .entry w []
  place i box.options
  if !placeholder.isEmpty then
    insert i placeholder
    config i [("fg", .text "grey")]
    change i fun o => { o with placeholder := some placeholder }
    bind i "<FocusIn>"
    bind i "<FocusOut>"
  register "entry" i

/-- A picture; `missing` is what is wrong with the file, if anything is. -/
def createImage (path : String) (x y : Int) (width height : Option Int) (missing : Option Fault) :
    Gui String := do
  let w ← currentWindow
  let body : Gui String := do
    match missing with
    | some f => throw f
    | none => pure ()
    note "image" "open" [.text path] []
    match width, height with
    | some a, some b =>
      if a ≠ 0 && b ≠ 0 then note "image" "resize" [.pair (.number a) (.number b), .text "LANCZOS"] []
    | _, _ => pure ()
    let i ← newWidget .label w [("image", .text "<photo>")]
    place i [("x", .number x), ("y", .number y)]
    register "image" i
  tryCatch body fun f => throw (.runtime (.loadingImage path f.message))

/-- Puts a plain widget into the current window, under an id of its own. -/
def addWidget (cls : Class) (id : String) : Gui Unit := do
  let i ← newWidget cls (← currentWindow) []
  modify fun s => { s with widgets := s.widgets.set id i }

/-- Makes the next closings of a window fail. -/
def jam (id : String) (times : Nat) : Gui Unit := do
  match (← get).handlers.find? id with
  | some i => change i fun o => { o with jammed := times }
  | none => return ()

/-- The user types a text into a field. -/
def type (i : Nat) (text : String) : Gui Unit := change i fun o => { o with content := text }

/-- What happens when the user closes a window. A failure is told, and tried once more. -/
def closeWindow (id : String) (i : Nat) : Gui (Option String) := do
  let body : Gui (Option String) := do
    modify fun s => { s with windows := s.windows.erase id }
    let s ← get
    let belongs (k : Nat) : Bool :=
      let o := s.object k
      o.gone || (s.object o.window).gone || o.window = i
    set { s with widgets := s.widgets.filter fun (_, k) => !belongs k }
    modify fun s =>
      if s.current = some id then { s with current := s.windows.head?.map Prod.fst } else s
    modify fun s => if s.windows.isEmpty then { s with running := false } else s
    destroy i
    return none
  tryCatch body fun f => do
    modify fun s => { s with running := false }
    tryCatch (destroy i) fun _ => pure ()
    return some f.message

/-- The widget of an id; failing that, the first one whose id ends so. -/
def findWidget (id : String) : Gui Nat := do
  let s ← get
  match s.widgets.find? id with
  | some i => return i
  | none =>
    match List.find? (fun (p : String × Nat) => Text.endsWith p.1.toList id.toList) s.widgets with
    | some (_, i) => return i
    | none => throw (.value ("Widget ID not found: " ++ id))

def typeText (c : Class) : String := "<class 'tkinter." ++ c.title ++ "'>"

def setText (id text : String) : Gui Unit := do
  let i ← findWidget id
  let o := (← get).object i
  let body : Gui Unit := do
    match o.cls with
    | .label | .button => config i [("text", .text text)]
    | .entry =>
      delete i
      insert i text
      config i [("fg", .text (if o.placeholder = some text then "grey" else "black"))]
    | c =>
      needAlive i
      if c.options.contains "text" then config i [("text", .text text)]
      else if c.isEditable then
        delete i
        insert i text
      else throw (.value ("Cannot set text on widget type: " ++ typeText c))
  tryCatch body fun f =>
    throw (if f.isKind .widget then .value ("Error setting widget text: " ++ f.message) else f)

def getText (id : String) : Gui String := do
  match (← get).widgets.find? id with
  | none => return ""
  | some i =>
    if ((← get).object i).cls.isEditable then getContent i else cget i "text"

/-- The text that the user has given: a placeholder is none, nor is what a widget that is gone held. -/
def getValue (id : String) : Gui String := do
  match (← get).widgets.find? id with
  | none => return ""
  | some i =>
    let body : Gui String := do
      match ((← get).object i).cls with
      | .entry =>
        let value ← getContent i
        return if (← cget i "fg") = "grey" then "" else value
      | c => if c.isEditable then getContent i else cget i "text"
    tryCatch body fun f => if f.isKind .widget then return "" else throw f

def focus (id : String) : Gui Unit := do
  match (← get).widgets.find? id with
  | none => return ()
  | some i =>
    let body : Gui Unit := do
      needAlive i
      noteCall i "focus_set" [] []
    tryCatch body fun f => if f.isKind .widget then return () else throw f

def messageBox (kind : String) : String :=
  match kind with
  | "error" => "showerror"
  | "warning" => "showwarning"
  | _ => "showinfo"

def showMessage (title message : Arg) (kind : String) : Gui Unit :=
  note "messagebox" (messageBox kind) [title, message] []

def setWindowColor (color : String) : Gui Unit := do
  let s ← get
  match s.current.bind s.windows.find? with
  | some i => config i [("bg", .text color)]
  | none => return ()

/-- Brings all windows up to date, again and again until one fails. The second round fails at the latest. -/
def runWindows : Nat → List Nat → Gui Unit
  | 0, _ => return ()
  | n + 1, ws => do
    ws.forM update
    runWindows n ws

def start : Gui Unit := do
  let s ← get
  if !s.windows.isEmpty then
    set { s with running := true }
    tryCatch (runWindows 2 (s.windows.map Prod.snd)) fun _ => pure ()

def wait : Gui Unit := do
  match (← get).windows with
  | (_, i) :: _ => noteCall i "mainloop" [] []
  | [] => return ()

/-- The user goes to a field: its placeholder disappears. -/
def focusIn (i : Nat) : Gui Unit := do
  let content ← getContent i
  if some content = ((← get).object i).placeholder then
    delete i
    config i [("fg", .text "black")]

/-- The user leaves a field: an empty one shows its placeholder. -/
def focusOut (i : Nat) : Gui Unit := do
  let content ← getContent i
  if content.isEmpty then
    insert i (((← get).object i).placeholder.getD "")
    config i [("fg", .text "grey")]

end Gui

end LineScript.Window
