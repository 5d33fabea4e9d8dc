import LineScript.Value.Basic

/-!
# Widgets

The things that can be shown, and the calls on them. Every call that changes something is noted. A call on a
widget that is gone, or whose window is gone, fails.
-/

namespace LineScript.Window

inductive Class where
  | tk | toplevel
  | button | label | entry | message | frame | text | listbox
  deriving DecidableEq

def Class.title : Class → String
  | .tk => "Tk"
  | .toplevel => "Toplevel"
  | .button => "Button"
  | .label => "Label"
  | .entry => "Entry"
  | .message => "Message"
  | .frame => "Frame"
  | .text => "Text"
  | .listbox => "Listbox"

def Class.isEditable : Class → Bool
  | .entry | .text | .listbox => true
  | _ => false

def Class.options : Class → List String
  | .label => ["bg", "fg", "text", "image", "width", "height"]
  | .button => ["bg", "fg", "text", "command", "width", "height"]
  | .message => ["bg", "fg", "text"]
  | _ => ["bg", "fg"]

structure Object where
  cls : Class
  /-- Number of the window that a widget is in; a window is in itself. -/
  window : Nat
  options : Table Arg := []
  content : String := ""
  placeholder : Option String := none
  action : Option String := none
  gone : Bool := false
  /-- How many times closing will still fail. -/
  jammed : Nat := 0
  updates : Nat := 0

/-- All widgets so far, by number, and what has been done with them. -/
structure Screen where
  objects : List Object := []
  windows : Table Nat := []
  widgets : Table Nat := []
  current : Option String := none
  counter : Nat := 0
  running : Bool := false
  /-- The last window of each id. -/
  handlers : Table Nat := []
  log : List Effect := []

abbrev Gui := ExceptT Fault (StateM Screen)

def blank : Object := { cls := .frame, window := 0 }

def Screen.object (s : Screen) (i : Nat) : Object := s.objects.getD i blank

def Screen.setObject (s : Screen) (i : Nat) (o : Object) : Screen := { s with objects := s.objects.set i o }

def Screen.name (s : Screen) (i : Nat) : String := (s.object i).cls.title ++ toString i

def tclError (text : String) : Fault := .primitive .widget text

namespace Gui

def note (object method : String) (args : List Arg) (options : List (String × Arg)) : Gui Unit :=
  modify fun s => { s with log := s.log ++ [.widget object method args options] }

def noteCall (i : Nat) (method : String) (args : List Arg) (options : List (String × Arg)) : Gui Unit := do
  note ((← get).name i) method args options

/-- Fails if a widget or its window is gone. -/
def needAlive (i : Nat) : Gui Unit := do
  let s ← get
  let o := s.object i
  if o.gone || (s.object o.window).gone then throw (tclError "application has been destroyed")

def change (i : Nat) (f : Object → Object) : Gui Unit := modify fun s => s.setObject i (f (s.object i))

def newWindow (cls : Class) : Gui Nat := do
  let s ← get
  let i := s.objects.length
  set { s with objects := s.objects ++ [({ cls, window := i } : Object)] }
  noteCall i "new" [] []
  return i

def newWidget (cls : Class) (parent : Nat) (options : List (String × Arg)) : Gui Nat := do
  let s ← get
  let i := s.objects.length
  set { s with objects := s.objects ++ [({ cls, window := parent, options } : Object)] }
  noteCall i "new" [.text ((← get).name parent)] options
  return i

def place (i : Nat) (options : List (String × Arg)) : Gui Unit := do
  needAlive i
  noteCall i "place" [] options

def config (i : Nat) (options : List (String × Arg)) : Gui Unit := do
  needAlive i
  noteCall i "config" [] options
  change i fun o => { o with options := options.foldl (fun t (k, a) => Table.set t k a) o.options }

def cget (i : Nat) (name : String) : Gui String := do
  needAlive i
  let o := (← get).object i
  if !o.cls.options.contains name then throw (tclError ("unknown option \"-" ++ name ++ "\""))
  match o.options.find? name with
  | some (.text s) => return s
  | some (.number n) => return toString n
  | _ => return if name = "fg" then "black" else ""

def getContent (i : Nat) : Gui String := do
  let o := (← get).object i
  if o.cls = .listbox then
    throw (.type "Listbox.get() missing 1 required positional argument: 'first'")
  needAlive i
  return o.content

/-- Puts text in front of what is there. -/
def insert (i : Nat) (s : String) : Gui Unit := do
  needAlive i
  noteCall i "insert" [.number 0, .text s] []
  change i fun o => { o with content := s ++ o.content }

def delete (i : Nat) : Gui Unit := do
  needAlive i
  noteCall i "delete" [.number 0, .text "end"] []
  change i fun o => { o with content := "" }

def bind (i : Nat) (event : String) : Gui Unit := noteCall i "bind" [.text event, .callback] []

/-- Notes that a window or widget is to go; it stays if it is jammed. -/
def destroy (i : Nat) : Gui Unit := do
  noteCall i "destroy" [] []
  let o := (← get).object i
  if o.jammed > 0 then
    change i fun o => { o with jammed := o.jammed - 1 }
    throw (tclError "cannot destroy")
  change i fun o => { o with gone := true }

/-- Brings a window up to date; every second time fails. -/
def update (i : Nat) : Gui Unit := do
  noteCall i "update" [] []
  change i fun o => { o with updates := o.updates + 1 }
  if ((← get).object i).updates % 2 = 0 then throw (tclError "update failed")

end Gui

end LineScript.Window
