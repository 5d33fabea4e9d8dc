import LineScript.Console
import LineScript.Tool.Files
import LineScript.Tool.Makers
import LineScript.Tool.Units

/-!
# The menu of tools

The user picks tools by number until they leave.
-/

namespace LineScript.Tool

open Text

/-! ### The interpreter as a tool -/

def interpreterPlaces : List (List Char) :=
  ["C:\\Users\\%USERNAME%\\AppData\\Local\\Programs\\Guython\\guython.exe".toList,
   Path.join Path.here "guython.py".toList,
   Path.join (Path.join Path.here "tool".toList) "guython.py".toList]

/-- Runs lines of the user; whether to go on. -/
def interpretLine : Run Bool := do
  let line := strip (← Run.act (Act.ask ">>> ")).toList
  let word := String.ofList (lower line)
  if word = "exit" || word = "quit" then return false
  else
    Run.line line false 0
    return true

/-- What is said when something stops a line. Without more input the user is asked forever. -/
def interpretStop : Stop → Run Bool
  | .interrupted => do
    Act.say "\n(Use 'exit' or 'quit' to exit)"
    return true
  | .fault f => do
    if f.isKind .endOfInput then throw .endless
    Act.say ("Error: " ++ f.message)
    return true
  | s => throw s

def interpretLoop : Nat → Run Unit
  | 0 => throw .endless
  | n + 1 => do
    if ← tryCatch interpretLine interpretStop then interpretLoop n

def interpreter : Act Unit := do
  heading "GUYTHON INTERPRETER"
  Act.say "Enter Guython code line by line. Type 'exit' to quit."
  let w ← get
  match interpreterPlaces.find? w.disk.isThere with
  | none =>
    Act.say "! Error: Could not find Guython interpreter"
    Act.say "Searched in:"
    interpreterPlaces.forM fun p => Act.say ("- " ++ String.ofList p)
  | some path =>
    if endsWith path ".exe".toList then
      Act.say ("\nLaunching Guython at: " ++ String.ofList path)
      Act.emit (.system ("\"" ++ String.ofList path ++ "\""))
    else
      Act.recover (Console.inSession (interpretLoop (w.input.length + 1)))
        fun f => Act.say ("! Error running Guython: " ++ f.message)

/-! ### The menu -/

def countdown : Act Unit := [3, 2, 1].forM fun i => do
  Act.write ("Exiting in " ++ toString i ++ "...\r")
  sleep 1

def leave : Act Unit := do
  Act.say "\nClosing Guy's Multitool..."
  countdown
  Act.say "Thank you for using Guy's Multitool!"
  sleep 1
  throw (.exited 0)

def tools : List (String × String × Act Unit) :=
  [("1", "ASCII Art Generator", asciiArt),
   ("2", "Password Generator", passwordGenerator),
   ("3", "File Encoder/Decoder", fileCoder),
   ("4", "Unit Converter", convertUnits),
   ("5", "System Info", systemInfo),
   ("6", "Guython Interpreter", interpreter),
   ("7", "QR Code Generator", qrCode),
   ("8", "Checksum Calculator", checksum),
   ("9", "Text to Speech", textToSpeech),
   ("10", "Directory Lister", directoryLister),
   ("11", "Web Search", webSearch),
   ("12", "Zip Tool", zipTool),
   ("0", "Exit", leave)]

/-- The menu cannot be shown before the tools are ready. -/
def notReady : Fault := .primitive .attribute "'GuysMultitool' object has no attribute 'tools'"

/-- Shows the menu, if the tools are ready. -/
def showMenu (ready : Bool) : Act Unit := do
  clearScreen
  Act.say ("\n" ++ rule '=' 84)
  Act.say banner
  Act.say (rule '=' 84)
  if !ready then Act.fail notReady
  tools.forM fun (key, name, _) => Act.say ("[" ++ key ++ "] " ++ name)
  Act.say (rule '=' 84)

def round : Act Unit := do
  showMenu true
  let choice := String.ofList (strip (← Act.ask "\nSelect tool >> ").toList)
  match tools.lookup choice with
  | some (_, work) =>
    clearScreen
    work
    if choice ≠ "0" then
      let _ ← Act.ask "\nPress Enter to continue..."
  | none =>
    Act.say "! Invalid choice. Try again."
    sleep 1

/-- Rounds, each of which takes a line from the user or ends. -/
def rounds : Nat → Act Unit
  | 0 => return ()
  | n + 1 => do
    round
    rounds n

def run : Act Unit := do
  showSplash
  rounds ((← get).input.length + 1)

/-- The menu as a program: an interruption ends it. -/
def untilInterrupted : Act Unit :=
  tryCatch run fun
    | .interrupted => do
      Act.say "\nOperation cancelled by user"
      throw (.exited 1)
    | s => throw s

/-! ### Single tools -/

inductive Action where
  | clearScreen | showSplash | showMenu | prepare | run
  | asciiArt | passwordGenerator | fileCoder | convertUnits | systemInfo | interpreter | qrCode | checksum
  | textToSpeech | directoryLister | webSearch | zipTool | leave
  deriving DecidableEq

/-- Whether the tools are ready after an action. -/
def Action.prepares : Action → Bool
  | .prepare | .run => true
  | _ => false

def Action.perform (ready : Bool) : Action → Act Unit
  | .clearScreen => Tool.clearScreen
  | .showSplash => Tool.showSplash
  | .showMenu => Tool.showMenu ready
  | .prepare => return ()
  | .run => Tool.run
  | .asciiArt => Tool.asciiArt
  | .passwordGenerator => Tool.passwordGenerator
  | .fileCoder => Tool.fileCoder
  | .convertUnits => Tool.convertUnits
  | .systemInfo => Tool.systemInfo
  | .interpreter => Tool.interpreter
  | .qrCode => Tool.qrCode
  | .checksum => Tool.checksum
  | .textToSpeech => Tool.textToSpeech
  | .directoryLister => Tool.directoryLister
  | .webSearch => Tool.webSearch
  | .zipTool => Tool.zipTool
  | .leave => Tool.leave

end LineScript.Tool
