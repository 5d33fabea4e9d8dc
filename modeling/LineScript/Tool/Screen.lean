import LineScript.World

/-!
# What the tools show

Headings, rules and the banner.
-/

namespace LineScript.Tool

open Text

def rule (c : Char) (n : Nat) : String := String.ofList (List.replicate n c)

def center (n : Nat) (s : String) : String := String.ofList (centered n ' ' s.toList)

def heading (title : String) : Act Unit := do
  Act.say ("\n" ++ rule '=' 30)
  Act.say (center 30 title)
  Act.say (rule '=' 30)

def clearScreen : Act Unit := Act.say (rule '\n' 50)

def bannerLines : List String :=
  ["",
   "        ",
   " ________  ___  ___      ___    ___ ________           _____ ______   _________   ",
   "|\\   ____\\|\\  \\|\\  \\    |\\  \\  /  /|\\   ____\\         |\\   _ \\  _   \\|\\___   ___\\ ",
   "\\ \\  \\___|\\ \\  \\\\\\  \\   \\ \\  \\/  / | \\  \\___|_        \\ \\  \\\\\\__\\ \\  \\|___ \\  \\_| ",
   " \\ \\  \\  __\\ \\  \\\\\\  \\   \\ \\    / / \\ \\_____  \\        \\ \\  \\\\|__| \\  \\   \\ \\  \\  ",
   "  \\ \\  \\|\\  \\ \\  \\\\\\  \\   \\/  /  /   \\|____|\\  \\        \\ \\  \\    \\ \\  \\   \\ \\  \\ ",
   "   \\ \\_______\\ \\_______\\__/  / /       ____\\_\\  \\        \\ \\__\\    \\ \\__\\   \\ \\__\\",
   "    \\|_______|\\|_______|\\___/ /       |\\_________\\        \\|__|     \\|__|    \\|__|",
   "                       \\|___|/        \\|_________|                                ",
   "                                                                                  ",
   "                                                                                  ",
   "",
   "        "]

def banner : String := "\n".intercalate bannerLines

def sleep (n : Nat) : Act Unit := Act.emit (.sleep (.int n))

def showSplash : Act Unit := do
  clearScreen
  Act.say (rule '=' 84)
  Act.say banner
  Act.say (rule '=' 84)
  Act.say (center 84 "Now with 12 powerful tools!")
  Act.say (rule '=' 84)
  sleep 3

end LineScript.Tool
