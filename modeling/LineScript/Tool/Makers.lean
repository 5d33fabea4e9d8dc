import LineScript.Tool.Screen

/-!
# Tools that make something

Lettering, passwords, codes to scan, speech and searches. Lettering, codes and speech need libraries that may
be missing.
-/

namespace LineScript.Tool

open Text

def hasLibrary (name : String) : Act Bool := do return (← get).modules.contains name

/-! ### Lettering -/

def fonts : List String :=
  ["block", "banner", "standard", "doom", "digital", "lean", "script", "starwars", "bulbhead", "univers"]

/-- The font of a number from one on; numbers from zero down count from the end. -/
def font? (s : String) : Option String :=
  match Value.toInt (.str s) with
  | .ok (.int n) =>
    let i := n - 1
    if i < 0 then (if i + fonts.length < 0 then none else fonts[(i + fonts.length).toNat]?) else fonts[i.toNat]?
  | _ => none

def asciiArt : Act Unit := do
  heading "ASCII ART GENERATOR"
  let text := strip (← Act.ask "Enter text: ").toList
  if text.isEmpty then Act.say "! Error: Text cannot be empty"
  else
    Act.say "\nAvailable fonts:"
    fonts.zipIdx.forM fun (f, i) => Act.say (toString (i + 1) ++ ". " ++ f)
    let font ← match font? (← Act.ask "Select font (1-10): ") with
      | some f => pure f
      | none => do
        Act.say "! Defaulting to 'standard' font"
        pure "standard"
    if ← hasLibrary "pyfiglet" then
      let art := "<" ++ font ++ ":" ++ String.ofList text ++ ">\n"
      Act.say ("\n" ++ rule '=' 60)
      Act.say (center 60 ("Font: " ++ font))
      Act.say (rule '=' 60)
      Act.say art
      Act.say (rule '=' 60)
      if ← Act.agrees "\nSave to file? (y/n): " then
        Act.alter (·.write "ascii_art.txt".toList (encode art.toList))
        Act.say "Saved to 'ascii_art.txt'"
    else Act.say "! Install pyfiglet first: pip install pyfiglet"

/-! ### Passwords -/

def smallLetters : List Char := "abcdefghijklmnopqrstuvwxyz".toList

def capitalLetters : List Char := "ABCDEFGHIJKLMNOPQRSTUVWXYZ".toList

def specials : List Char := "!@#$%^&*()_+-=[]\x7b\x7d|;:,.<>?".toList

/-- Picks a text of a length from characters. -/
def pickText (chars : List Char) : Nat → Act (List Char)
  | 0 => return []
  | n + 1 => do
    let c ← Act.pick chars
    return c :: (← pickText chars n)

def passwordGenerator : Act Unit := do
  heading "PASSWORD GENERATOR"
  match Value.toInt (.ofText (strip (← Act.ask "Length (8-64): ").toList)) with
  | .ok (.int n) =>
    let length := (max 8 (min 64 n)).toNat
    let capitals ← Act.agrees "Uppercase letters? (y/n): "
    let digits ← Act.agrees "Numbers? (y/n): "
    let special ← Act.agrees "Special chars? (y/n): "
    let chars := smallLetters ++ (if capitals then capitalLetters else []) ++
      (if digits then "0123456789".toList else []) ++ (if special then specials else [])
    let password ← pickText chars length
    Act.say "\nGenerated Password:"
    Act.say (rule '-' 30)
    Act.say (String.ofList password)
    Act.say (rule '-' 30)
  | _ => Act.say "! Invalid length"

/-! ### Codes and speech -/

def saveMade (what file : String) : Act Unit := do
  Act.emit (.model [.str what, .str file])
  Act.alter (·.write file.toList (encode what.toList))

def qrCode : Act Unit := do
  heading "QR CODE GENERATOR"
  if ← hasLibrary "qrcode" then
    let data ← Act.ask "Enter text/URL to encode: "
    let name := strip (← Act.ask "Save as (e.g., qr.png): ").toList
    let file := if name.isEmpty then "qr.png" else String.ofList name
    Act.emit (.modelOptions "qrcode" "new"
      [("version", .int 1), ("error_correction", .int 1), ("box_size", .int 10), ("border", .int 4)])
    Act.emit (.model [.str "qrcode", .str "add_data", .str data])
    Act.emit (.modelOptions "qrcode" "make" [("fit", .bool true)])
    Act.emit (.modelOptions "qrcode" "make_image" [("fill_color", .str "black"), ("back_color", .str "white")])
    saveMade "qr_save" file
    Act.say ("QR code saved as " ++ file)
    if ← Act.agrees "Show QR code? (y/n): " then
      if (← get).shell = .absent then Act.emit (.browser file) else Act.emit (.startFile file)
  else Act.say "! Install qrcode first: pip install qrcode[pil]"

def textToSpeech : Act Unit := do
  heading "TEXT TO SPEECH"
  let speech ← hasLibrary "gtts"
  let player ← hasLibrary "playsound"
  if speech && player then
    let text ← Act.ask "Enter text: "
    let file := "speech.mp3"
    Act.emit (.model [.str "gtts", .str text, .str "en"])
    saveMade "tts_save" file
    Act.say ("Saved as " ++ file)
    if ← Act.agrees "Play audio? (y/n): " then
      Act.emit (.model [.str "playsound", .str file])
      Act.alter (·.remove file.toList)
  else
    Act.say "! Install dependencies first:"
    Act.say "pip install gtts playsound"

/-! ### Searches and the machine -/

def engines : List (String × String) :=
  [("google", "https://www.google.com/search?q="), ("bing", "https://www.bing.com/search?q="),
   ("yahoo", "https://search.yahoo.com/search?p="), ("duckduckgo", "https://duckduckgo.com/?q=")]

def webSearch : Act Unit := do
  heading "WEB SEARCH"
  let query ← Act.ask "Search query: "
  if query.isEmpty then Act.say "! Query cannot be empty"
  else
    let engine := String.ofList (lower (← Act.ask "Engine (google/bing/yahoo/duckduckgo): ").toList)
    let url := (engines.lookup engine).getD "https://www.google.com/search?q=" ++ query
    Act.say ("\nOpening: " ++ url)
    Act.emit (.browser url)

def systemInfo : Act Unit := do
  heading "SYSTEM INFORMATION"
  let m := (← get).machine
  Act.say ("OS: " ++ m.system ++ " " ++ m.release)
  Act.say ("Architecture: " ++ m.architecture)
  Act.say ("Processor: " ++ (if m.processor.isEmpty then "Unknown" else m.processor))
  Act.say ("Python: " ++ m.runtime)

end LineScript.Tool
