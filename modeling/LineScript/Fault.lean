import LineScript.Text.Quoted
import LineScript.Number.Numeral

/-!
# Faults

What can go wrong while a script runs. Failures of operations on values, numbers, texts and files are
told apart by kind and carry their text; failures of the language itself are causes, worded in one
place. A jump to another line travels as a fault until the program that owns the line takes it.
-/

namespace LineScript

inductive Kind where
  | type | value | zeroDivision | overflow | attribute | key | index | lookup | recursion | memory | name
  | decode | json | unreadable
  | endOfInput | missingImport | importRefused
  | fileNotFound | permission | isDirectory | notDirectory | fileExists | directoryNotEmpty | os
  | widget | request | process | archive | unsupported
  deriving DecidableEq

/-- Kinds that count as bad values: undecodable text and unreadable data are among them. -/
def Kind.isValue : Kind → Bool
  | .value | .decode | .json => true
  | _ => false

def Kind.isOs : Kind → Bool
  | .fileNotFound | .permission | .isDirectory | .notDirectory | .fileExists | .directoryNotEmpty | .os => true
  | _ => false

inductive Malformed where
  | array
  | arrayAccess
  | arrayAssignment
  | missingBracket
  | gpdCommand
  | packageNameMissing
  | importForm
  | unknownGpd (command : String)
  | goto
  | gotoWord
  | imageForm
  | unknownGui (command : String)
  | guiParameters (command detail : String)
  | setTextForm
  | readTextForm
  | variableName (name : String)
  | functionForm
  | functionUnderscore
  | functionName (name : String)
  | argumentName (name : String)
  | aliasName (name : String)
  | aliasTarget
  | aliasForm
  | ifCondition
  | elseWithoutIf
  | elseIndent
  | moduleFileType
  | moduleName (name : String)
  | fileType
  | assignment
  | inputAssignment
  | readForm
  | writeForm
  | permissionsForm
  deriving DecidableEq

def Malformed.message : Malformed → String
  | .array => "Invalid array syntax"
  | .arrayAccess => "Invalid array access syntax"
  | .arrayAssignment => "Invalid array assignment syntax"
  | .missingBracket => "Missing closing bracket"
  | .gpdCommand => "Invalid GPD command"
  | .packageNameMissing => "Missing package name"
  | .importForm => "Invalid import syntax. Use: gpd import <package> [as <alias>]"
  | .unknownGpd c => "Unknown GPD command: '" ++ c ++ "', use 'gpd help' to list all GPD commands"
  | .goto => "Goto syntax error. Use: goto<line_number> or goto <line_number> (e.g., goto5 or goto 5)"
  | .gotoWord => "Invalid goto syntax"
  | .imageForm => "createImage requires: path x y [width height]"
  | .unknownGui c => "Unknown GUI command: " ++ c
  | .guiParameters c d => "Invalid parameters for " ++ c ++ ": " ++ d
  | .setTextForm => "setText syntax: setText <widgetId> <text>"
  | .readTextForm => "readText syntax: readText <widgetId> <variableName>"
  | .variableName n => "Invalid variable name: '" ++ n ++ "'"
  | .functionForm => "Function must be defined as 'def<name>_ [args]'"
  | .functionUnderscore => "Function definition missing trailing underscore"
  | .functionName n => "Invalid function name: '" ++ n ++ "'"
  | .argumentName n => "Invalid argument name: '" ++ n ++ "'"
  | .aliasName n => "Invalid alias name: " ++ n
  | .aliasTarget => "Alias target cannot be empty"
  | .aliasForm => "Invalid alias syntax. Use: alias name = target"
  | .ifCondition => "If statement missing condition"
  | .elseWithoutIf => "Unexpected 'else' without matching 'if'"
  | .elseIndent => "Else block must be indented under its matching if"
  | .moduleFileType => "Invalid file type: Given file must be .gy or .guy"
  | .moduleName n => "Invalid module name: " ++ n
  | .fileType => "Invalid file type. Given file must be .gy or .guy"
  | .assignment => "Invalid assignment syntax"
  | .inputAssignment => "Invalid input assignment syntax"
  | .readForm =>
    "Read syntax: read [-ign] [-lines] [-size] [-exists] \x7bfilePath\x7d \x7bfileName\x7d.\x7bfileExtension\x7d"
  | .writeForm =>
    "Write syntax: write [-add] [-ign] [-create] [-permissions <mode>] \x7bfilePath\x7d " ++
      "\x7bfileName\x7d.\x7bfileExtension\x7d \x7bfileContents\x7d"
  | .permissionsForm => "Permissions syntax: -permissions <mode> (e.g., -permissions 755)"

/-- Failures of well-formed statements. `detail` is the text of the failure underneath. -/
inductive Runtime where
  | evaluating (detail : String)
  | invalidExpression (text : String)
  | calling (detail : String)
  | notCallable (text : String)
  | noAttribute (name : String)
  | undefined (name : String)
  | unsupportedOperation (label : String)
  | unsupportedComparison (label : String)
  | unsupportedForm (label : String)
  | arrayElement (element detail : String)
  | variableNotFound (name : String)
  | indexType (type : String)
  | notAnArray (type : String)
  | indexBounds (index : String) (last : Int)
  | accessingIndex (detail : String)
  | notAnArrayVariable (name : String)
  | assigningIndex (detail : String)
  | evalType (type : String)
  | evalFailed (detail : String)
  | gotoRange (target : Nat) (lines : Nat)
  | gotoLimit (jumps : Nat)
  | guiCommand (command detail : String)
  | evaluatingText (detail : String)
  | widgetNotFound (id available : String)
  | settingText (detail : String)
  | readingWidget (id detail : String)
  | ifCondition (detail : String)
  | moduleNotFound (file : String)
  | fileNotFound (file : String)
  | executing (file detail : String)
  | callForm (name : String)
  | functionNotFound (name available : String)
  | arity (name : String) (expected given : Nat)
  | argument (position : Nat) (text detail : String)
  | cannotEvaluate (text detail : String)
  | assigning (detail : String)
  | fileSize (file detail : String)
  | readDenied (file : String)
  | reading (file detail : String)
  | writeDenied (file : String)
  | writing (file detail : String)
  | permissionsFormat (mode : String)
  | settingPermissions (detail : String)
  | loopLimit (iterations : Nat)
  | loopFailed (detail : String)
  | loadingImage (path detail : String)
  | noWindow
  deriving DecidableEq

def Runtime.message : Runtime → String
  | .evaluating d => "Error evaluating expression: " ++ d
  | .invalidExpression t => "Invalid expression: " ++ t
  | .calling d => "Error calling function: " ++ d
  | .notCallable t => "Not callable: " ++ t
  | .noAttribute n => "Attribute not found: " ++ n
  | .undefined n => "Undefined variable: " ++ n
  | .unsupportedOperation l => "Unsupported operation: " ++ l
  | .unsupportedComparison l => "Unsupported comparison: " ++ l
  | .unsupportedForm l => "Unsupported AST node: " ++ l
  | .arrayElement e d => "Error evaluating array element '" ++ e ++ "': " ++ d
  | .variableNotFound n => "Variable '" ++ n ++ "' not found"
  | .indexType t => "Array index must be integer, got " ++ t
  | .notAnArray t => "Cannot index non-array value of type " ++ t
  | .indexBounds i l => "Array index " ++ i ++ " out of bounds (0-" ++ toString l ++ ")"
  | .accessingIndex d => "Error accessing array index: " ++ d
  | .notAnArrayVariable n => "Cannot assign to index of non-array variable '" ++ n ++ "'"
  | .assigningIndex d => "Error in array assignment: " ++ d
  | .evalType t => "Eval requires string argument, got " ++ t
  | .evalFailed d => "Error in eval: " ++ d
  | .gotoRange t n => "Goto target line " ++ toString t ++ " is out of range (1-" ++ toString n ++ ")"
  | .gotoLimit n => "Maximum goto jumps exceeded (" ++ toString n ++ "). Possible infinite loop."
  | .guiCommand c d => "GUI error in " ++ c ++ ": " ++ d
  | .evaluatingText d => "Error evaluating text: " ++ d
  | .widgetNotFound i a => "Widget not found: " ++ i ++ ". Available widgets: " ++ a
  | .settingText d => "Error setting widget text: " ++ d
  | .readingWidget i d => "Error reading from widget " ++ i ++ ": " ++ d
  | .ifCondition d => "Error in if condition: " ++ d
  | .moduleNotFound f => "Module file not found: " ++ f
  | .fileNotFound f => "File not found: " ++ f
  | .executing f d => "Error executing file " ++ f ++ ": " ++ d
  | .callForm n => "Function call must end with '_', got: " ++ n
  | .functionNotFound n a => "Function '" ++ n ++ "' not found. Available: " ++ a
  | .arity n e g => "Function '" ++ n ++ "' expects " ++ toString e ++ " args, got " ++ toString g
  | .argument p t d => "Error evaluating argument " ++ toString p ++ " (" ++ t ++ "): " ++ d
  | .cannotEvaluate t d => "Cannot evaluate argument '" ++ t ++ "': " ++ d
  | .assigning d => "Error in assignment: " ++ d
  | .fileSize f d => "Error getting file size " ++ f ++ ": " ++ d
  | .readDenied f => "Permission denied reading file: " ++ f
  | .reading f d => "Error reading file " ++ f ++ ": " ++ d
  | .writeDenied f => "Permission denied writing to file: " ++ f
  | .writing f d => "Error writing file " ++ f ++ ": " ++ d
  | .permissionsFormat m => "Invalid permissions format: " ++ m
  | .settingPermissions d => "Error setting permissions: " ++ d
  | .loopLimit n => "Loop exceeded maximum iterations (" ++ toString n ++ ")"
  | .loopFailed d => "Error in while loop: " ++ d
  | .loadingImage p d => "Error loading image '" ++ p ++ "': " ++ d
  | .noWindow => "No window available. Create a window first."

inductive Fault where
  | primitive (kind : Kind) (text : String)
  | malformed (cause : Malformed)
  | runtime (cause : Runtime)
  | package (text : String)
  | jump (line : Nat)
  deriving DecidableEq

def Fault.message : Fault → String
  | .primitive _ t => t
  | .malformed c => c.message
  | .runtime c => c.message
  | .package t => t
  | .jump n => "Goto line " ++ toString n

def Fault.isLanguage : Fault → Bool
  | .malformed _ | .runtime _ => true
  | _ => false

def Fault.isValue : Fault → Bool
  | .primitive k _ => k.isValue
  | _ => false

def Fault.isKind (k : Kind) : Fault → Bool
  | .primitive k' _ => k = k'
  | _ => false

def Fault.isOs : Fault → Bool
  | .primitive k _ => k.isOs
  | _ => false

namespace Fault

def quote (s : String) : String := String.ofList (Text.quoted s.toList)

def type (text : String) : Fault := .primitive .type text

def value (text : String) : Fault := .primitive .value text

def digitLimit : Fault :=
  value ("Exceeds the limit (4300 digits) for integer string conversion; " ++
    "use sys.set_int_max_str_digits() to increase the limit")

def digitLimitReading (digits : Nat) : Fault :=
  value ("Exceeds the limit (4300 digits) for integer string conversion: value has " ++ toString digits ++
    " digits; use sys.set_int_max_str_digits() to increase the limit")

/-- `quoted` is cut after 200 characters. -/
def invalidInt (base : Nat) (quoted : String) : Fault :=
  value ("invalid literal for int() with base " ++ toString base ++ ": " ++
    String.ofList (quoted.toList.take 200))

def invalidFloat (quoted : String) : Fault := value ("could not convert string to float: " ++ quoted)

def intTooLarge : Fault := .primitive .overflow "int too large to convert to float"

def tooDeep (doing : String) : Fault :=
  .primitive .recursion ("maximum recursion depth exceeded" ++ doing)

def notInteger (type : String) : Fault :=
  .primitive .type ("'" ++ type ++ "' object cannot be interpreted as an integer")

def notIterable (type : String) : Fault := .primitive .type ("'" ++ type ++ "' object is not iterable")

def endOfInput : Fault := .primitive .endOfInput "EOF when reading a line"

end Fault

end LineScript
