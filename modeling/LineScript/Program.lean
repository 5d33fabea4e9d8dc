import LineScript.Tool.Menu

/-!
# Programs

What can be started from outside.
-/

namespace LineScript

inductive Program where
  | interpreter
  | updater
  | tools
  /-- A second way to start the interpreter, which cannot find its parts. -/
  | bare
  deriving DecidableEq

def Program.run (args : List String) : Program → Act Unit
  | .interpreter => Console.run args
  | .updater => Update.run
  | .tools => Tool.untilInterrupted
  | .bare => Act.fail (.primitive .importRefused "attempted relative import beyond top-level package")

end LineScript
