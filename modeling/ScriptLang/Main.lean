import ScriptLang.CommandLine.Run

/-! # The command-line program

Files and standard input are read before a call, and what the call has changed is written after it.
-/

namespace ScriptLang.CommandLine

def Task.source? : Task → Option String
  | .emitTree path | .runTree path | .runProgram path => some (Path.normal path)
  | .interact => none

def Task.readsInput : Task → Bool
  | .emitTree _ => false
  | .runTree _ | .runProgram _ | .interact => true

/-- The exit code of a call. What escapes from it counts as an error. -/
def Ending.code : Ending → Int
  | .returned => 0
  | .exit code => code
  | _ => 1

def Ending.complaint : Ending → String
  | .returned | .exit _ => ""
  | .unopened _ => "the file cannot be opened\n"
  | .unreadTree _ => "the file is not JSON\n"
  | .malformedTree _ => "the file holds no syntax tree\n"
  | .failed _ => "the program cannot be run\n"

def filesAt (path : String) : IO Files := do
  try
    return [(path, ← IO.FS.readFile path)]
  catch _ =>
    return []

/-- A call on the files and streams of the machine it runs on. -/
def callWith (arguments : List String) : IO UInt32 := do
  let task := (Request.ofArguments arguments).toOption.map Request.task
  let files ← match task.bind Task.source? with
    | some path => filesAt path
    | none => pure []
  let input ← if task.any Task.readsInput then (← IO.getStdin).readToEnd else pure ""
  let report := run arguments files input
  for (name, text) in report.files do
    if files.lookup name != some text then IO.FS.writeFile name text
  (← IO.getStdout).putStr report.out
  (← IO.getStderr).putStr (report.err ++ report.ending.complaint)
  return UInt32.ofNat (report.ending.code % 256).toNat

end ScriptLang.CommandLine

def main (arguments : List String) : IO UInt32 := ScriptLang.CommandLine.callWith arguments
