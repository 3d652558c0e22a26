import ScriptLang.CommandLine.Arguments
import ScriptLang.CommandLine.Path
import ScriptLang.Json.Reader
import ScriptLang.Json.Writer
import ScriptLang.Node.Place
import ScriptLang.Node.ToJson
import ScriptLang.Repl

/-! # Calls of the program

A call reads and writes the files of one directory, which are given and returned as data. A
program may be run from its text or from the tree that was emitted for it.
-/

namespace ScriptLang.CommandLine

/-- Files by their paths, seen from one directory that has no others inside. -/
abbrev Files := List (String × String)

namespace Files

def nullDevice : String := "/dev/null"

def get? (files : Files) (path : String) : Option String :=
  if path == nullDevice then some "" else files.lookup path

def put (files : Files) (path text : String) : Files :=
  if path == nullDevice then files
  else if (files.lookup path).isSome then
    files.map fun file => if file.1 == path then (path, text) else file
  else files ++ [(path, text)]

end Files

inductive FileError where
  | directory
  | missing
  | insideFile
  | tooLong
  | unusable
  | unnamed
  deriving DecidableEq, Repr

/-- How a call ends: it returns, it asks for an exit code, or something escapes from it. -/
inductive Ending where
  | returned
  | exit (code : Int)
  | unopened (error : FileError)
  | unreadTree (error : Json.ReadError)
  | malformedTree (error : TreeError)
  | failed (failure : Failure)

structure Report where
  ending : Ending
  out : String
  err : String
  files : Files

namespace Report

def early (ending : Ending) (err : String) (files : Files) : Report := ⟨ending, "", err, files⟩

end Report

/-- Where a task runs: its files and its input, how much of it is logged, and the log's file. -/
structure Workplace where
  files : Files
  input : String
  verbosity : Nat
  logFile : Option String

namespace Workplace

def logText (log : Array LogEntry) : String :=
  String.join (log.toList.map fun entry => "scripty.interpreter DEBUG " ++ entry.message ++ "\n")

def finishedLine (path : String) : String :=
  "scripty.__main__ DEBUG " ++ Path.normal path ++ " finished\n"

def saveLog (workplace : Workplace) (text : String) : Files :=
  match workplace.logFile with
  | some path => workplace.files.put path text
  | none => workplace.files

/-- Reads a file, or ends the call. -/
def readFile (workplace : Workplace) (path : String) : Except Report String :=
  let name := Path.normal path
  if Path.isUnusable name then notFound name
  else if Path.isDirectory path then .error (.early (.unopened .directory) "" workplace.files)
  else if Path.isTooLong name then .error (.early (.unopened .tooLong) "" workplace.files)
  else
    match workplace.files.get? name with
    | some text => .ok (String.ofList (universalLines text.toList))
    | none => notFound name
where
  notFound (name : String) : Except Report String :=
    .error (.early (.exit 1) ("Error: file " ++ name ++ " not found\n") workplace.files)

def parseFile (workplace : Workplace) (path : String) : Except Report Node :=
  match workplace.readFile path with
  | .error report => .error report
  | .ok source =>
    match parse source with
    | .ok program => .ok program
    | .error error =>
      .error (.early (.exit 1) ("Parse error: " ++ error.report source ++ "\n") workplace.files)

def endingOf : Outcome Value → Ending × String
  | .done _ | .unparsed _ => (.returned, "")
  | .failed (.error error) => (.exit 1, "Runtime error: " ++ error.report ++ "\n")
  | .failed (.exit code) => (.exit code, "")
  | .failed failure => (.failed failure, "")

/-- Runs a tree on a fresh machine. A run that returns logs `last` at its end. -/
def runRoot (workplace : Workplace) (last : String) (root : Node) : Report :=
  let (outcome, machine) :=
    Session.runTree workplace.verbosity Session.globalFrame root (.initial workplace.input)
  let (ending, err) := endingOf outcome
  let last := match outcome with
    | .done _ => last
    | _ => ""
  ⟨ending, machine.out, err, workplace.saveLog (logText machine.log ++ last)⟩

def treePath (path : String) : String := Path.normal path ++ ".ast.json"

/-- Writes the tree of a program file to a file beside it. -/
def emitTree (workplace : Workplace) (path : String) : Report :=
  match workplace.parseFile path with
  | .error report => report
  | .ok program =>
    let target := treePath path
    if Path.isTooLong target then .early (.unopened .tooLong) "" workplace.files
    else
      ⟨.returned, target ++ "\n", "", workplace.files.put target (Json.render program.toJson)⟩

def runTree (workplace : Workplace) (path : String) : Report :=
  match workplace.readFile path with
  | .error report => report
  | .ok text =>
    match Json.read text with
    | .error error => .early (.unreadTree error) "" workplace.files
    | .ok data =>
      match Node.load data with
      | .error error => .early (.malformedTree error) "" workplace.files
      | .ok root => workplace.runRoot "" root

def runProgram (workplace : Workplace) (path : String) : Report :=
  match workplace.parseFile path with
  | .error report => report
  | .ok program => workplace.runRoot (finishedLine path) program

def interact (workplace : Workplace) : Report :=
  let (ending, console) := Repl.run workplace.verbosity ⟨.initial workplace.input, ""⟩
  let ending : Ending := match ending with
    | .endOfInput => .exit 0
    | .failed (.exit code) => .exit code
    | .failed failure => .failed failure
  ⟨ending, console.machine.out, console.err, workplace.saveLog (logText console.machine.log)⟩

def perform (workplace : Workplace) : Task → Report
  | .emitTree path => workplace.emitTree path
  | .runTree path => workplace.runTree path
  | .interact => workplace.interact
  | .runProgram path => workplace.runProgram path

end Workplace

namespace Request

/-- The file that a debug log is written to. Outside the directory only files of the directory
around it, of the root and the null device can be written. -/
def logFile (files : Files) (path : String) : Except FileError String :=
  let steps := Path.resolve path
  let target := Path.root path.toList ++ ['/'].intercalate steps
  let name := String.ofList target
  if Path.isUnusable name then .error .unusable
  else if Path.isTooLong name then .error .tooLong
  else
    match steps.dropWhile (· == ['.', '.']) with
    | [] => .error .directory
    | [_] => .ok name
    | first :: _ =>
      if name == Files.nullDevice then .ok name
      else if (files.lookup (String.ofList first)).isSome && steps.head? == some first &&
          !Path.isAbsolute path then .error .insideFile
      else .error .missing

def logFile? (request : Request) (files : Files) : Except FileError (Option String) :=
  if request.verbosity = 0 then .ok none
  else
    match request.debugFile with
    | none => .error .unnamed
    | some path => (logFile files path).map some

/-- Does what is asked. The debug file is there, and empty, before anything is read. -/
def perform (request : Request) (files : Files) (input : String) : Report :=
  match request.logFile? files with
  | .error error => .early (.unopened error) "" files
  | .ok logFile =>
    let before : Workplace := ⟨files, input, request.verbosity, logFile⟩
    { before with files := before.saveLog "" }.perform request.task

end Request

/-- A call with the given arguments, files and standard input. -/
def run (arguments : List String) (files : Files) (input : String) : Report :=
  match Request.ofArguments arguments with
  | .error .help => ⟨.exit 0, help, "", files⟩
  | .error (.refused error) =>
    .early (.exit 2) (usage ++ "scripty: error: " ++ error.message ++ "\n") files
  | .ok request => request.perform files input

end ScriptLang.CommandLine
