import ScriptLang.CommandLine.Flag
import ScriptLang.Text.DecimalDigit

/-! # Arguments of the command line

Every argument is first sorted by its looks alone. The flags then act from left to right, and the
first plain argument is the program.
-/

namespace ScriptLang.CommandLine

/-- What an argument looks like. -/
inductive Word where
  | plain (text : String)
  | separator
  | flag (flag : Flag) (name : List Char) (value : Option (List Char))
  | unknown (text : String)
  deriving DecidableEq, Repr

namespace Word

def splitValue (argument : List Char) : List Char × Option (List Char) :=
  let name := argument.takeWhile (· != '=')
  match argument.drop name.length with
  | [] => (name, none)
  | _ :: value => (name, some value)

/-- Digits of any script, perhaps with a point before the last of them. -/
def isDecimal (text : List Char) : Bool :=
  let isDigit (c : Char) := (DecimalDigit.value? c).isSome
  match text.dropWhile isDigit with
  | [] => !text.isEmpty
  | '.' :: rest => !rest.isEmpty && rest.all isDigit
  | _ => false

/-- A negative number; a line feed may follow it. -/
def isNegativeNumber : List Char → Bool
  | '-' :: rest => isDecimal rest || (rest.getLast? == some '\n' && isDecimal rest.dropLast)
  | _ => false

/-- The flags that an argument may abbreviate, with their full names. A long name may be cut short,
and a short one may be followed by more. -/
def candidates (argument : List Char) : List (String × Word) :=
  match argument with
  | '-' :: '-' :: _ =>
    let (start, value) := splitValue argument
    (Flag.table.filter fun (name, _) => start.isPrefixOf name.toList).map
      fun (name, known) => (name, .flag known name.toList value)
  | a :: b :: rest =>
    (Flag.table.filter fun (name, _) => name.toList == [a, b]).map
      fun (name, known) => (name, .flag known [a, b] (some rest))
  | _ => []

def other (argument : String) : Word :=
  if isNegativeNumber argument.toList || argument.toList.contains ' ' then .plain argument
  else .unknown argument

def ofArgument (argument : String) : Except UsageError Word :=
  let chars := argument.toList
  let (name, value) := splitValue chars
  if chars.head? != some '-' then .ok (.plain argument)
  else
    match Flag.ofName? argument, Flag.ofName? (String.ofList name), candidates chars with
    | some known, _, _ => .ok (.flag known chars none)
    | none, some known, _ => .ok (.flag known name value)
    | none, none, found =>
      if chars.length == 1 then .ok (.plain argument)
      else
        match found with
        | [] => .ok (other argument)
        | [(_, word)] => .ok word
        | several => .error (.ambiguous argument (several.map Prod.fst))

/-- Sorts all arguments. Those after the first `--` are plain. -/
def ofArguments : List String → Except UsageError (List Word)
  | [] => .ok []
  | argument :: rest =>
    if argument == "--" then .ok (.separator :: rest.map .plain)
    else
      match ofArgument argument with
      | .error error => .error error
      | .ok word => (ofArguments rest).map (word :: ·)

end Word

/-- What the flags ask for. Values that are themselves `--` are taken away. -/
structure Options where
  verbosity : Nat
  debugFile : Option String
  emitTree : Option (Option String)
  runTree : Option (Option String)
  program : Option (Option String)
  rest : List String
  deriving DecidableEq, Repr

inductive Halt where
  | help
  | refused (error : UsageError)
  deriving DecidableEq, Repr

namespace Options

def initial : Options := ⟨0, some "debug.txt", none, none, none, []⟩

/-- What a flag does. The two flags about trees exclude each other. -/
def act (options : Options) (flag : Flag) (value : Option String) : Except Halt Options :=
  match flag with
  | .help => .error .help
  | .verbose => .ok { options with verbosity := options.verbosity + 1 }
  | .debugFile => .ok { options with debugFile := value }
  | .emitTree =>
    if options.runTree.isSome then .error (.refused (.conflict .emitTree .runTree))
    else .ok { options with emitTree := some value }
  | .runTree =>
    if options.emitTree.isSome then .error (.refused (.conflict .runTree .emitTree))
    else .ok { options with runTree := some value }

/-- The flags that the letters after a short flag stand for. -/
def cluster (flag : Flag) : List Char → Except UsageError (List Flag)
  | [] => .ok [flag]
  | c :: rest =>
    match Flag.ofName? (String.ofList ['-', c]) with
    | some next => (cluster next rest).map (flag :: ·)
    | none => .error (.valueUnused flag (String.ofList (c :: rest)))

def actAttached (options : Options) (flag : Flag) (name value : List Char) : Except Halt Options :=
  if name.length != 2 || value.isEmpty then
    .error (.refused (.valueUnused flag (String.ofList value)))
  else
    match cluster flag value with
    | .error error => .error (.refused error)
    | .ok flags => flags.foldlM (fun options flag => options.act flag none) options

def valueOf (text : String) : Option String := if text == "--" then none else some text

def leave (options : Options) (argument : String) : Options :=
  { options with rest := options.rest ++ [argument] }

def setProgram (options : Options) (program : Option String) : Options :=
  { options with program := some program }

/-- Reads the arguments from left to right. The separator goes with the program at its side. -/
def read : Options → List Word → Except Halt Options
  | options, [] => .ok options
  | options, .unknown text :: words => read (options.leave text) words
  | options, .flag flag name (some value) :: words => do
    let options ←
      if flag.takesValue then options.act flag (valueOf (String.ofList value))
      else options.actAttached flag name value
    read options words
  | options, .flag flag _ none :: words =>
    if flag.takesValue then
      match words with
      | .plain text :: words => do read (← options.act flag (some text)) words
      | _ => .error (.refused (.valueMissing flag))
    else do read (← options.act flag none) words
  | options, .plain text :: words =>
    if options.program.isSome then read (options.leave text) words
    else
      match words with
      | .separator :: words => read (options.setProgram (some text)) words
      | words => read (options.setProgram (some text)) words
  | options, .separator :: words =>
    if options.program.isSome then read (options.leave "--") words
    else
      match words with
      | .plain text :: words => read (options.setProgram (some text)) words
      | words => read (options.setProgram none) words

end Options

inductive Task where
  | emitTree (path : String)
  | runTree (path : String)
  | interact
  | runProgram (path : String)
  deriving DecidableEq, Repr

structure Request where
  task : Task
  verbosity : Nat
  debugFile : Option String
  deriving DecidableEq, Repr

namespace Request

def path? : Option (Option String) → Option String
  | some (some path) => if path.isEmpty then none else some path
  | _ => none

/-- Trees come before programs. -/
def ofOptions (options : Options) : Request :=
  let task : Task :=
    match path? options.emitTree, path? options.runTree, path? options.program with
    | some path, _, _ => .emitTree path
    | none, some path, _ => .runTree path
    | none, none, some path => .runProgram path
    | none, none, none => .interact
  ⟨task, options.verbosity, options.debugFile⟩

def ofArguments (arguments : List String) : Except Halt Request :=
  match Word.ofArguments arguments with
  | .error error => .error (.refused error)
  | .ok words =>
    match Options.read .initial words with
    | .error halt => .error halt
    | .ok options =>
      if options.rest.isEmpty then .ok (ofOptions options)
      else .error (.refused (.unrecognized options.rest))

end Request

end ScriptLang.CommandLine
