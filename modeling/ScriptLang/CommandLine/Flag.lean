import ScriptLang.Text.Quoted

/-! # Flags of the command line

The flags with their names, and the texts that explain them.
-/

namespace ScriptLang.CommandLine

inductive Flag where
  | help
  | verbose
  | debugFile
  | emitTree
  | runTree
  deriving DecidableEq, Repr

namespace Flag

def all : List Flag := [help, verbose, debugFile, emitTree, runTree]

def names : Flag → List String
  | help => ["-h", "--help"]
  | verbose => ["-v"]
  | debugFile => ["--debug-file"]
  | emitTree => ["--emit-ast"]
  | runTree => ["--ast"]

def label (flag : Flag) : String := "/".intercalate flag.names

def takesValue : Flag → Bool
  | help | verbose => false
  | debugFile | emitTree | runTree => true

def table : List (String × Flag) := all.flatMap fun flag => flag.names.map fun name => (name, flag)

def ofName? (name : String) : Option Flag := table.lookup name

end Flag

/-- Why arguments are refused. -/
inductive UsageError where
  | ambiguous (argument : String) (candidates : List String)
  | valueMissing (flag : Flag)
  | valueUnused (flag : Flag) (value : String)
  | conflict (later earlier : Flag)
  | unrecognized (arguments : List String)
  deriving DecidableEq, Repr

namespace UsageError

def message : UsageError → String
  | ambiguous argument candidates =>
    "ambiguous option: " ++ argument ++ " could match " ++ ", ".intercalate candidates
  | valueMissing flag => "argument " ++ flag.label ++ ": expected one argument"
  | valueUnused flag value =>
    "argument " ++ flag.label ++ ": ignored explicit argument " ++ Quoted.quote value
  | conflict later earlier =>
    "argument " ++ later.label ++ ": not allowed with argument " ++ earlier.label
  | unrecognized arguments => "unrecognized arguments: " ++ " ".intercalate arguments

end UsageError

def usage : String :=
  "usage: scripty [-h] [-v] [--debug-file DEBUG_FILE]\n" ++
  "               [--emit-ast SS_FILE | --ast AST_JSON_FILE]\n" ++
  "               [program]\n"

def help : String :=
  usage ++
  "\nScriptyScript interpreter\n" ++
  "\npositional arguments:\n" ++
  "  program               ScriptyScript program file (.ss) to execute\n" ++
  "\noptions:\n" ++
  "  -h, --help            show this help message and exit\n" ++
  "  -v                    increase debug verbosity (can be repeated)\n" ++
  "  --debug-file DEBUG_FILE\n" ++
  "                        file receiving debug output when -v is given\n" ++
  "  --emit-ast SS_FILE    emit AST JSON for the given .ss file\n" ++
  "  --ast AST_JSON_FILE   execute AST from a JSON file\n"

end ScriptLang.CommandLine
