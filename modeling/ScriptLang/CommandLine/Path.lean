/-! # Paths

Paths are compared and shown in a normal form: empty and `.` components are left out, and `..` is
kept, since only the file system knows where it leads.
-/

namespace ScriptLang.Path

def components : List Char → List (List Char)
  | [] => [[]]
  | '/' :: rest => [] :: components rest
  | c :: rest =>
    match components rest with
    | [] => [[c]]
    | first :: others => (c :: first) :: others

/-- The components that lead somewhere. -/
def steps (path : List Char) : List (List Char) :=
  (components path).filter fun part => part != [] && part != ['.']

/-- The slashes in front of an absolute path: two stay two, any other number is one. -/
def root (path : List Char) : List Char :=
  match (path.takeWhile (· == '/')).length with
  | 0 => []
  | 2 => ['/', '/']
  | _ => ['/']

def normal (path : String) : String :=
  let text := root path.toList ++ ['/'].intercalate (steps path.toList)
  if text.isEmpty then "." else String.ofList text

/-- Whether a path leads to the working directory or to one around it. -/
def isDirectory (path : String) : Bool := (steps path.toList).all (· == ['.', '.'])

def isAbsolute (path : String) : Bool := path.toList.head? == some '/'

/-- The steps that are left when every `..` takes back the step before it. No step leads above the
root. -/
def resolve (path : String) : List (List Char) :=
  ((steps path.toList).foldl climb []).reverse
where
  climb (done : List (List Char)) (part : List Char) : List (List Char) :=
    match done with
    | [] => if isAbsolute path && part == ['.', '.'] then [] else [part]
    | last :: before =>
      if part == ['.', '.'] && last != ['.', '.'] then before else part :: done

def nameLimit : Nat := 255

/-- The number of bytes that no path reaches. -/
def pathLimit : Nat := 4096

/-- Whether a path or the first name on its way is too long to be looked up. What comes after a
name that leads nowhere is not looked at. -/
def isTooLong (path : String) : Bool :=
  pathLimit ≤ path.utf8ByteSize ||
    (((steps path.toList).dropWhile (· == ['.', '.'])).head?.any
      fun name => nameLimit < (String.ofList name).utf8ByteSize)

def isUnusable (path : String) : Bool := path.toList.contains '\x00'

end ScriptLang.Path
