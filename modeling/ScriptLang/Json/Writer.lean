import ScriptLang.Json.Basic

/-! # Writing JSON

Values are laid out over several lines, two blanks per level. Only quotes, backslashes and
control characters are escaped.
-/

namespace ScriptLang.Json

def escape (c : Char) : List Char :=
  if c == '"' || c == '\\' then ['\\', c]
  else if c == '\n' then ['\\', 'n']
  else if c == '\r' then ['\\', 'r']
  else if c == '\t' then ['\\', 't']
  else if c.toNat = 0x08 then ['\\', 'b']
  else if c.toNat = 0x0C then ['\\', 'f']
  else if c.toNat < 0x20 then '\\' :: 'u' :: Quoted.hex 4 c.toNat
  else [c]

def quoted (text : String) : List Char := '"' :: text.toList.flatMap escape ++ ['"']

def newLine (level : Nat) : List Char := '\n' :: List.replicate (2 * level) ' '

mutual

/-- The text of a value at a level. -/
def write (level : Nat) : Json → List Char
  | null => "null".toList
  | bool true => "true".toList
  | bool false => "false".toList
  | int n => (Integer.text n).toList
  | float x => x.dataText.toList
  | str s => quoted s
  | arr [] => ['[', ']']
  | arr (item :: rest) =>
    '[' :: newLine (level + 1) ++ write (level + 1) item ++ writeItems (level + 1) rest ++
      newLine level ++ [']']
  | obj [] => ['\x7b', '\x7d']
  | obj ((key, value) :: rest) =>
    '\x7b' :: newLine (level + 1) ++ quoted key ++ [':', ' '] ++ write (level + 1) value ++
      writeFields (level + 1) rest ++ newLine level ++ ['\x7d']

/-- Further items of an array, each after a comma. -/
def writeItems (level : Nat) : List Json → List Char
  | [] => []
  | item :: rest => ',' :: newLine level ++ write level item ++ writeItems level rest

def writeFields (level : Nat) : List (String × Json) → List Char
  | [] => []
  | (key, value) :: rest =>
    ',' :: newLine level ++ quoted key ++ [':', ' '] ++ write level value ++ writeFields level rest

end

def render (value : Json) : String := String.ofList (value.write 0)

end ScriptLang.Json
