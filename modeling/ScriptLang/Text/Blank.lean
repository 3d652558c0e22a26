/-! # White space

Two sets are in use: the wide one decides whether a line is blank, and the one around numbers
leaves out the four information separators U+001C to U+001F.
-/

namespace ScriptLang.Blank

def isWide (c : Char) : Bool :=
  [0x85, 0xA0, 0x1680, 0x2028, 0x2029, 0x202F, 0x205F, 0x3000].contains c.toNat ||
    (0x2000 ≤ c.toNat && c.toNat ≤ 0x200A)

/-- White space that may surround a number. -/
def aroundNumber (c : Char) : Bool :=
  c == ' ' || (0x09 ≤ c.toNat && c.toNat ≤ 0x0D) || isWide c

/-- White space, the information separators included. -/
def isBlank (c : Char) : Bool :=
  aroundNumber c || (0x1C ≤ c.toNat && c.toNat ≤ 0x1F)

def trim (blank : Char → Bool) (text : List Char) : List Char :=
  ((text.dropWhile blank).reverse.dropWhile blank).reverse

end ScriptLang.Blank
