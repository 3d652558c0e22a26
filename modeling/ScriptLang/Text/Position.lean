/-! # Positions in a text

Lines and columns count from one, lines end at a line feed only, columns count
characters and offsets count the bytes of the UTF-8 form.
-/

namespace ScriptLang

/-- A place in a text, seen as a line, a column and a byte offset. -/
structure Position where
  line : Nat
  column : Nat
  offset : Nat
  deriving DecidableEq, Repr

namespace Position

def byteLength (text : List Char) : Nat := text.foldr (fun c size => c.utf8Size + size) 0

/-- The position reached after reading a text from its start. -/
def after (text : List Char) : Position where
  line := text.count '\n' + 1
  column := (text.reverse.takeWhile (· != '\n')).length + 1
  offset := byteLength text

def ofIndex (source : List Char) (index : Nat) : Position := after (source.take index)

@[simp] theorem byteLength_nil : byteLength [] = 0 := rfl

@[simp] theorem byteLength_cons (c : Char) (text : List Char) :
    byteLength (c :: text) = c.utf8Size + byteLength text := rfl

@[simp] theorem after_nil : after [] = ⟨1, 1, 0⟩ := rfl

end Position

end ScriptLang
