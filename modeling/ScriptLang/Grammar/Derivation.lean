import ScriptLang.Grammar.Lexeme
import ScriptLang.Grammar.Table

/-! # Derivations of source texts

The machine keeps a stack of states with the trees they stand for. Tokens are taken one at a time
and only among those that have an action in the state on top, so where a token ends may depend on
what came before it.
-/

namespace ScriptLang

/-- Why a text has no derivation: what was found, where, and what could have stood there. -/
inductive Refusal where
  | token (token : Token) (expected : List Terminal)
  | character (char : Char) (index : Nat) (expected : List Terminal)
  | endOfInput (index : Nat) (expected : List Terminal)
  deriving DecidableEq, Repr

namespace Derivation

/-- The states and trees read so far, the last one first. -/
abbrev Stack := List (Nat × Tree)

/-- The state on top; an empty stack is in the initial state. -/
def state : Stack → Nat
  | [] => 0
  | (state, _) :: _ => state

def reduce (production : Production) (stack : Stack) : Option Stack :=
  let size := production.rhs.length
  let below := stack.drop size
  (Table.goto (state below) production.lhs).map fun next =>
    (next, .node production ((stack.take size).reverse.map Prod.snd)) :: below

inductive Fed where
  | shifted (stack : Stack)
  | accepted (tree : Tree)
  | refused (state : Nat)

def accept : Stack → Fed
  | (_, tree) :: _ => .accepted tree
  | [] => .refused 0

/-- Reduces until the token can be shifted or is refused, in at most `fuel` steps. -/
def feed : Nat → Stack → Token → Fed
  | 0, stack, _ => .refused (state stack)
  | fuel + 1, stack, token =>
    match Table.action (state stack) token.terminal with
    | none => .refused (state stack)
    | some (.shift next) => .shifted ((next, .leaf token) :: stack)
    | some .accept => accept stack
    | some (.reduce production) =>
      match reduce production stack with
      | some reduced => feed fuel reduced token
      | none => .refused (state stack)

/-- Enough steps for one token: a production either shortens the stack or climbs one of the few
levels of the grammar. -/
def feedFuel (stack : Stack) : Nat := 16 * (stack.length + 2)

/-- Reads a text from a given index on, the first `skip` characters of which belong to the lexeme
before it. -/
def scan : List Char → Nat → Nat → Stack → Except Refusal Tree
  | [], _, index, stack =>
    match feed (feedFuel stack) stack ⟨.endOfInput, "", index⟩ with
    | .accepted tree => .ok tree
    | .shifted shifted => .error (.endOfInput index (Table.expected (state shifted)))
    | .refused refusing => .error (.endOfInput index (Table.expected refusing))
  | _ :: rest, skip + 1, index, stack => scan rest skip (index + 1) stack
  | c :: rest, 0, index, stack =>
    match Lexeme.first (Table.accepts (state stack)) (c :: rest) with
    | some (.token terminal, length) =>
      let token : Token := ⟨terminal, String.ofList ((c :: rest).take length), index⟩
      match feed (feedFuel stack) stack token with
      | .shifted shifted => scan rest (length - 1) (index + 1) shifted
      | .accepted _ => .error (.token token [])
      | .refused refusing => .error (.token token (Table.expected refusing))
    | some (_, length) => scan rest (length - 1) (index + 1) stack
    | none =>
      let expected := Table.expected (state stack)
      match Lexeme.first (fun _ => true) (c :: rest) with
      | some (.token terminal, length) =>
        .error (.token ⟨terminal, String.ofList ((c :: rest).take length), index⟩ expected)
      | _ => .error (.character c index expected)

def ofSource (source : List Char) : Except Refusal Tree := scan source 0 0 []

end Derivation

end ScriptLang
