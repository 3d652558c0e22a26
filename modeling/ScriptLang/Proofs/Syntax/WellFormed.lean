import ScriptLang.Proofs.Parsing
import ScriptLang.Proofs.Syntax.Tokens

/-! # Well-formed programs

The shape of programs that were parsed. Names are identifiers, operators are those of the
language, literals have values that can be written and every part stands in its place.
-/

namespace ScriptLang

def binaryOperators : List String :=
  ["and", "or", "==", "!=", "<=", ">=", "<", ">", "+", "-", "*", "/", "%"]

namespace WellFormed

mutual

inductive Expr : Node → Prop where
  | int {value : Int} : Integer.inRange value = true →
      Expr (.literal (.int value) (.str "Integer"))
  | float {value : Binary64} : value ≠ .nan → Expr (.literal (.float value) (.str "Float"))
  | string {value : String} : Expr (.literal (.str value) (.str "String"))
  | bool {value : Bool} : Expr (.literal (.bool value) (.str "Bool"))
  | nil : Expr (.literal .nil (.str "Nil"))
  | ident {name : String} : IsName name.toList → Expr (.ident (.str name))
  | neg {operand : Node} : Expr operand → Expr (.unary (.str "neg") operand)
  | not {operand : Node} : Expr operand → Expr (.unary (.str "not") operand)
  | binary {op : String} {left right : Node} : op ∈ binaryOperators → Expr left → Expr right →
      Expr (.binary (.str op) left right)
  | call {name : String} {args : List Node} : IsName name.toList → (∀ arg ∈ args, Expr arg) →
      Expr (.call (.ident (.str name)) args)
  | function {params : List String} {body : Node} : (∀ name ∈ params, IsName name.toList) →
      Block body → Expr (.funcDef (params.map .str) body)

inductive Block : Node → Prop where
  | mk {statements : List Node} : (∀ statement ∈ statements, Statement statement) →
      Block (.block statements)

/-- A statement, or an assignment in the head of a loop. -/
inductive Assignment : Node → Prop where
  | mk {name : String} {value : Node} : IsName name.toList → Expr value →
      Assignment (.assign (.str name) value)

inductive Clause : Node → Prop where
  | mk {condition body : Node} : Expr condition → Block body → Clause (.elseIf condition body)

inductive Statement : Node → Prop where
  | assign {node : Node} : Assignment node → Statement node
  | return {value : Node} : (value ≠ .null → Expr value) → Statement (.returnStmt value)
  | break : Statement .breakStmt
  | continue : Statement .continueStmt
  | if {condition body otherwise : Node} {clauses : List Node} : Expr condition → Block body →
      (∀ clause ∈ clauses, Clause clause) → (otherwise ≠ .null → Block otherwise) →
      Statement (.ifStmt condition body clauses otherwise)
  | while {condition body : Node} : Expr condition → Block body →
      Statement (.whileStmt condition body)
  | loop {body : Node} : Block body → Statement (.loopStmt body)
  | for {init condition post body : Node} : (init ≠ .null → Assignment init) →
      (condition ≠ .null → Expr condition) → (post ≠ .null → Assignment post) → Block body →
      Statement (.forStmt init condition post body)
  | expr {value : Node} : Expr value → Statement (.exprStmt value)

end

inductive Program : Node → Prop where
  | mk {body : List Node} : (∀ statement ∈ body, Statement statement) → Program (.program body)

theorem checked_wellFormed {text : String} {value : Int} {node : Node}
    (h : Literal.checked text value = .ok node) : Expr node := by
  unfold Literal.checked at h
  split at h
  · rename_i hr
    cases h
    exact .int hr
  · cases h

theorem integer_wellFormed {text : String} {negative : Bool} {base : Nat} {digits : List Char}
    {node : Node} (h : Literal.integer text negative base digits = .ok node) : Expr node := by
  unfold Literal.integer at h
  split at h
  · exact checked_wellFormed h
  · cases h
  · cases h

theorem number_wellFormed {text : String} {node : Node} (hs : IsNumeral text.toList)
    (h : Literal.number text = .ok node) : Expr node := by
  unfold Literal.number at h
  dsimp only at h
  split at h
  · exact integer_wellFormed h
  · exact integer_wellFormed h
  · split at h
    · split at h
      · rename_i value hf
        cases h
        exact .float fun hn => float?_ne_nan hs (hn ▸ hf)
      · cases h
    · exact integer_wellFormed h

theorem isName_of_spelled {token : Token} (h : token.Spelled) (ht : token.terminal = .ident) :
    IsName token.text.toList := by
  rw [Token.Spelled, ht] at h
  exact h

theorem isNumeral_of_spelled {token : Token} (h : token.Spelled) (ht : token.terminal = .number) :
    IsNumeral token.text.toList := by
  rw [Token.Spelled, ht] at h
  exact h

theorem mem_binaryOperators {lhs : Nonterminal} {token : Token} (h : token.Spelled)
    (ht : token.terminal ∈ lhs.operators) : token.text ∈ binaryOperators := by
  have hall : ∀ lhs : Nonterminal, ∀ terminal ∈ lhs.operators,
      ∃ text ∈ binaryOperators, terminal.spelling? = some text := by
    intro lhs
    cases lhs <;> decide
  obtain ⟨text, hm, hs⟩ := hall lhs token.terminal ht
  have he : token.terminal.spelling? = some token.text := by
    unfold Token.Spelled at h
    split at h
    all_goals simp_all [Terminal.spelling?]
  rwa [← Option.some.inj (hs.symm.trans he)]

theorem of_moreNames {tree : Tree} {names : List String} (h : Lowers.MoreNames tree names)
    (hs : tree.Spelled) : ∀ name ∈ names, IsName name.toList := by
  induction h with
  | one ht =>
    simp only [Tree.spelled_node, List.forall_mem_cons, Tree.spelled_leaf] at hs
    simpa using isName_of_spelled hs.2.1 ht
  | more _ ht ih =>
    simp only [Tree.spelled_node, List.forall_mem_cons, Tree.spelled_leaf] at hs
    rw [List.forall_mem_append, List.forall_mem_singleton]
    exact ⟨ih hs.1, isName_of_spelled hs.2.2.1 ht⟩

theorem of_names {trees : List Tree} {names : List String} (h : Lowers.Names trees names)
    (hs : ∀ tree ∈ trees, tree.Spelled) : ∀ name ∈ names, IsName name.toList := by
  cases h with
  | none => simp
  | one ht =>
    simp only [Tree.spelled_node, List.forall_mem_cons, Tree.spelled_leaf] at hs
    simpa using isName_of_spelled hs.1.1 ht
  | more ht hm =>
    simp only [Tree.spelled_node, List.forall_mem_cons, Tree.spelled_leaf] at hs
    rw [List.forall_mem_cons]
    exact ⟨isName_of_spelled hs.1.1 ht, of_moreNames hm hs.1.2.1⟩

mutual

theorem of_expr {tree : Tree} {node : Node} (hs : tree.Spelled) : Lowers.Expr tree node → Expr node
  | .single _ he => of_expr (Tree.spelled_node.mp hs _ (by simp)) he
  | .number ht hn => by
    simp only [Tree.spelled_node, List.forall_mem_cons, Tree.spelled_leaf] at hs
    exact number_wellFormed (isNumeral_of_spelled hs.1 ht) hn
  | .string _ _ => .string
  | .true _ => .bool
  | .false _ => .bool
  | .nil _ => .nil
  | .ident ht => by
    simp only [Tree.spelled_node, List.forall_mem_cons, Tree.spelled_leaf] at hs
    exact .ident (isName_of_spelled hs.1 ht)
  | .parens he => of_expr (Tree.spelled_node.mp hs _ (by simp)) he
  | .neg _ he => .neg (of_expr (Tree.spelled_node.mp hs _ (by simp)) he)
  | .not _ he => .not (of_expr (Tree.spelled_node.mp hs _ (by simp)) he)
  | .chain _ he hx =>
    of_extends (Tree.spelled_node.mp hs _ (by simp))
      (of_expr (Tree.spelled_node.mp hs _ (by simp)) he) hx
  | .call ht ha => by
    simp only [Tree.spelled_node, List.forall_mem_append, List.forall_mem_cons,
      Tree.spelled_leaf] at hs
    exact .call (isName_of_spelled hs.1.1.1 ht) (of_args hs.1.2 ha)
  | .function hn hb => by
    simp only [Tree.spelled_node, List.forall_mem_append, List.forall_mem_cons,
      Tree.spelled_leaf] at hs
    exact .function (of_names hn hs.1.2) (of_block hs.2.2.1 hb)

theorem of_extends {tree : Tree} {left node : Node} (hs : tree.Spelled) (hl : Expr left) :
    Lowers.Extends left tree node → Expr node
  | .one ht he => by
    simp only [Tree.spelled_node, List.forall_mem_cons, Tree.spelled_leaf] at hs
    exact .binary (mem_binaryOperators hs.1 ht) hl (of_expr hs.2.1 he)
  | .more ht hx he => by
    simp only [Tree.spelled_node, List.forall_mem_cons, Tree.spelled_leaf] at hs
    exact .binary (mem_binaryOperators hs.2.1 ht) (of_extends hs.1 hl hx) (of_expr hs.2.2.1 he)

theorem of_args {trees : List Tree} {nodes : List Node} (hs : ∀ tree ∈ trees, tree.Spelled) :
    Lowers.Args trees nodes → ∀ node ∈ nodes, Expr node
  | .none => by simp
  | .one he => by
    simp only [Tree.spelled_node, List.forall_mem_cons] at hs
    simpa using of_expr hs.1.1 he
  | .more he hm => by
    simp only [Tree.spelled_node, List.forall_mem_cons] at hs
    rw [List.forall_mem_cons]
    exact ⟨of_expr hs.1.1 he, of_moreArgs hs.1.2.1 hm⟩

theorem of_moreArgs {tree : Tree} {nodes : List Node} (hs : tree.Spelled) :
    Lowers.MoreArgs tree nodes → ∀ node ∈ nodes, Expr node
  | .one he => by
    simp only [Tree.spelled_node, List.forall_mem_cons] at hs
    simpa using of_expr hs.2.1 he
  | .more hm he => by
    simp only [Tree.spelled_node, List.forall_mem_cons] at hs
    rw [List.forall_mem_append, List.forall_mem_singleton]
    exact ⟨of_moreArgs hs.1 hm, of_expr hs.2.2.1 he⟩

theorem of_optExpr {trees : List Tree} {node : Node} (hs : ∀ tree ∈ trees, tree.Spelled) :
    Lowers.OptExpr trees node → node ≠ .null → Expr node
  | .none => fun h => absurd rfl h
  | .some he => fun _ => of_expr (hs _ (by simp)) he

theorem of_assignment {tree : Tree} {node : Node} (hs : tree.Spelled) :
    Lowers.Assignment tree node → Assignment node
  | .mk ht he => by
    simp only [Tree.spelled_node, List.forall_mem_cons, Tree.spelled_leaf] at hs
    exact .mk (isName_of_spelled hs.1 ht) (of_expr hs.2.2.1 he)

theorem of_optAssignment {trees : List Tree} {node : Node} (hs : ∀ tree ∈ trees, tree.Spelled) :
    Lowers.OptAssignment trees node → node ≠ .null → Assignment node
  | .none => fun h => absurd rfl h
  | .some ha => fun _ => of_assignment (hs _ (by simp)) ha

theorem of_block {tree : Tree} {node : Node} (hs : tree.Spelled) :
    Lowers.Block tree node → Block node
  | .mk hb => by
    simp only [Tree.spelled_node, List.forall_mem_append] at hs
    exact .mk (of_body hs.1.2 hb)

theorem of_body {trees : List Tree} {nodes : List Node} (hs : ∀ tree ∈ trees, tree.Spelled) :
    Lowers.Body trees nodes → ∀ node ∈ nodes, Statement node
  | .none => by simp
  | .some hb => of_statements (hs _ (by simp)) hb

theorem of_statements {tree : Tree} {nodes : List Node} (hs : tree.Spelled) :
    Lowers.Statements tree nodes → ∀ node ∈ nodes, Statement node
  | .one h => by
    simp only [Tree.spelled_node, List.forall_mem_cons] at hs
    simpa using of_statement hs.1 h
  | .more hb h => by
    simp only [Tree.spelled_node, List.forall_mem_cons] at hs
    rw [List.forall_mem_append, List.forall_mem_singleton]
    exact ⟨of_statements hs.1 hb, of_statement hs.2.1 h⟩

theorem of_else {trees : List Tree} {node : Node} (hs : ∀ tree ∈ trees, tree.Spelled) :
    Lowers.Else trees node → node ≠ .null → Block node
  | .none => fun h => absurd rfl h
  | .some hb => fun _ => by
    simp only [Tree.spelled_node, List.forall_mem_cons] at hs
    exact of_block hs.1.2.1 hb

theorem of_elseIfs {trees : List Tree} {nodes : List Node} (hs : ∀ tree ∈ trees, tree.Spelled) :
    Lowers.ElseIfs trees nodes → ∀ node ∈ nodes, Clause node
  | .none => by simp
  | .some hc => of_clauses (hs _ (by simp)) hc

theorem of_clause {tree : Tree} {node : Node} (hs : tree.Spelled) :
    Lowers.Clause tree node → Clause node
  | .mk he hb => .mk (of_expr (Tree.spelled_node.mp hs _ (by simp)) he)
    (of_block (Tree.spelled_node.mp hs _ (by simp)) hb)

theorem of_clauses {tree : Tree} {nodes : List Node} (hs : tree.Spelled) :
    Lowers.Clauses tree nodes → ∀ node ∈ nodes, Clause node
  | .one h => by
    simp only [Tree.spelled_node, List.forall_mem_cons] at hs
    simpa using of_clause hs.1 h
  | .more hb h => by
    simp only [Tree.spelled_node, List.forall_mem_cons] at hs
    rw [List.forall_mem_append, List.forall_mem_singleton]
    exact ⟨of_clauses hs.1 hb, of_clause hs.2.1 h⟩

theorem of_statement {tree : Tree} {node : Node} (hs : tree.Spelled) :
    Lowers.Statement tree node → Statement node
  | .single h => of_statement (Tree.spelled_node.mp hs _ (by simp)) h
  | .assign h => .assign (of_assignment (Tree.spelled_node.mp hs _ (by simp)) h)
  | .return h => by
    simp only [Tree.spelled_node, List.forall_mem_append] at hs
    exact .return (of_optExpr hs.1.2 h)
  | .break => .break
  | .continue => .continue
  | .if he hb hc hl => by
    simp only [Tree.spelled_node, List.forall_mem_append, List.forall_mem_cons] at hs
    exact .if (of_expr hs.1.1.2.1 he) (of_block hs.1.1.2.2.1 hb) (of_elseIfs hs.1.2 hc)
      (of_else hs.2 hl)
  | .while he hb => .while (of_expr (Tree.spelled_node.mp hs _ (by simp)) he)
    (of_block (Tree.spelled_node.mp hs _ (by simp)) hb)
  | .loop hb => .loop (of_block (Tree.spelled_node.mp hs _ (by simp)) hb)
  | .for _ _ hi hc hp hb => by
    simp only [Tree.spelled_node, List.forall_mem_append, List.forall_mem_cons] at hs
    obtain ⟨-, -, his, -, hcs, -, hps, -, hbs, -⟩ := hs
    exact .for (of_optAssignment his hi) (of_optExpr hcs hc) (of_optAssignment hps hp)
      (of_block hbs hb)
  | .expr he => .expr (of_expr (Tree.spelled_node.mp hs _ (by simp)) he)

end

theorem of_program {tree : Tree} {node : Node} (hs : tree.Spelled)
    (h : Lowers.Program tree node) : Program node := by
  obtain ⟨hb⟩ := h
  exact .mk (of_body (Tree.spelled_node.mp hs) hb)

theorem of_parse {source : String} {program : Node} (h : parse source = .ok program) :
    Program program := by
  obtain ⟨tokens, tree, hd, -, hp⟩ := parse_eq_ok_iff.mp h
  refine of_program (fun token ht => ?_) hp
  rw [hd.tokens_eq] at ht
  exact hd.lexes.spelled token ht

end WellFormed

end ScriptLang
