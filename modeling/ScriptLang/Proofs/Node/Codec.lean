import ScriptLang.Node.Place
import ScriptLang.Node.ToJson
import ScriptLang.Proofs.Syntax.RoundTrip

/-! # Syntax trees and their JSON values

A JSON value that can be read as a tree need not be what the tree is written as. The trees that
come from JSON values are known, though, and each of them is read back from what it is written as,
so that reading and writing bring a JSON value into a normal form with the same meaning.
-/

namespace ScriptLang.Node

inductive Portable : Node → Prop where
  | null : Portable null
  | bool {value : Bool} : Portable (bool value)
  | int {value : Int} : Portable (int value)
  | float {value : Binary64} : Portable (float value)
  | str {value : String} : Portable (str value)
  | program {body : List Node} : (∀ node ∈ body, Portable node) → Portable (program body)
  | block {statements : List Node} : (∀ node ∈ statements, Portable node) →
      Portable (block statements)
  | elseIf {condition body : Node} : Portable condition → Portable body →
      Portable (elseIf condition body)
  | ifStmt {condition thenBlock elseBlock : Node} {elseIfs : List Node} : Portable condition →
      Portable thenBlock → (∀ node ∈ elseIfs, Portable node) → Portable elseBlock →
      Portable (ifStmt condition thenBlock elseIfs elseBlock)
  | whileStmt {condition body : Node} : Portable condition → Portable body →
      Portable (whileStmt condition body)
  | forStmt {init condition post body : Node} : Portable init → Portable condition →
      Portable post → Portable body → Portable (forStmt init condition post body)
  | loopStmt {body : Node} : Portable body → Portable (loopStmt body)
  | breakStmt : Portable breakStmt
  | continueStmt : Portable continueStmt
  | returnStmt {value : Node} : Portable value → Portable (returnStmt value)
  | exprStmt {expr : Node} : Portable expr → Portable (exprStmt expr)
  | assign {name : Json} {value : Node} : Portable value → Portable (assign name value)
  | funcDef {params : List Json} {body : Node} : Portable body → Portable (funcDef params body)
  | call {func : Node} {args : List Node} : Portable func → (∀ node ∈ args, Portable node) →
      Portable (call func args)
  | binary {op : Json} {left right : Node} : Portable left → Portable right →
      Portable (binary op left right)
  | unary {op : Json} {operand : Node} : Portable operand → Portable (unary op operand)
  | nilLiteral : Portable (literal nil (.str "Nil"))
  | floatLiteral {value : Binary64} : Portable (literal (float value) (.str "Float"))
  | literal {value : Node} {kind : Json} : kind ≠ .str "Nil" → kind ≠ .str "Float" →
      Portable value → Portable (literal value kind)
  | ident {name : Json} : Portable (ident name)

theorem bind_eq_of_ok {α β : Type} {first : Except TreeError α} {next : α → Except TreeError β}
    {a : α} {result : Except TreeError β} (h : first = .ok a) (hn : next a = result) :
    first >>= next = result := by
  rw [h]
  exact hn

theorem ofItems_toJsonAll {nodes : List Node} (h : ∀ node ∈ nodes, ofJson node.toJson = .ok node) :
    ofItems (toJsonAll nodes) = .ok nodes := by
  induction nodes with
  | nil => rfl
  | cons node rest ih =>
    obtain ⟨hnode, hrest⟩ := List.forall_mem_cons.mp h
    rw [toJsonAll, ofItems, hnode, ih hrest]
    rfl

theorem literalOf_eq {fields : Fields} {kind : Json} (h : fields.raw "literal_type" = .ok kind)
    (hn : kind ≠ .str "Nil") (hf : kind ≠ .str "Float") :
    literalOf fields = do return literal (← fields.node "value") kind := by
  refine bind_eq_of_ok h ?_
  split
  · exact absurd rfl hn
  · exact absurd rfl hf
  · rfl

theorem ofJson_toJson {node : Node} (h : Portable node) : ofJson node.toJson = .ok node := by
  induction h with
  | null | bool | int | float | str => rfl
  | breakStmt | continueStmt | nilLiteral | floatLiteral | ident => rfl
  | program _ hs => exact bind_eq_of_ok (ofItems_toJsonAll hs) rfl
  | block _ hs => exact bind_eq_of_ok (ofItems_toJsonAll hs) rfl
  | elseIf _ _ hc hb => exact bind_eq_of_ok hc (bind_eq_of_ok hb rfl)
  | ifStmt _ _ _ _ hc ht hes he =>
    have hs := ofItems_toJsonAll hes
    exact bind_eq_of_ok hc (bind_eq_of_ok ht (bind_eq_of_ok hs (bind_eq_of_ok he rfl)))
  | whileStmt _ _ hc hb => exact bind_eq_of_ok hc (bind_eq_of_ok hb rfl)
  | forStmt _ _ _ _ hi hc hp hb =>
    exact bind_eq_of_ok hi (bind_eq_of_ok hc (bind_eq_of_ok hp (bind_eq_of_ok hb rfl)))
  | loopStmt _ hb => exact bind_eq_of_ok hb rfl
  | returnStmt _ hv => exact bind_eq_of_ok hv rfl
  | exprStmt _ he => exact bind_eq_of_ok he rfl
  | assign _ hv => exact bind_eq_of_ok rfl (bind_eq_of_ok hv rfl)
  | funcDef _ hb => exact bind_eq_of_ok rfl (bind_eq_of_ok rfl (bind_eq_of_ok hb rfl))
  | call _ _ hf hs => exact bind_eq_of_ok hf (bind_eq_of_ok (ofItems_toJsonAll hs) rfl)
  | binary _ _ hl hr => exact bind_eq_of_ok rfl (bind_eq_of_ok hl (bind_eq_of_ok hr rfl))
  | unary _ ho => exact bind_eq_of_ok rfl (bind_eq_of_ok ho rfl)
  | literal hn hf _ hv => exact (literalOf_eq rfl hn hf).trans (bind_eq_of_ok hv rfl)

def Yields {α : Type} (result : Except TreeError α) (P : α → Prop) : Prop :=
  ∀ a, result = .ok a → P a

namespace Yields

variable {α β : Type} {P : α → Prop} {Q : β → Prop}

theorem ok {a : α} (h : P a) : Yields (.ok a) P := by
  rintro _ ⟨⟩
  exact h

theorem error {error : TreeError} : Yields (.error error) P := nofun

theorem any {result : Except TreeError α} : Yields result fun _ => True := fun _ _ => trivial

theorem bind {result : Except TreeError α} {next : α → Except TreeError β} (h : Yields result P)
    (hn : ∀ a, P a → Yields (next a) Q) : Yields (result >>= next) Q := by
  cases result with
  | error => exact error
  | ok a => exact hn a (h a rfl)

end Yields

/-- However a field is read, it gives portable nodes. -/
structure Field.Portable (field : Field) : Prop where
  node : Yields field.node Node.Portable
  nodes : Yields field.nodes fun nodes => ∀ node ∈ nodes, node.Portable

def Fields.Portable (fields : Fields) : Prop := ∀ entry ∈ fields, entry.2.Portable

section

variable {fields : Fields} (h : fields.Portable)
include h

theorem Fields.Portable.get (name : String) : Yields (fields.get name) Field.Portable := by
  intro field hf
  unfold Fields.get at hf
  split at hf
  · rename_i hl
    cases hf
    exact h _ (Table.mem_of_lookup hl)
  · cases hf

theorem Fields.Portable.node (name : String) : Yields (fields.node name) Node.Portable :=
  (h.get name).bind fun _ hf => hf.node

theorem Fields.Portable.nodes (name : String) :
    Yields (fields.nodes name) fun nodes => ∀ node ∈ nodes, node.Portable :=
  (h.get name).bind fun _ hf => hf.nodes

theorem Fields.Portable.node? (name : String) : Yields (fields.node? name) Node.Portable := by
  unfold Fields.node?
  split
  · rename_i hl
    exact (h _ (Table.mem_of_lookup hl)).node
  · exact .ok .null

theorem Fields.Portable.nodes? (name : String) :
    Yields (fields.nodes? name) fun nodes => ∀ node ∈ nodes, node.Portable := by
  unfold Fields.nodes?
  split
  · rename_i hl
    exact (h _ (Table.mem_of_lookup hl)).nodes
  · exact .ok nofun

theorem yields_literalOf : Yields (literalOf fields) Portable := by
  refine Yields.any.bind fun kind _ => ?_
  split
  · exact .ok .nilLiteral
  · exact Yields.any.bind fun _ _ => Yields.any.bind fun _ _ => .ok .floatLiteral
  · rename_i hn hf
    exact (h.node _).bind fun _ hv => .ok (.literal hn hf hv)

theorem yields_ofFields (kind : String) : Yields (ofFields kind fields) Portable := by
  unfold ofFields
  split
  · exact (h.nodes _).bind fun _ hs => .ok (.program hs)
  · exact (h.nodes _).bind fun _ hs => .ok (.block hs)
  · exact (h.node _).bind fun _ hc => (h.node _).bind fun _ hb => .ok (.elseIf hc hb)
  · exact (h.node _).bind fun _ hc => (h.node _).bind fun _ ht => (h.nodes? _).bind fun _ hes =>
      (h.node? _).bind fun _ he => .ok (.ifStmt hc ht hes he)
  · exact (h.node _).bind fun _ hc => (h.node _).bind fun _ hb => .ok (.whileStmt hc hb)
  · exact (h.node? _).bind fun _ hi => (h.node? _).bind fun _ hc => (h.node? _).bind fun _ hp =>
      (h.node _).bind fun _ hb => .ok (.forStmt hi hc hp hb)
  · exact (h.node _).bind fun _ hb => .ok (.loopStmt hb)
  · exact .ok .breakStmt
  · exact .ok .continueStmt
  · exact (h.node? _).bind fun _ hv => .ok (.returnStmt hv)
  · exact (h.node _).bind fun _ he => .ok (.exprStmt he)
  · exact Yields.any.bind fun _ _ => (h.node _).bind fun _ hv => .ok (.assign hv)
  · exact Yields.any.bind fun _ _ => Yields.any.bind fun _ _ => (h.node _).bind fun _ hb =>
      .ok (.funcDef hb)
  · exact (h.node _).bind fun _ hf => (h.nodes _).bind fun _ hs => .ok (.call hf hs)
  · exact Yields.any.bind fun _ _ => (h.node _).bind fun _ hl => (h.node _).bind fun _ hr =>
      .ok (.binary hl hr)
  · exact Yields.any.bind fun _ _ => (h.node _).bind fun _ ho => .ok (.unary ho)
  · exact yields_literalOf h
  · exact Yields.any.bind fun _ _ => .ok .ident
  · exact .error

end

theorem portable_map_str {α : Type} (items : List α) (text : α → String) :
    ∀ node ∈ items.map (fun item => str (text item)), Portable node := by
  intro node hm
  obtain ⟨item, -, rfl⟩ := List.mem_map.mp hm
  exact .str

mutual

theorem yields_ofJson : (json : Json) → Yields (ofJson json) Portable
  | .null => .ok .null
  | .bool _ => .ok .bool
  | .int _ => .ok .int
  | .float _ => .ok .float
  | .str _ => .ok .str
  | .arr _ => .error
  | .obj fields => by
    unfold ofJson
    split
    · exact yields_ofFields (portable_readFields fields) _
    · exact .error
    · exact .error

theorem yields_nodesOf : (json : Json) →
    Yields (nodesOf json) fun nodes => ∀ node ∈ nodes, node.Portable
  | .arr items => yields_ofItems items
  | .str _ => .ok (portable_map_str _ _)
  | .obj _ => .ok (portable_map_str _ _)
  | .null | .bool _ | .int _ | .float _ => .error

theorem yields_ofItems : (items : List Json) →
    Yields (ofItems items) fun nodes => ∀ node ∈ nodes, node.Portable
  | [] => .ok nofun
  | item :: rest => by
    intro nodes h
    unfold ofItems at h
    split at h
    · cases h
    · rename_i node hnode
      cases hr : ofItems rest with
      | error =>
        rw [hr] at h
        cases h
      | ok others =>
        rw [hr] at h
        cases h
        exact List.forall_mem_cons.mpr
          ⟨yields_ofJson item node hnode, yields_ofItems rest others hr⟩

theorem portable_readFields : (fields : List (String × Json)) → (readFields fields).Portable
  | [] => nofun
  | (_, value) :: rest =>
    List.forall_mem_cons.mpr ⟨⟨yields_ofJson value, yields_nodesOf value⟩, portable_readFields rest⟩

end

/-- What occurs in programs that were parsed, whatever its place. A missing part is `null`. -/
inductive Part : Node → Prop where
  | null : Part null
  | int {value : Int} : Integer.inRange value = true → Part (literal (int value) (.str "Integer"))
  | float {value : Binary64} : Part (literal (float value) (.str "Float"))
  | string {value : String} : Part (literal (str value) (.str "String"))
  | bool {value : Bool} : Part (literal (bool value) (.str "Bool"))
  | nil : Part (literal nil (.str "Nil"))
  | ident {name : String} : Part (ident (.str name))
  | unary {op : String} {operand : Node} : Part operand → Part (unary (.str op) operand)
  | binary {op : String} {left right : Node} : Part left → Part right →
      Part (binary (.str op) left right)
  | call {func : Node} {args : List Node} : Part func → (∀ node ∈ args, Part node) →
      Part (call func args)
  | funcDef {params : List String} {body : Node} : Part body → Part (funcDef (params.map .str) body)
  | block {statements : List Node} : (∀ node ∈ statements, Part node) → Part (block statements)
  | assign {name : String} {value : Node} : Part value → Part (assign (.str name) value)
  | elseIf {condition body : Node} : Part condition → Part body → Part (elseIf condition body)
  | ifStmt {condition thenBlock elseBlock : Node} {elseIfs : List Node} : Part condition →
      Part thenBlock → (∀ node ∈ elseIfs, Part node) → Part elseBlock →
      Part (ifStmt condition thenBlock elseIfs elseBlock)
  | whileStmt {condition body : Node} : Part condition → Part body → Part (whileStmt condition body)
  | forStmt {init condition post body : Node} : Part init → Part condition → Part post → Part body →
      Part (forStmt init condition post body)
  | loopStmt {body : Node} : Part body → Part (loopStmt body)
  | breakStmt : Part breakStmt
  | continueStmt : Part continueStmt
  | returnStmt {value : Node} : Part value → Part (returnStmt value)
  | exprStmt {expr : Node} : Part expr → Part (exprStmt expr)
  | program {body : List Node} : (∀ node ∈ body, Part node) → Part (program body)

theorem part_of_optional {node : Node} (h : node ≠ null → Part node) : Part node := by
  by_cases hn : node = null
  · exact hn ▸ .null
  · exact h hn

mutual

theorem part_of_expr {node : Node} : WellFormed.Expr node → Part node
  | .int hr => .int hr
  | .float _ => .float
  | .string => .string
  | .bool => .bool
  | .nil => .nil
  | .ident _ => .ident
  | .neg ho => .unary (part_of_expr ho)
  | .not ho => .unary (part_of_expr ho)
  | .binary _ hl hr => .binary (part_of_expr hl) (part_of_expr hr)
  | .call _ hs => .call .ident fun arg hm => part_of_expr (hs arg hm)
  | .function _ hb => .funcDef (part_of_block hb)

theorem part_of_block {node : Node} : WellFormed.Block node → Part node
  | .mk hs => .block fun statement hm => part_of_statement (hs statement hm)

theorem part_of_assignment {node : Node} : WellFormed.Assignment node → Part node
  | .mk _ hv => .assign (part_of_expr hv)

theorem part_of_clause {node : Node} : WellFormed.Clause node → Part node
  | .mk hc hb => .elseIf (part_of_expr hc) (part_of_block hb)

theorem part_of_statement {node : Node} : WellFormed.Statement node → Part node
  | .assign ha => part_of_assignment ha
  | .return hv => .returnStmt (part_of_optional fun hn => part_of_expr (hv hn))
  | .break => .breakStmt
  | .continue => .continueStmt
  | .if hc hb hcs ho => .ifStmt (part_of_expr hc) (part_of_block hb)
      (fun clause hm => part_of_clause (hcs clause hm))
      (part_of_optional fun hn => part_of_block (ho hn))
  | .while hc hb => .whileStmt (part_of_expr hc) (part_of_block hb)
  | .loop hb => .loopStmt (part_of_block hb)
  | .for hi hc hp hb => .forStmt (part_of_optional fun hn => part_of_assignment (hi hn))
      (part_of_optional fun hn => part_of_expr (hc hn))
      (part_of_optional fun hn => part_of_assignment (hp hn)) (part_of_block hb)
  | .expr hv => .exprStmt (part_of_expr hv)

end

theorem part_of_parse {source : String} {program : Node} (h : parse source = .ok program) :
    Part program := by
  obtain ⟨hs⟩ := WellFormed.of_parse h
  exact .program fun statement hm => part_of_statement (hs statement hm)

theorem portable_literal {kind : String} {value : Node} (hn : kind ≠ "Nil") (hf : kind ≠ "Float")
    (hv : Portable value) : Portable (literal value (.str kind)) :=
  .literal (fun he => hn (Json.str.inj he)) (fun he => hf (Json.str.inj he)) hv

theorem Part.portable {node : Node} (h : Part node) : Portable node := by
  induction h with
  | null => exact .null
  | int => exact portable_literal (by decide) (by decide) .int
  | float => exact .floatLiteral
  | string => exact portable_literal (by decide) (by decide) .str
  | bool => exact portable_literal (by decide) (by decide) .bool
  | nil => exact .nilLiteral
  | ident => exact .ident
  | unary _ ho => exact .unary ho
  | binary _ _ hl hr => exact .binary hl hr
  | call _ _ hf hs => exact .call hf hs
  | funcDef _ hb => exact .funcDef hb
  | block _ hs => exact .block hs
  | assign _ hv => exact .assign hv
  | elseIf _ _ hc hb => exact .elseIf hc hb
  | ifStmt _ _ _ _ hc ht hes he => exact .ifStmt hc ht hes he
  | whileStmt _ _ hc hb => exact .whileStmt hc hb
  | forStmt _ _ _ _ hi hc hp hb => exact .forStmt hi hc hp hb
  | loopStmt _ hb => exact .loopStmt hb
  | breakStmt => exact .breakStmt
  | continueStmt => exact .continueStmt
  | returnStmt _ hv => exact .returnStmt hv
  | exprStmt _ he => exact .exprStmt he
  | program _ hs => exact .program hs

/-- Programs are read back from what they are written as. Any JSON value that can be read as a tree
is brought into a normal form, which stands for the same tree and is its own normal form. -/
theorem json_normal_form :
    (∀ source program, parse source = .ok program → ofJson program.toJson = .ok program) ∧
    (∀ json node, ofJson json = .ok node → ofJson node.toJson = .ok node) ∧
    ∀ json normal, (ofJson json).map toJson = .ok normal →
      (ofJson normal).map toJson = .ok normal ∧ load normal = load json := by
  have hread : ∀ json node, ofJson json = .ok node → ofJson node.toJson = .ok node :=
    fun json node h => ofJson_toJson (yields_ofJson json node h)
  refine ⟨?_, hread, ?_⟩
  · intro source program h
    exact ofJson_toJson (part_of_parse h).portable
  · intro json normal h
    cases hj : ofJson json with
    | error =>
      rw [hj] at h
      cases h
    | ok node =>
      rw [hj] at h
      cases h
      have hn := hread json node hj
      exact ⟨by rw [hn]; rfl, by rw [load, load, hn, hj]⟩

/-- A function written by hand: a text for its parameters, a field too many, a literal that is a
float only by its kind and a loop without most of its parts. -/
theorem json_normal_form_handwritten :
    let number (value : Json) : Json :=
      object "Literal" [("value", value), ("literal_type", .str "Float")]
    let loop (parts : List (String × Json)) : Json :=
      object "ForStmt" (parts ++ [("body", object "Block" [("statements", .arr [])])])
    let json : Json := object "FuncDef" [("line", .int 1), ("params", .str "ab"),
      ("body", object "Block" [("statements", .arr [loop [], number (.str " Infinity")])])]
    let normal : Json := object "FuncDef" [("params", .arr [.str "a", .str "b"]),
      ("body", object "Block" [("statements", .arr
        [loop [("init", .null), ("condition", .null), ("post", .null)],
          number (.float (.infinite false))])])]
    (ofJson json).map toJson = .ok normal ∧ (ofJson normal).map toJson = .ok normal ∧
      load normal = load json := by
  intro number loop json normal
  have h : (ofJson json).map toJson = .ok normal := by rfl
  exact ⟨h, json_normal_form.2.2 json normal h⟩

end ScriptLang.Node
