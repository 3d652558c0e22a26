import ScriptLang.Proofs.Eval.Frames
import ScriptLang.Proofs.Eval.Pieces
import ScriptLang.Proofs.Eval.Uniform
import ScriptLang.Proofs.Syntax.WellFormed

/-! # Integers of a run

If no literal of a program and nothing in the machine holds an integer of more than 64 bits, then
nothing that the program makes does, wherever the run stands and however it ends.
-/

namespace ScriptLang

/-- A node in a tree, which may be the tree itself. -/
inductive Node.Occurs (inner : Node) : Node → Prop where
  | self : Occurs inner inner
  | child {node child : Node} : child ∈ node.children → Occurs inner child → Occurs inner node

/-- The integers of all literals in a tree have 64 bits. -/
def Node.InRange (node : Node) : Prop :=
  ∀ n kind, Occurs (.literal (.int n) kind) node → Integer.inRange n = true

/-- The statements that a call of a function with this body runs. -/
def Node.statements : Node → List Node
  | block statements => statements
  | _ => []

/-- An integer has 64 bits, and so do the literals in the statements of a function. -/
def Value.InRange : Value → Prop
  | .int n => Integer.inRange n = true
  | .closure function => ∀ statement ∈ function.body.statements, statement.InRange
  | _ => True

def Store.InRange (store : Store) : Prop :=
  ∀ (i : Nat) (frame : Frame), store.frames[i]? = some frame →
    ∀ binding ∈ frame.bindings, binding.2.InRange

def Failure.InRange : Failure → Prop
  | .exit code => Integer.inRange code = true
  | _ => True

/-- How a piece ends: with values in range or with a failure whose exit code is, and always with
frames in range. -/
def Piece.EndsInRange : EStateM.Result Failure Machine (List Value) → Prop
  | .ok values machine => machine.store.InRange ∧ ∀ value ∈ values, value.InRange
  | .error failure machine => machine.store.InRange ∧ failure.InRange

namespace Node

variable {node : Node}

theorem InRange.child {child : Node} (h : node.InRange) (hc : child ∈ node.children) :
    child.InRange :=
  fun n kind ho => h n kind (.child hc ho)

theorem inRange_of_children
    (hl : ∀ n kind, node = .literal (.int n) kind → Integer.inRange n = true)
    (hc : ∀ child ∈ node.children, child.InRange) : node.InRange := by
  intro n kind ho
  cases ho with
  | self => exact hl n kind rfl
  | child hm ho => exact hc _ hm n kind ho

theorem inRange_leaf (hl : ∀ n kind, node ≠ .literal (.int n) kind) (hc : node.children = []) :
    node.InRange := by
  refine inRange_of_children (fun n kind he => absurd he (hl n kind)) ?_
  rw [hc]
  exact nofun

theorem inRange_literal {value : Node} {kind : Json}
    (hv : ∀ n, value = .int n → Integer.inRange n = true)
    (hl : ∀ n kind, value ≠ .literal (.int n) kind) (hc : value.children = []) :
    (literal value kind).InRange := by
  refine inRange_of_children (fun n kind he => ?_) (List.forall_mem_singleton.mpr ?_)
  · cases he
    exact hv n rfl
  · exact inRange_leaf hl hc

end Node

namespace WellFormed

theorem inRange_of_optional {node : Node} (h : node ≠ .null → node.InRange) : node.InRange := by
  cases node with
  | null => exact Node.inRange_leaf nofun rfl
  | _ => exact h nofun

mutual

theorem inRange_expr {node : Node} : Expr node → node.InRange
  | .int hr => Node.inRange_literal (fun n he => by cases he; exact hr) nofun rfl
  | .float _ => Node.inRange_literal nofun nofun rfl
  | .string => Node.inRange_literal nofun nofun rfl
  | .bool => Node.inRange_literal nofun nofun rfl
  | .nil => Node.inRange_literal nofun nofun rfl
  | .ident _ => Node.inRange_leaf nofun rfl
  | .neg h => Node.inRange_of_children nofun (by simpa [Node.children] using inRange_expr h)
  | .not h => Node.inRange_of_children nofun (by simpa [Node.children] using inRange_expr h)
  | .binary _ hl hr => Node.inRange_of_children nofun
      (by simpa [Node.children] using ⟨inRange_expr hl, inRange_expr hr⟩)
  | .call _ ha => Node.inRange_of_children nofun (by
      simp only [Node.children, List.forall_mem_cons]
      exact ⟨Node.inRange_leaf nofun rfl, fun arg hm => inRange_expr (ha arg hm)⟩)
  | .function _ hb =>
    Node.inRange_of_children nofun (by simpa [Node.children] using inRange_block hb)

theorem inRange_block {node : Node} : Block node → node.InRange
  | .mk hs => Node.inRange_of_children nofun fun statement hm => inRange_statement (hs statement hm)

theorem inRange_assignment {node : Node} : Assignment node → node.InRange
  | .mk _ hv => Node.inRange_of_children nofun (by simpa [Node.children] using inRange_expr hv)

theorem inRange_clause {node : Node} : Clause node → node.InRange
  | .mk hc hb => Node.inRange_of_children nofun
      (by simpa [Node.children] using ⟨inRange_expr hc, inRange_block hb⟩)

theorem inRange_statement {node : Node} : Statement node → node.InRange
  | .assign h => inRange_assignment h
  | .return hv => Node.inRange_of_children nofun
      (by simpa [Node.children] using inRange_of_optional fun hn => inRange_expr (hv hn))
  | .break => Node.inRange_leaf nofun rfl
  | .continue => Node.inRange_leaf nofun rfl
  | .if hc hb hcs ho => Node.inRange_of_children nofun (by
      simp only [Node.children, List.forall_mem_cons]
      exact ⟨inRange_expr hc, inRange_block hb,
        inRange_of_optional fun hn => inRange_block (ho hn),
        fun clause hm => inRange_clause (hcs clause hm)⟩)
  | .while hc hb => Node.inRange_of_children nofun
      (by simpa [Node.children] using ⟨inRange_expr hc, inRange_block hb⟩)
  | .loop hb => Node.inRange_of_children nofun (by simpa [Node.children] using inRange_block hb)
  | .for hi hc hp hb => Node.inRange_of_children nofun (by
      simp only [Node.children, List.forall_mem_cons]
      exact ⟨inRange_of_optional fun hn => inRange_assignment (hi hn),
        inRange_of_optional fun hn => inRange_expr (hc hn),
        inRange_of_optional fun hn => inRange_assignment (hp hn), inRange_block hb, nofun⟩)
  | .expr hv => Node.inRange_of_children nofun (by simpa [Node.children] using inRange_expr hv)

end

theorem inRange_of_parse {source : String} {program : Node} (h : parse source = .ok program) :
    program.InRange := by
  cases of_parse h with
  | mk hs => exact Node.inRange_of_children nofun fun _ hm => inRange_statement (hs _ hm)

end WellFormed

theorem Machine.inRange_initial (input : String) : (initial input).store.InRange :=
  all_initial fun _ => trivial

namespace Discipline

def integers : Discipline where
  Good := Store.InRange
  Scope _ := True
  Home _ := True
  Whole n := Integer.inRange n = true
  Expr := Node.InRange
  Stmt := Node.InRange
  Fails := Failure.InRange

theorem integers_holds_iff {value : Value} : integers.Holds value ↔ value.InRange := by
  cases value with
  | int n => exact Iff.rfl
  | closure function =>
    obtain ⟨number, params, body, scope⟩ := function
    constructor
    · rintro ⟨-, -, -, hb⟩
      cases body with
      | block statements => exact hb
      | _ => exact nofun
    · intro hb
      refine ⟨trivial, fun _ _ => .inr trivial, .inr trivial, ?_⟩
      cases body with
      | block statements => exact hb
      | _ => trivial
  | _ => exact Iff.rfl

theorem integers_uniform : integers.Uniform where
  same := rfl
  child h hc := h.child hc
  text := Node.inRange_leaf nofun rfl
  literal h := h _ _ .self
  fault := trivial
  error := trivial
  whole h := h
  tmod h _ := Integer.inRange_tmod h

theorem integers_lawful : integers.Lawful := by
  refine integers_uniform.lawful (fun _ _ => trivial)
    (fun store parent hg _ => ⟨Store.All.push hg, trivial⟩)
    (fun store frame name value hg _ hv => Store.All.define hg (integers_holds_iff.mp hv))
    (fun store frame name value hg _ hv => Store.All.set hg (integers_holds_iff.mp hv))
    (fun store frame name value hg _ he => integers_holds_iff.mpr (Store.All.get hg he))
    (fun source program hp => WellFormed.inRange_of_parse hp) (fun code hc => hc) trivial trivial

theorem integers_ends {result : EStateM.Result Failure Machine (List Value)}
    (h : integers.Ends (fun values => ∀ value ∈ values, integers.Holds value) result) :
    Piece.EndsInRange result := by
  cases result with
  | ok values machine => exact ⟨h.1, fun value hv => integers_holds_iff.mp (h.2 value hv)⟩
  | error failure machine => exact h

end Discipline

/-- Integers have 64 bits throughout a run. A program that was parsed has only such literals. If a
program has only such literals and runs on a machine whose frames hold only such integers, then
wherever a piece of the run starts and however it ends, so do its frames, and the values that it
evaluates to or returns and the codes that it exits with are such integers too. -/
theorem integers_in_range :
    (∀ source program, parse source = .ok program → program.InRange) ∧
    ∀ (fuel : Nat) (context : Context) (root : Node) (machine : Machine),
      root.InRange → machine.store.InRange →
      ∀ piece during, Within (.run fuel context root) machine piece during →
        during.store.InRange ∧ Piece.EndsInRange (piece.perform during) := by
  refine ⟨fun source program hp => WellFormed.inRange_of_parse hp, ?_⟩
  intro fuel context root machine hr hm piece during hw
  have hs : Discipline.integers.Starting (.run fuel context root) :=
    ⟨trivial, Discipline.integers_uniform.root hr⟩
  obtain ⟨hg, he⟩ := Discipline.integers_lawful.within hw hs hm
  exact ⟨hg, Discipline.integers_ends he⟩

/-- The greatest integer is a literal of a program that is run on the first machine. -/
theorem integers_in_range_greatest :
    Piece.EndsInRange ((Piece.run 9 ⟨0, 0, 9⟩ (.program
      [.exprStmt (.literal (.int Integer.greatest) (.str "Integer"))])).perform
        (Machine.initial "")) := by
  refine (integers_in_range.2 9 ⟨0, 0, 9⟩ _ (Machine.initial "") ?_ (Machine.inRange_initial "") _ _
    .self).2
  refine Node.inRange_of_children nofun (List.forall_mem_singleton.mpr ?_)
  refine Node.inRange_of_children nofun (List.forall_mem_singleton.mpr ?_)
  exact Node.inRange_literal (fun n hn => by cases hn; decide) nofun rfl

end ScriptLang
