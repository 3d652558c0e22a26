import ScriptLang.Proofs.Grammar.Lexing
import ScriptLang.Proofs.Grammar.Lowering

/-! # Texts that stand elsewhere

Where a token stands matters to messages only. Tokens that are moved have the same derivations with
the same meanings, and a text splits into the same tokens from any index on.
-/

namespace ScriptLang

variable (place : Nat → Nat)

def Token.moved (token : Token) : Token := { token with index := place token.index }

namespace Tree

mutual

def moved : Tree → Tree
  | leaf token => leaf (token.moved place)
  | node production children => node production (forestMoved children)

def forestMoved : List Tree → List Tree
  | [] => []
  | tree :: rest => moved tree :: forestMoved rest

end

variable {place} {tree : Tree} {trees : List Tree}

theorem forestMoved_eq_map : forestMoved place trees = trees.map (moved place) := by
  induction trees with
  | nil => rfl
  | cons tree trees ih => rw [forestMoved, ih, List.map_cons]

@[simp] theorem forestMoved_append {trees' : List Tree} :
    forestMoved place (trees ++ trees') = forestMoved place trees ++ forestMoved place trees' := by
  simp [forestMoved_eq_map]

theorem root_moved : (tree.moved place).root = tree.root := by
  cases tree with
  | leaf token => rfl
  | node production children => rfl

mutual

theorem tokens_moved : (tree : Tree) →
    (tree.moved place).tokens = tree.tokens.map (Token.moved place)
  | leaf _ => rfl
  | node _ children => by
    rw [moved, tokens, tokens]
    exact forestTokens_moved children

theorem forestTokens_moved : (trees : List Tree) →
    forestTokens (forestMoved place trees) = (forestTokens trees).map (Token.moved place)
  | [] => rfl
  | tree :: rest => by
    rw [forestMoved, forestTokens, forestTokens, List.map_append, tokens_moved tree,
      forestTokens_moved rest]

end

theorem Valid.moved (h : tree.Valid) : (tree.moved place).Valid := by
  induction h with
  | leaf token => exact .leaf _
  | @node production children hm hr _ ih =>
    rw [Tree.moved, forestMoved_eq_map]
    refine .node hm ?_ ?_
    · rw [← hr, List.map_map]
      exact List.map_congr_left fun _ _ => root_moved
    · intro _ hc
      obtain ⟨child, hchild, rfl⟩ := List.mem_map.mp hc
      exact ih child hchild

end Tree

namespace Lowers

open Tree (forestMoved)

variable {place} {tree : Tree} {trees : List Tree}

theorem MoreNames.moved {names : List String} (h : MoreNames tree names) :
    MoreNames (tree.moved place) names := by
  induction h with
  | one ht => exact .one ht
  | more _ ht ih => exact .more ih ht

theorem Names.moved {names : List String} (h : Names trees names) :
    Names (forestMoved place trees) names := by
  cases h with
  | none => exact .none
  | one ht => exact .one ht
  | more ht hm => exact .more ht hm.moved

mutual

theorem Expr.moved {tree : Tree} {node : Node} : Expr tree node → Expr (tree.moved place) node
  | .single h he => .single h he.moved
  | .number ht hn => .number ht hn
  | .string ht hs => .string ht hs
  | .true ht => .true ht
  | .false ht => .false ht
  | .nil ht => .nil ht
  | .ident ht => .ident ht
  | .parens he => .parens he.moved
  | .neg ht he => .neg ht he.moved
  | .not ht he => .not ht he.moved
  | .chain h he hx => .chain h he.moved hx.moved
  | .call ht ha => by
    rw [Tree.moved, Tree.forestMoved_append, Tree.forestMoved_append]
    exact .call ht ha.moved
  | .function hn hb => by
    rw [Tree.moved, Tree.forestMoved_append, Tree.forestMoved_append]
    exact .function hn.moved hb.moved

theorem Extends.moved {left node : Node} {tree : Tree} : Extends left tree node →
    Extends left (tree.moved place) node
  | .one ht he => .one ht he.moved
  | .more ht hx he => .more ht hx.moved he.moved

theorem Args.moved {trees : List Tree} {nodes : List Node} : Args trees nodes →
    Args (forestMoved place trees) nodes
  | .none => .none
  | .one he => .one he.moved
  | .more he hm => .more he.moved hm.moved

theorem MoreArgs.moved {tree : Tree} {nodes : List Node} : MoreArgs tree nodes →
    MoreArgs (tree.moved place) nodes
  | .one he => .one he.moved
  | .more hm he => .more hm.moved he.moved

theorem OptExpr.moved {trees : List Tree} {node : Node} : OptExpr trees node →
    OptExpr (forestMoved place trees) node
  | .none => .none
  | .some he => .some he.moved

theorem Assignment.moved {tree : Tree} {node : Node} : Assignment tree node →
    Assignment (tree.moved place) node
  | .mk ht he => .mk ht he.moved

theorem OptAssignment.moved {trees : List Tree} {node : Node} : OptAssignment trees node →
    OptAssignment (forestMoved place trees) node
  | .none => .none
  | .some ha => .some ha.moved

theorem Block.moved {tree : Tree} {node : Node} : Block tree node → Block (tree.moved place) node
  | .mk hb => by
    rw [Tree.moved, Tree.forestMoved_append, Tree.forestMoved_append]
    exact .mk hb.moved

theorem Body.moved {trees : List Tree} {nodes : List Node} : Body trees nodes →
    Body (forestMoved place trees) nodes
  | .none => .none
  | .some hs => .some hs.moved

theorem Statements.moved {tree : Tree} {nodes : List Node} : Statements tree nodes →
    Statements (tree.moved place) nodes
  | .one hs => .one hs.moved
  | .more hb hs => .more hb.moved hs.moved

theorem Else.moved {trees : List Tree} {node : Node} : Else trees node →
    Else (forestMoved place trees) node
  | .none => .none
  | .some hb => .some hb.moved

theorem ElseIfs.moved {trees : List Tree} {nodes : List Node} : ElseIfs trees nodes →
    ElseIfs (forestMoved place trees) nodes
  | .none => .none
  | .some hc => .some hc.moved

theorem Clause.moved {tree : Tree} {node : Node} : Clause tree node → Clause (tree.moved place) node
  | .mk he hb => .mk he.moved hb.moved

theorem Clauses.moved {tree : Tree} {nodes : List Node} : Clauses tree nodes →
    Clauses (tree.moved place) nodes
  | .one hc => .one hc.moved
  | .more hb hc => .more hb.moved hc.moved

theorem Statement.moved {tree : Tree} {node : Node} : Statement tree node →
    Statement (tree.moved place) node
  | .single hs => .single hs.moved
  | .assign ha => .assign ha.moved
  | .return ho => by
    rw [Tree.moved, Tree.forestMoved_append, Tree.forestMoved_append]
    exact .return ho.moved
  | .break => .break
  | .continue => .continue
  | .if he hb hc ho => by
    rw [Tree.moved, Tree.forestMoved_append, Tree.forestMoved_append]
    exact .if he.moved hb.moved hc.moved ho.moved
  | .while he hb => .while he.moved hb.moved
  | .loop hb => .loop hb.moved
  | .for hm hm' hi hc hp hb => by
    simp only [Tree.moved, Tree.forestMoved, Tree.forestMoved_append]
    exact .for hm hm' hi.moved hc.moved hp.moved hb.moved
  | .expr he => .expr he.moved

end

theorem Program.moved {node : Node} (h : Program tree node) : Program (tree.moved place) node := by
  obtain ⟨hb⟩ := h
  exact .mk hb.moved

end Lowers

namespace Derivation

theorem Lexes.moved {states : List Nat} {index : Nat} {text : List Char} {tokens : List Token}
    (h : Lexes states index text tokens) (distance : Nat) :
    Lexes states (index + distance) text (tokens.map (Token.moved (· + distance))) := by
  induction h with
  | done => exact .done
  | trivia hs ht _ ih => exact .trivia hs ht (Nat.add_right_comm .. ▸ ih)
  | token hs hk _ ih => exact .token hs hk (Nat.add_right_comm .. ▸ ih)

end Derivation

end ScriptLang
