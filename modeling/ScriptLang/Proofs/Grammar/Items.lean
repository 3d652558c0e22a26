import Mathlib.Tactic.SplitIfs
import ScriptLang.Grammar.Derivation

/-! # Items of the automaton

Every state is entered while some production is being read, so the symbols of that production up
to the current place are on top of the stack. The table reduces only by productions that have been
read completely, and only so often before a token is shifted.
-/

namespace ScriptLang.Table

variable {state next place : Nat} {symbol : GrammarSymbol} {terminal : Terminal}
  {nonterminal : Nonterminal} {production : Production}

def move (state : Nat) : GrammarSymbol → Option Nat
  | .t terminal =>
    match action state terminal with
    | some (.shift next) => some next
    | _ => none
  | .n nonterminal => goto state nonterminal

theorem move_t_iff : move state (.t terminal) = some next ↔
    action state terminal = some (.shift next) := by
  simp only [move]
  split <;> simp_all

theorem action_cases {action : Action} (h : Table.action state terminal = some action) :
    (state = accepting ∧ terminal = .endOfInput ∧ action = .accept) ∨
    (∃ row next, rows[state]? = some row ∧ row.shifts.lookup terminal = some next ∧
      action = .shift next) ∨
    ∃ row follow place production, rows[state]? = some row ∧
      row.reduction = some (follow, place) ∧ Grammar.productions[place]? = some production ∧
      action = .reduce production := by
  unfold Table.action at h
  split_ifs at h with hs ht
  · exact Or.inl ⟨hs, ht, (Option.some.inj h).symm⟩
  · obtain ⟨row, hr, h⟩ := Option.bind_eq_some_iff.mp h
    right
    split at h
    next next hl => exact Or.inl ⟨row, next, hr, hl, (Option.some.inj h).symm⟩
    next =>
      obtain ⟨⟨follow, place⟩, hred, h⟩ := Option.bind_eq_some_iff.mp h
      simp only [Option.ite_none_right_eq_some, Option.map_eq_some_iff] at h
      obtain ⟨_, production, hp, rfl⟩ := h
      exact Or.inr ⟨row, follow, place, production, hr, hred, hp, rfl⟩

theorem action_shift (h : action state terminal = some (.shift next)) :
    ∃ row, rows[state]? = some row ∧ row.shifts.lookup terminal = some next := by
  obtain ⟨_, _, h⟩ | ⟨row, _, hr, hl, h⟩ | ⟨_, _, _, _, _, _, _, h⟩ := action_cases h
  · cases h
  · cases h
    exact ⟨row, hr, hl⟩
  · cases h

theorem action_reduce (h : action state terminal = some (.reduce production)) :
    ∃ row follow place, rows[state]? = some row ∧ row.reduction = some (follow, place) ∧
      Grammar.productions[place]? = some production := by
  obtain ⟨_, _, h⟩ | ⟨_, _, _, _, h⟩ | ⟨row, follow, place, _, hr, hred, hp, h⟩ := action_cases h
  · cases h
  · cases h
  · cases h
    exact ⟨row, follow, place, hr, hred, hp⟩

theorem action_accept (h : action state terminal = some .accept) :
    state = accepting ∧ terminal = .endOfInput := by
  obtain ⟨hs, ht, _⟩ | ⟨_, _, _, _, h⟩ | ⟨_, _, _, _, _, _, _, h⟩ := action_cases h
  · exact ⟨hs, ht⟩
  · cases h
  · cases h

theorem goto_eq_some_iff : goto state nonterminal = some next ↔
    ∃ row, rows[state]? = some row ∧ row.gotos.lookup nonterminal = some next := by
  simp only [goto, Option.bind_eq_some_iff]

theorem mem_of_lookup {α β : Type} [BEq α] [LawfulBEq α] {k : α} {v : β} {l : List (α × β)}
    (h : l.lookup k = some v) : (k, v) ∈ l := by
  obtain ⟨l₁, l₂, rfl, _⟩ := List.lookup_eq_some_iff.mp h
  simp

/-- One item of each state, as the place of a production and the number of its symbols that have
been read. Of the items of a state it is one with the most symbols. -/
def cores : List (Nat × Nat) :=
  [(0, 0), (15, 1), (16, 1), (53, 1), (64, 1), (32, 1), (60, 1), (20, 1), (24, 1), (58, 1),
    -- 10
    (47, 1), (54, 1), (48, 1), (50, 1), (14, 1), (51, 1), (52, 1), (23, 1), (68, 1), (42, 1),
    -- 20
    (2, 1), (11, 1), (4, 1), (5, 1), (38, 1), (10, 1), (33, 1), (9, 1), (55, 1), (56, 1),
    -- 30
    (6, 1), (36, 1), (8, 1), (44, 1), (49, 1), (40, 1), (3, 1), (0, 0), (67, 1), (46, 1),
    -- 40
    (7, 1), (15, 2), (16, 2), (64, 2), (32, 2), (12, 2), (60, 2), (60, 1), (20, 2), (35, 1),
    -- 50
    (24, 2), (58, 2), (47, 2), (48, 2), (14, 2), (13, 2), (23, 2), (68, 2), (80, 1), (82, 1),
    -- 60
    (79, 1), (81, 1), (41, 2), (11, 2), (71, 1), (72, 1), (37, 2), (33, 2), (88, 1), (87, 1),
    -- 70
    (43, 2), (75, 1), (76, 1), (39, 2), (93, 1), (92, 1), (91, 1), (45, 2), (66, 1), (64, 3),
    -- 80
    (63, 3), (12, 1), (32, 3), (28, 3), (12, 3), (60, 3), (59, 3), (62, 1), (20, 3), (35, 2),
    -- 90
    (34, 2), (58, 3), (13, 3), (23, 3), (80, 2), (82, 2), (79, 2), (81, 2), (84, 2), (86, 2),
    -- 100
    (83, 2), (85, 2), (71, 2), (72, 2), (73, 2), (74, 2), (88, 2), (87, 2), (90, 2), (89, 2),
    -- 110
    (75, 2), (76, 2), (77, 2), (78, 2), (93, 2), (92, 2), (91, 2), (96, 2), (95, 2), (94, 2),
    -- 120
    (99, 1), (65, 2), (64, 4), (63, 4), (32, 4), (30, 4), (28, 4), (59, 4), (97, 1), (61, 2),
    -- 130
    (22, 1), (18, 4), (19, 4), (69, 1), (34, 3), (84, 3), (86, 3), (83, 3), (85, 3), (73, 3),
    -- 140
    (74, 3), (90, 3), (89, 3), (77, 3), (78, 3), (96, 3), (95, 3), (94, 3), (99, 2), (100, 2),
    -- 150
    (63, 5), (32, 5), (31, 5), (30, 5), (28, 5), (26, 5), (97, 2), (98, 2), (21, 2), (22, 2),
    -- 160
    (17, 5), (70, 2), (100, 3), (32, 6), (31, 6), (30, 6), (29, 6), (28, 6), (27, 6), (26, 6),
    -- 170
    (98, 3), (21, 3), (31, 7), (30, 7), (29, 7), (28, 7), (27, 7), (26, 7), (25, 7), (21, 4),
    -- 180
    (29, 8), (27, 8), (26, 8), (25, 8), (25, 9)]

/-- The symbols that have been read of the production that a state is in, the last one first. -/
def past (state : Nat) : List GrammarSymbol :=
  match cores[state]? with
  | none => []
  | some (place, dot) =>
    match Grammar.productions.toList[place]? with
    | none => []
    | some production => (production.rhs.take dot).reverse

/-- Whether a move into a state fits what has been read of its production. Nothing leads back to
the initial state, and only a whole program leads from there to the accepting one. -/
def enters (state : Nat) (symbol : GrammarSymbol) (next : Nat) : Bool :=
  (past next).isPrefixOf (symbol :: past state) && next != 0 &&
    (next != accepting || (state = 0 && symbol = .n .program))

def entersAll (state : Nat) (row : Row) : Bool :=
  (row.shifts.all fun (terminal, next) => enters state (.t terminal) next) &&
    row.gotos.all fun (nonterminal, next) => enters state (.n nonterminal) next

/-- Whether the production that a state reduces by is the one it has read. Only the initial state
reduces by an empty one. -/
def completes (state : Nat) (row : Row) : Bool :=
  match row.reduction with
  | none => true
  | some (_, place) =>
    match Grammar.productions.toList[place]? with
    | none => false
    | some production =>
      past state = production.rhs.reverse && (production.rhs != [] || state = 0)

theorem entersAll_rows :
    (rows.toList.zipIdx.all fun (row, state) => entersAll state row) = true := by
  decide +kernel

theorem completes_rows :
    (rows.toList.zipIdx.all fun (row, state) => completes state row) = true := by
  decide +kernel

theorem of_zipIdx {check : Nat → Row → Bool} {table : Array Row} {row : Row}
    (h : (table.toList.zipIdx.all fun (row, state) => check state row) = true)
    (hr : table[state]? = some row) : check state row = true := by
  refine List.all_eq_true.mp h (row, state) (List.mem_zipIdx_iff_getElem?.mpr ?_)
  simpa using hr

theorem enters_of_move (h : move state symbol = some next) : enters state symbol next = true := by
  cases symbol with
  | t terminal =>
    obtain ⟨row, hr, hl⟩ := action_shift (move_t_iff.mp h)
    have hall := of_zipIdx entersAll_rows hr
    simp only [entersAll, Bool.and_eq_true, List.all_eq_true] at hall
    exact hall.1 _ (mem_of_lookup hl)
  | n nonterminal =>
    obtain ⟨row, hr, hl⟩ := goto_eq_some_iff.mp h
    have hall := of_zipIdx entersAll_rows hr
    simp only [entersAll, Bool.and_eq_true, List.all_eq_true] at hall
    exact hall.2 _ (mem_of_lookup hl)

theorem past_move (h : move state symbol = some next) : past next <+: symbol :: past state := by
  have he := enters_of_move h
  simp only [enters, Bool.and_eq_true] at he
  exact List.isPrefixOf_iff_prefix.mp he.1.1

theorem move_ne_zero (h : move state symbol = some next) : next ≠ 0 := by
  have he := enters_of_move h
  simp only [enters, Bool.and_eq_true] at he
  simpa using he.1.2

theorem move_accepting (h : move state symbol = some accepting) :
    state = 0 ∧ symbol = .n .program := by
  have he := enters_of_move h
  simp only [enters, Bool.and_eq_true] at he
  simpa using he.2

theorem past_reduce (h : action state terminal = some (.reduce production)) :
    past state = production.rhs.reverse ∧ (production.rhs = [] → state = 0) := by
  obtain ⟨row, follow, place, hr, hred, hp⟩ := action_reduce h
  have hc := of_zipIdx completes_rows hr
  simp only [completes, hred, Array.getElem?_toList, hp, Bool.and_eq_true, Bool.or_eq_true,
    decide_eq_true_eq, bne_iff_ne] at hc
  exact ⟨hc.1, fun he => hc.2.resolve_left (not_not_intro he)⟩

/-- How far a symbol is from the top of the grammar through productions of one symbol, or of one
symbol and the mark that ends a statement. -/
def rank : GrammarSymbol → Nat
  | .t _ => 13
  | .n .program => 0
  | .n .statements => 1
  | .n .statement => 2
  | .n .expression | .n .assignment => 4
  | .n .logical => 5
  | .n .equality => 6
  | .n .relational => 7
  | .n .additive => 8
  | .n .multiplicative => 9
  | .n .unary => 10
  | .n .primary => 11
  | .n .call | .n .function => 12
  | .n .elseIfClauses | .n .arguments | .n .parameters => 0
  | .n _ => 3

theorem rank_le (symbol : GrammarSymbol) : rank symbol ≤ 13 := by
  unfold rank
  split <;> omega

theorem lhs_eq_program (h : production ∈ Grammar.productions) (hr : production.rhs = []) :
    production.lhs = .program := by
  have hall : (Grammar.productions.toList.all fun p => p.rhs != [] || p.lhs = .program) = true := by
    decide +kernel
  have hp := List.all_eq_true.mp hall production (Array.mem_def.mp h)
  simpa [hr] using hp

def climbs (production : Production) : Bool :=
  match production.rhs with
  | [symbol] => rank (.n production.lhs) < rank symbol
  | _ => true

theorem rank_lt (h : production ∈ Grammar.productions) (hr : production.rhs = [symbol]) :
    rank (.n production.lhs) < rank symbol := by
  have hall : Grammar.productions.toList.all climbs = true := by decide +kernel
  have hp := List.all_eq_true.mp hall production (Array.mem_def.mp h)
  simpa [climbs, hr] using hp

end ScriptLang.Table
