import ScriptLang.Proofs.Grammar.Lexing
import ScriptLang.Proofs.Grammar.Lowering

/-! # Reading on after a program

At the end of a program the machine can go on with more statements. From then on it does what it
would do at the start of another program: only the statements read before lie below on its stack,
until the first new statement is complete and becomes one of them.
-/

namespace ScriptLang

namespace Table

variable {state next : Nat} {terminal : Terminal} {production : Production}
  {nonterminal : Nonterminal}

theorem action_reduce_lookahead (h : action state terminal = some (.reduce production)) :
    ∃ row lookahead place, state ≠ accepting ∧ rows[state]? = some row ∧
      row.reduction = some (lookahead, place) ∧ Grammar.productions[place]? = some production ∧
      terminal ∈ lookahead := by
  unfold action at h
  split_ifs at h with hs
  · cases h
  · obtain ⟨row, hr, h⟩ := Option.bind_eq_some_iff.mp h
    split at h
    next => cases h
    next =>
      obtain ⟨⟨lookahead, place⟩, hred, h⟩ := Option.bind_eq_some_iff.mp h
      simp only [Option.ite_none_right_eq_some, Option.map_eq_some_iff] at h
      obtain ⟨hl, production, hp, he⟩ := h
      cases he
      exact ⟨row, lookahead, place, hs, hr, hred, hp, List.contains_iff_mem.mp hl⟩

theorem action_complete_eq_none {lookahead : List Terminal} {place : Nat} (hs : state ≠ accepting)
    (hr : rows[state]? = some (.complete lookahead place)) (h : terminal ∉ lookahead) :
    action state terminal = none := by
  have hlookup : ([] : List (Terminal × Nat)).lookup terminal = none := rfl
  have hc : lookahead.contains terminal = false := by simpa using h
  simp only [action, if_neg hs, hr, Row.complete, Option.bind_some, hlookup, hc, Bool.false_eq_true,
    if_false]

/-- The state after statements at the start of a program. -/
def resting : Nat := 18

/-- The states after the first statement and after another one. -/
def afterFirst : Nat := 38

def afterNext : Nat := 57

theorem row_resting : rows[resting]? =
    some ((statementRow.completing atEnd 0).adding [] [(.statement, afterNext)]) := by
  rw [← rowOf_eq, rowOf, rows]
  rfl

theorem row_afterFirst : rows[afterFirst]? = some (.complete afterStatement 67) := by
  rw [← rowOf_eq, rowOf, rows]
  rfl

theorem row_afterNext : rows[afterNext]? = some (.complete afterStatement 68) := by
  rw [← rowOf_eq, rowOf, rows]
  rfl

def startShifts : List (Terminal × Nat) := statementRow.shifts

theorem action_start_iff : action 0 terminal = some (.shift next) ↔
    startShifts.lookup terminal = some next := by
  constructor
  · intro h
    obtain ⟨row, hr, hl⟩ := action_shift h
    cases row_start.symm.trans hr
    exact hl
  · intro h
    exact action_eq_shift (by decide) row_start h

theorem mem_startShifts (h : action 0 terminal = some (.shift next)) :
    (terminal, next) ∈ startShifts := mem_of_lookup (action_start_iff.mp h)

theorem action_resting (h : action 0 terminal = some (.shift next)) :
    action resting terminal = some (.shift next) :=
  action_eq_shift (by decide) row_resting (action_start_iff.mp h)

/-- At the start of a program every token but the end is shifted at once. -/
theorem shift_of_start {taken : Action} (h : action 0 terminal = some taken)
    (ht : terminal ≠ .endOfInput) : ∃ next, taken = .shift next := by
  cases taken with
  | shift next => exact ⟨next, rfl⟩
  | accept => exact absurd (action_accept h).2 ht
  | reduce production =>
    obtain ⟨row, lookahead, _, -, hr, hred, -, hl⟩ := action_reduce_lookahead h
    cases row_start.symm.trans hr
    cases hred
    exact absurd (List.mem_singleton.mp hl) ht

/-- The nonterminals that are read in another way when there are statements before. -/
def outer : List GrammarSymbol := [.n .statement, .n .statements, .n .program]

theorem goto_resting (h : goto 0 nonterminal = some next) (ho : .n nonterminal ∉ outer) :
    goto resting nonterminal = some next := by
  obtain ⟨row, hr, hl⟩ := goto_eq_some_iff.mp h
  cases row_start.symm.trans hr
  simp only [outer, List.mem_cons, GrammarSymbol.n.injEq, List.not_mem_nil, or_false,
    not_or] at ho
  obtain ⟨hstatement, hstatements, hprogram⟩ := ho
  simp only [Row.adding, Row.completing, List.cons_append, List.nil_append, List.lookup_cons,
    beq_false_of_ne hstatement, beq_false_of_ne hstatements, beq_false_of_ne hprogram] at hl
  refine goto_eq_some_iff.mpr ⟨_, row_resting, ?_⟩
  simpa only [Row.adding, Row.completing, List.cons_append, List.nil_append, List.lookup_cons,
    beq_false_of_ne hstatement] using hl

theorem gotos_statement : goto 0 .statement = some afterFirst ∧
    goto resting .statement = some afterNext ∧ goto 0 .statements = some resting :=
  ⟨goto_eq_some_iff.mpr ⟨_, row_start, rfl⟩, goto_eq_some_iff.mpr ⟨_, row_resting, rfl⟩,
    goto_eq_some_iff.mpr ⟨_, row_start, rfl⟩⟩

/-- After a statement there is only one thing to do, and on the same terminals. -/
theorem action_afterStatement (terminal : Terminal) :
    (action afterFirst terminal = none ∧ action afterNext terminal = none) ∨
      (action afterFirst terminal = some (.reduce ⟨.statements, [.n .statement]⟩) ∧
        action afterNext terminal =
          some (.reduce ⟨.statements, [.n .statements, .n .statement]⟩)) := by
  by_cases h : terminal ∈ afterStatement
  · right
    constructor
    · exact action_eq_reduce (by decide) row_afterFirst rfl rfl h nofun
    · exact action_eq_reduce (by decide) row_afterNext rfl rfl h nofun
  · left
    constructor
    · exact action_complete_eq_none (by decide) row_afterFirst h
    · exact action_complete_eq_none (by decide) row_afterNext h

theorem lhs_of_lt_two {place : Nat} (h : Grammar.productions[place]? = some production)
    (hlt : place < 2) : production.lhs = .program := by
  match place, hlt with
  | 0, _ | 1, _ =>
    cases h
    rfl

/-- Whether a state that reduces at the end of the input does the same at the start of a statement,
except for a whole program. Only at the start a whole program is expected. -/
def settles (state : Nat) (row : Row) : Bool :=
  (row.gotos.all fun (nonterminal, _) => nonterminal != .program || state = 0) &&
    match row.reduction with
    | none => true
    | some (lookahead, place) =>
      !lookahead.contains .endOfInput || place < 2 ||
        (isWithin (bits (startShifts.map Prod.fst)) (bits lookahead) &&
          (bits (startShifts.map Prod.fst) &&& bits (row.shifts.map Prod.fst)).beq 0)

theorem settles_rows : (rows.toList.zipIdx.all fun (row, state) => settles state row) = true := by
  decide +kernel

theorem action_of_endOfInput (h : action state .endOfInput = some (.reduce production))
    (hp : production.lhs ≠ .program) (ht : action 0 terminal = some (.shift next)) :
    action state terminal = some (.reduce production) := by
  obtain ⟨row, lookahead, place, hs, hr, hred, hplace, hend⟩ := action_reduce_lookahead h
  have hc := (Bool.and_eq_true_iff.mp (of_zipIdx settles_rows hr)).2
  have hcontains : lookahead.contains .endOfInput = true := List.contains_iff_mem.mpr hend
  have hstart : Has (bits (startShifts.map Prod.fst)) terminal :=
    has_bits_iff.mpr (List.mem_map.mpr ⟨_, mem_startShifts ht, rfl⟩)
  have hnot : ¬place < 2 := fun hlt => hp (lhs_of_lt_two hplace hlt)
  simp only [hred, hcontains, hnot, Bool.not_true, Bool.false_or, decide_false,
    Bool.and_eq_true] at hc
  apply action_eq_reduce hs hr hred hplace (has_bits_iff.mp (hstart.of_isWithin hc.1))
  exact fun hm => hstart.not_of_disjoint hc.2 (has_bits_iff.mpr hm)

theorem goto_program (h : goto state .program = some next) : state = 0 := by
  obtain ⟨row, hr, hl⟩ := goto_eq_some_iff.mp h
  have hc := (Bool.and_eq_true_iff.mp (of_zipIdx settles_rows hr)).1
  simpa using List.all_eq_true.mp hc _ (mem_of_lookup hl)

theorem head_of_outer (h : production ∈ Grammar.productions)
    (hl : production.lhs = .statements ∨ production.lhs = .program) :
    ∀ symbol ∈ production.rhs.head?, symbol ∈ outer := by
  have hr := rhs_mem_expansions h
  have hall : ∀ lhs ∈ [Nonterminal.statements, .program], ∀ rhs ∈ lhs.expansions,
      ∀ symbol ∈ rhs.head?, symbol ∈ outer := by decide
  exact hall _ (by simpa using hl) _ hr

theorem rhs_of_program (h : production ∈ Grammar.productions) (hl : production.lhs = .program) :
    production.rhs = [] ∨ production.rhs = [.n .statements] := by
  have hr := rhs_mem_expansions h
  have hall : ∀ rhs ∈ Nonterminal.program.expansions, rhs = [] ∨ rhs = [.n .statements] := by
    decide
  exact hall _ (hl ▸ hr)

end Table

namespace Derivation

open Table (action goto resting afterFirst afterNext outer)

variable {stack stack' below : Stack} {token : Token} {tree : Tree} {states : List Nat} {n : Nat}

/-- A stack on which a program ends can be read on from as if its statements were all there is. -/
theorem Finishes.settles {terminal : Terminal} {next : Nat} (h : Finishes stack tree)
    (hb : Built stack) (hne : stack ≠ []) (hs : state stack ≠ Table.accepting)
    (ht : action 0 terminal = some (.shift next)) :
    Takes (path stack) terminal [next, resting] := by
  induction h with
  | accept ha => exact absurd (Table.action_accept ha).1 hs
  | @reduce stack reduced production tree ha hr _ ih =>
    obtain ⟨hb', -⟩ := hb.reduce ha hr
    obtain ⟨target, hg, rfl⟩ := reduce_eq_some_iff.mp hr
    by_cases hp : production.lhs = .program
    · -- The statements are complete, and nothing else is on the stack.
      obtain ⟨_, _, place, _, _, hplace⟩ := Table.action_reduce ha
      have hroots := hb.roots_take ha
      have hnil : stack.drop production.rhs.length = [] :=
        (hb.drop _).eq_nil (Table.goto_program (hp ▸ hg))
      rcases Table.rhs_of_program (Array.mem_of_getElem? hplace) hp with hrhs | hrhs
      · rw [hrhs] at hnil
        exact absurd hnil hne
      · rw [hrhs] at hnil hroots
        cases hb with
        | nil => exact absurd rfl hne
        | @cons below top tree _ _ hm =>
          obtain rfl : below = [] := hnil
          have hroot : tree.root = .n .statements := by simpa [roots] using hroots
          rw [hroot] at hm
          obtain rfl : top = resting := Option.some.inj (hm.symm.trans Table.gotos_statement.2.2)
          exact .shift (Table.action_resting ht)
    · have htarget : target ≠ Table.accepting := by
        rintro rfl
        have hmove : Table.move (state (stack.drop production.rhs.length)) (.n production.lhs) =
            some Table.accepting := hg
        obtain ⟨-, hroot⟩ := Table.move_accepting hmove
        exact hp (GrammarSymbol.n.inj hroot)
      have hpath : (path stack).drop production.rhs.length =
          path (stack.drop production.rhs.length) := List.map_drop.symm
      have hreduce : action ((path stack).headD 0) terminal = some (.reduce production) := by
        rw [headD_path]
        exact Table.action_of_endOfInput ha hp ht
      rw [← headD_path, ← hpath] at hg
      refine .reduce hreduce hg ?_
      rw [hpath]
      exact ih hb' (List.cons_ne_nil _ _) htarget

theorem Shifts.state_ne_accepting (h : Shifts token stack stack') :
    state stack' ≠ Table.accepting := by
  induction h with
  | shift ha =>
    rintro rfl
    cases (Table.move_accepting (Table.move_t_iff.mpr ha)).2
  | reduce _ _ _ ih => exact ih

theorem Takes.accepts {terminal : Terminal} {taken : List Nat} (h : Takes states terminal taken) :
    Table.accepts (states.headD 0) terminal = true := by
  cases h with
  | shift ha => rw [Table.accepts, ha, Option.isSome_some]
  | reduce ha => rw [Table.accepts, ha, Option.isSome_some]

/-- A stack that is read at the start of a program, and the states when it is read after other
statements: none of the trees is a whole statement of the program. -/
inductive Above : Stack → List Nat → Prop where
  | base {next : Nat} {tree : Tree} : tree.root ∉ outer → Above [(next, tree)] [next, resting]
  | more {entry : Nat × Tree} {below : Stack} {states : List Nat} : Above below states →
      Above (entry :: below) (entry.1 :: states)

/-- A stack that is read at the start of a program, and the states when it is read after other
statements. -/
inductive Resumes : Stack → List Nat → Prop where
  | above {stack : Stack} {states : List Nat} : Above stack states → Resumes stack states
  | complete {tree : Tree} : Resumes [(afterFirst, tree)] [afterNext, resting]
  | joined (stack : Stack) : Resumes stack (path stack)

theorem Above.headD (h : Above stack states) : states.headD 0 = state stack := by
  cases h <;> rfl

theorem Above.drop (h : Above stack states) (hn : n < stack.length) :
    Above (stack.drop n) (states.drop n) := by
  induction h generalizing n with
  | base hr =>
    obtain rfl : n = 0 := by simpa using hn
    exact .base hr
  | more h ih =>
    cases n with
    | zero => exact .more h
    | succ n => exact ih (Nat.lt_of_succ_lt_succ hn)

theorem Above.drop_length (h : Above stack states) : states.drop stack.length = [resting] := by
  induction h with
  | base => rfl
  | more _ ih => exact ih

theorem Above.getLast_root (h : Above stack states) :
    ∃ symbol ∈ (roots stack).getLast?, symbol ∉ outer := by
  induction h with
  | base hr => exact ⟨_, rfl, hr⟩
  | @more entry below states h ih =>
    obtain ⟨symbol, hs, ho⟩ := ih
    refine ⟨symbol, ?_, ho⟩
    cases below with
    | nil => cases h
    | cons first below => exact hs

theorem Resumes.accepts (h : Resumes stack states) (terminal : Terminal) :
    Table.accepts (states.headD 0) terminal = Table.accepts (state stack) terminal := by
  cases h with
  | above h => rw [h.headD]
  | complete =>
    show Table.accepts afterNext terminal = Table.accepts afterFirst terminal
    obtain ⟨h, h'⟩ | ⟨h, h'⟩ := Table.action_afterStatement terminal <;>
      simp only [Table.accepts, h, h', Option.isSome_none, Option.isSome_some]
  | joined => rw [headD_path]

/-- A tree that replaces all trees above the statements read before goes on above them or becomes
one of them. -/
theorem Above.reduced {production : Production} {target : Nat} (h : Above stack states)
    (hm : production ∈ Grammar.productions) (hr : roots stack = production.rhs.reverse)
    (hg : goto 0 production.lhs = some target) (ht : tree.root = .n production.lhs) :
    ∃ next, goto resting production.lhs = some next ∧ Resumes [(target, tree)] [next, resting] := by
  obtain ⟨symbol, hs, ho⟩ := h.getLast_root
  rw [hr, List.getLast?_reverse] at hs
  have hnot : ¬(production.lhs = .statements ∨ production.lhs = .program) :=
    fun hl => ho (Table.head_of_outer hm hl symbol hs)
  by_cases hl : production.lhs = .statement
  · obtain ⟨hfirst, hnext, -⟩ := Table.gotos_statement
    rw [hl] at hg ⊢
    obtain rfl : target = afterFirst := Option.some.inj (hg.symm.trans hfirst)
    exact ⟨afterNext, hnext, .complete⟩
  · have houter : GrammarSymbol.n production.lhs ∉ outer := by
      simp only [outer, List.mem_cons, GrammarSymbol.n.injEq, List.not_mem_nil, or_false]
      exact not_or.mpr ⟨hl, hnot⟩
    exact ⟨target, Table.goto_resting hg houter, .above (.base (ht ▸ houter))⟩

theorem Resumes.takes (hs : Resumes stack states) (hb : Built stack)
    (h : Shifts token stack stack') :
    ∃ states', Takes states token.terminal states' ∧ Resumes stack' states' := by
  induction h generalizing states with
  | @shift stack next ha =>
    cases hs with
    | above hs => exact ⟨_, .shift (by rwa [hs.headD]), .above (.more hs)⟩
    | complete =>
      have ha : action afterFirst token.terminal = some (.shift next) := ha
      rcases Table.action_afterStatement token.terminal with ⟨h, -⟩ | ⟨h, -⟩
      · cases h.symm.trans ha
      · cases h.symm.trans ha
    | joined => exact ⟨_, (Shifts.shift ha).takes, .joined _⟩
  | @reduce stack reduced shifted production ha hr hshift ih =>
    obtain ⟨hb', -⟩ := hb.reduce ha hr
    obtain ⟨target, hg, rfl⟩ := reduce_eq_some_iff.mp hr
    cases hs with
    | above hs =>
      have hroots := hb.roots_take ha
      have hle : production.rhs.length ≤ stack.length := by
        have hlength := congrArg List.length hroots
        simp only [roots, List.length_map, List.length_take, List.length_reverse] at hlength
        omega
      have haction : action (states.headD 0) token.terminal = some (.reduce production) := by
        rwa [hs.headD]
      rcases Nat.lt_or_eq_of_le hle with hlt | heq
      · have hdrop := hs.drop hlt
        rw [← hdrop.headD] at hg
        obtain ⟨states', htakes, hresumes⟩ := ih (.above (.more hdrop)) hb'
        exact ⟨states', .reduce haction hg htakes, hresumes⟩
      · obtain ⟨_, _, place, _, _, hplace⟩ := Table.action_reduce ha
        have hnil : stack.drop production.rhs.length = [] :=
          List.drop_eq_nil_of_le (Nat.le_of_eq heq.symm)
        have hstates : states.drop production.rhs.length = [resting] := heq ▸ hs.drop_length
        rw [List.take_of_length_le (Nat.le_of_eq heq.symm)] at hroots
        rw [hnil] at hg ih hb'
        obtain ⟨next, hnext, hresumes⟩ :=
          hs.reduced (Array.mem_of_getElem? hplace) hroots hg (Tree.root_node production _)
        obtain ⟨states', htakes, hresumes⟩ := ih hresumes hb'
        rw [← hstates] at htakes
        have hgoto : goto ((states.drop production.rhs.length).headD 0) production.lhs =
            some next := by rwa [hstates]
        exact ⟨states', .reduce haction hgoto htakes, hresumes⟩
    | complete =>
      rcases Table.action_afterStatement token.terminal with ⟨h, -⟩ | ⟨h, h'⟩
      · cases h.symm.trans ha
      · -- The first statement is joined with the ones before.
        cases h.symm.trans ha
        have hstatements := Table.gotos_statement.2.2
        obtain rfl : target = resting := Option.some.inj (hg.symm.trans hstatements)
        obtain ⟨states', htakes, hresumes⟩ := ih (.joined _) hb'
        exact ⟨states', .reduce h' hstatements htakes, hresumes⟩
    | joined => exact ⟨_, (Shifts.reduce ha hr hshift).takes, .joined _⟩

end Derivation

end ScriptLang
