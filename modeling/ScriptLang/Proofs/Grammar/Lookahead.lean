import ScriptLang.Proofs.Grammar.Items

/-! # Lookahead

Which terminals may stand after a nonterminal that a state expects. Each production of the
nonterminal can be read from that state, and is reduced on every such terminal. Sets of terminals
are compared as natural numbers with one bit for each terminal.
-/

namespace ScriptLang.Table

variable {state next place : Nat} {terminal : Terminal} {nonterminal : Nonterminal}
  {production : Production}

def bits (terminals : List Terminal) : Nat :=
  terminals.foldr (fun terminal rest => 1 <<< terminal.ctorIdx ||| rest) 0

def isWithin (a b : Nat) : Bool := (a ||| b).beq b

def Has (set : Nat) (terminal : Terminal) : Prop := set.testBit terminal.ctorIdx = true

theorem ctorIdx_inj {a b : Terminal} (h : a.ctorIdx = b.ctorIdx) : a = b := by
  rw [← Terminal.ofNat_ctorIdx a, h, Terminal.ofNat_ctorIdx]

theorem has_bits_iff {terminals : List Terminal} : Has (bits terminals) terminal ↔
    terminal ∈ terminals := by
  induction terminals with
  | nil => simp [Has, bits]
  | cons first rest ih =>
    have hb : bits (first :: rest) = 1 <<< first.ctorIdx ||| bits rest := rfl
    simp only [Has, hb, Nat.testBit_or, Bool.or_eq_true, List.mem_cons, ← ih]
    rw [Nat.one_shiftLeft, Nat.testBit_two_pow, decide_eq_true_eq]
    exact or_congr ⟨fun h => (ctorIdx_inj h).symm, fun h => h ▸ rfl⟩ Iff.rfl

theorem Has.of_isWithin {a b : Nat} (ha : Has a terminal) (h : isWithin a b = true) :
    Has b terminal := by
  have he : a ||| b = b := Nat.eq_of_beq_eq_true h
  rw [Has, ← he, Nat.testBit_or, ha, Bool.true_or]

theorem has_and_iff {a b : Nat} : Has (a &&& b) terminal ↔ Has a terminal ∧ Has b terminal := by
  simp [Has, Nat.testBit_and]

theorem Has.not_of_disjoint {a b : Nat} (ha : Has a terminal) (h : (a &&& b).beq 0 = true) :
    ¬Has b terminal := by
  intro hb
  have hand := has_and_iff.mpr ⟨ha, hb⟩
  rw [Nat.eq_of_beq_eq_true h] at hand
  simp [Has] at hand

def operandStarts : List Terminal :=
  [.falseWord, .fnWord, .ident, .lpar, .minus, .nilWord, .notWord, .number, .string, .trueWord]

/-- The terminals that a phrase of a nonterminal may start with; a program may be empty. -/
def starts : Nonterminal → List Terminal
  | .program => []
  | .statement | .statements =>
    [.breakWord, .continueWord, .forWord, .ifWord, .loopWord, .returnWord, .whileWord] ++
      operandStarts
  | .assignStatement | .assignment | .call | .parameters => [.ident]
  | .returnStatement => [.returnWord]
  | .breakStatement => [.breakWord]
  | .continueStatement => [.continueWord]
  | .ifStatement => [.ifWord]
  | .elseIfClause | .elseClause | .elseIfClauses => [.elseWord]
  | .whileStatement => [.whileWord]
  | .loopStatement => [.loopWord]
  | .forStatement => [.forWord]
  | .block => [.lbrace]
  | .function => [.fnWord]
  | .logicalTail => [.andWord, .orWord]
  | .equalityTail => [.eq, .ne]
  | .relationalTail => [.le, .ge, .lt, .gt]
  | .additiveTail => [.plus, .minus]
  | .multiplicativeTail => [.star, .slash, .percent]
  | .argumentsTail | .parametersTail => [.comma]
  | .expressionStatement | .expression | .logical | .equality | .relational | .additive
  | .multiplicative | .unary | .primary | .arguments => operandStarts

def firstOf : GrammarSymbol → List Terminal
  | .t terminal => [terminal]
  | .n nonterminal => starts nonterminal

/-- No right-hand side mentions the whole program, and what it starts with starts the left-hand
side too. -/
def startsChecked (production : Production) : Bool :=
  production.rhs.all (· != .n .program) &&
    (production.lhs = .program ||
      match production.rhs with
      | [] => false
      | symbol :: _ => isWithin (bits (firstOf symbol)) (bits (starts production.lhs)))

theorem startsChecked_of_mem (h : production ∈ Grammar.productions) :
    startsChecked production = true := by
  have hall : Grammar.productions.toList.all startsChecked = true := by decide +kernel
  exact List.all_eq_true.mp hall production (Array.mem_def.mp h)

/-- Whether an identifier in a state may turn out to be the name of an assignment. -/
def beginsStatement (state : Nat) : Bool := [0, 18, 49, 90].contains state

def isOperand : Nonterminal → Bool
  | .expression | .logical | .equality | .relational | .additive | .multiplicative | .unary
  | .primary | .call | .function => true
  | _ => false

def rowOf (state : Nat) : Option Row := rows.toList[state]?

theorem rowOf_eq (state : Nat) : rowOf state = rows[state]? := Array.getElem?_toList

theorem row_start : rows[0]? = some ((statementRow.completing atEnd 1).adding []
    [(.statements, 18), (.program, accepting), (.statement, 38)]) := by
  rw [← rowOf_eq, rowOf, rows]
  rfl

def acceptedIn (state : Nat) : List Terminal :=
  if state = accepting then [.endOfInput]
  else
    match rowOf state with
    | none => []
    | some row => row.shifts.map Prod.fst ++ (row.reduction.map Prod.fst).getD []

/-- The terminals that may follow a nonterminal expected in one state and leading to another: those
accepted there. At the start of a statement only those that can follow an identifier. -/
def follow (state : Nat) (nonterminal : Nonterminal) (next : Nat) : Nat :=
  if beginsStatement state && isOperand nonterminal then
    bits (acceptedIn next) &&& bits afterLeadingIdent
  else bits (acceptedIn next)

/-- Whether the rest of a production can be read from a state and the production is then reduced
on every terminal of a set. -/
def reads (after place : Nat) : Nat → List GrammarSymbol → Bool
  | state, [] =>
    match rowOf state with
    | some ⟨some (lookahead, reduced), shifts, _⟩ =>
      reduced.beq place && isWithin after (bits lookahead) &&
        (after &&& bits (shifts.map Prod.fst)).beq 0 && state != accepting
    | _ => false
  | state, .t terminal :: rest =>
    match rowOf state with
    | none => false
    | some row =>
      match row.shifts.lookup terminal with
      | none => false
      | some next => state != accepting && reads after place next rest
  | state, .n nonterminal :: rest =>
    match rowOf state with
    | none => false
    | some row =>
      match row.gotos.lookup nonterminal with
      | none => false
      | some next =>
        isWithin (match rest with | [] => after | symbol :: _ => bits (firstOf symbol))
          (follow state nonterminal next) && reads after place next rest

def productionsOf (nonterminal : Nonterminal) : List (Production × Nat) :=
  Grammar.productions.toList.zipIdx.filter (·.1.lhs = nonterminal)

def readsAll (state : Nat) (row : Row) : Bool :=
  row.gotos.all fun (nonterminal, next) =>
    (productionsOf nonterminal).all fun (production, place) =>
      reads (follow state nonterminal next) place state production.rhs

theorem readsAll_rows :
    (rows.toList.zipIdx.all fun (row, state) => readsAll state row) = true := by
  decide +kernel

def Follows (state : Nat) (nonterminal : Nonterminal) (terminal : Terminal) : Prop :=
  ∃ next, goto state nonterminal = some next ∧ Has (follow state nonterminal next) terminal

/-- A terminal may come next when some symbols and then another terminal are still to come. -/
def ComesNext (terminal : Terminal) : List GrammarSymbol → Terminal → Prop
  | [], other => other = terminal
  | symbol :: _, other => other ∈ firstOf symbol

/-- The rest of a production can be read from a state, and the production is then reduced on the
given terminal. -/
def Covers (production : Production) (terminal : Terminal) : Nat → List GrammarSymbol → Prop
  | state, [] => action state terminal = some (.reduce production)
  | state, symbol :: rest => ∃ next, move state symbol = some next ∧
      (∀ nonterminal, symbol = .n nonterminal → ∀ other, ComesNext terminal rest other →
        Follows state nonterminal other) ∧ Covers production terminal next rest

theorem action_eq_reduce {row : Row} {lookahead : List Terminal} (hs : state ≠ accepting)
    (hr : rows[state]? = some row) (hred : row.reduction = some (lookahead, place))
    (hp : Grammar.productions[place]? = some production) (hl : terminal ∈ lookahead)
    (hn : terminal ∉ row.shifts.map Prod.fst) :
    action state terminal = some (.reduce production) := by
  have hlookup : row.shifts.lookup terminal = none := by
    rw [List.lookup_eq_none_iff]
    rintro ⟨other, target⟩ hm
    have hne : other ≠ terminal := fun he => hn (List.mem_map.mpr ⟨_, hm, he⟩)
    simpa using hne.symm
  have hc : lookahead.contains terminal = true := List.contains_iff_mem.mpr hl
  simp only [action, if_neg hs, hr, Option.bind_some, hlookup, hred, hc, if_true, hp,
    Option.map_some]

theorem action_eq_shift {row : Row} (hs : state ≠ accepting) (hr : rows[state]? = some row)
    (hl : row.shifts.lookup terminal = some next) :
    action state terminal = some (.shift next) := by
  simp only [action, if_neg hs, hr, Option.bind_some, hl]

theorem covers_of_reads {after : Nat} {rest : List GrammarSymbol}
    (hp : Grammar.productions[place]? = some production) (ha : Has after terminal)
    (h : reads after place state rest = true) : Covers production terminal state rest := by
  induction rest generalizing state with
  | nil =>
    unfold reads at h
    split at h
    next lookahead reduced shifts gotos hr =>
      simp only [Bool.and_eq_true, bne_iff_ne] at h
      obtain ⟨⟨⟨hplace, hin⟩, hout⟩, hs⟩ := h
      obtain rfl := Nat.eq_of_beq_eq_true hplace
      rw [rowOf_eq] at hr
      apply action_eq_reduce hs hr rfl hp (has_bits_iff.mp (ha.of_isWithin hin))
      exact fun hm => ha.not_of_disjoint hout (has_bits_iff.mpr hm)
    next => cases h
  | cons symbol rest ih =>
    cases symbol with
    | t a =>
      unfold reads at h
      split at h
      next => cases h
      next row hr =>
        rw [rowOf_eq] at hr
        split at h
        next => cases h
        next next hl =>
          simp only [Bool.and_eq_true, bne_iff_ne] at h
          exact ⟨next, move_t_iff.mpr (action_eq_shift h.1 hr hl), nofun, ih h.2⟩
    | n b =>
      unfold reads at h
      split at h
      next => cases h
      next row hr =>
        rw [rowOf_eq] at hr
        split at h
        next => cases h
        next next hl =>
          rw [Bool.and_eq_true] at h
          have hg : goto state b = some next := goto_eq_some_iff.mpr ⟨row, hr, hl⟩
          refine ⟨next, hg, ?_, ih h.2⟩
          rintro _ ⟨⟩ other hn
          refine ⟨next, hg, Has.of_isWithin ?_ h.1⟩
          cases rest with
          | nil => exact hn ▸ ha
          | cons symbol rest => exact has_bits_iff.mpr hn

theorem covers_of_follows (hf : Follows state production.lhs terminal)
    (hp : production ∈ Grammar.productions) :
    Covers production terminal state production.rhs := by
  obtain ⟨next, hg, hb⟩ := hf
  obtain ⟨row, hr, hl⟩ := goto_eq_some_iff.mp hg
  obtain ⟨place, hplace⟩ := List.mem_iff_getElem?.mp (Array.mem_def.mp hp)
  have hall := of_zipIdx readsAll_rows hr
  simp only [readsAll, List.all_eq_true] at hall
  have hm : (production, place) ∈ productionsOf production.lhs := by
    refine List.mem_filter.mpr ⟨List.mem_zipIdx_iff_getElem?.mpr hplace, by simp⟩
  exact covers_of_reads (Array.getElem?_toList ▸ hplace) hb (hall _ (mem_of_lookup hl) _ hm)

end ScriptLang.Table
