import ScriptLang.Proofs.Grammar.Acceptance

/-! # Pending productions

In every state there is a production that can be completed without looking at what comes next: the
one that the state reduces by, or else one of those that have been read furthest. The state below
its symbols on the stack expects its nonterminal, so a reduction never fails.
-/

namespace ScriptLang

namespace Table

variable {state next place dot : Nat} {row : Row} {production : Production}
  {symbol : GrammarSymbol} {terminal : Terminal}

/-- The production to complete in a state, by its place, and the number of its symbols that have
been read. When the whole input has been read there is none. -/
def pendingIn (state : Nat) (row : Row) : Option (Nat × Nat) :=
  match row.reduction with
  | some (_, place) => Grammar.productions.toList[place]?.map (place, ·.rhs.length)
  | none => if state = accepting then none else cores[state]?

def Pending (state : Nat) (production : Production) (dot : Nat) : Prop :=
  ∃ row place, rows[state]? = some row ∧ pendingIn state row = some (place, dot) ∧
    Grammar.productions[place]? = some production

theorem Pending.mem (h : Pending state production dot) : production ∈ Grammar.productions := by
  obtain ⟨_, _, _, _, hp⟩ := h
  exact Array.mem_of_getElem? hp

theorem pending_of_reduce (h : action state terminal = some (.reduce production)) :
    Pending state production production.rhs.length := by
  obtain ⟨row, _, place, hr, hred, hp⟩ := action_reduce h
  refine ⟨row, place, hr, ?_, hp⟩
  simp [pendingIn, hred, hp]

def isRest : GrammarSymbol → Bool
  | .t terminal => terminal = .ident || terminal.spelling?.isSome
  | .n nonterminal =>
    [.block, .expression, .equality, .relational, .additive, .multiplicative, .unary].contains
      nonterminal

/-- Whether the pending production of a state fits what has been read. Nothing has been read of it
only in the initial state, and one symbol only if its nonterminal has a smaller rank. -/
def pends (state : Nat) (row : Row) : Bool :=
  match pendingIn state row with
  | none => state = accepting
  | some (place, dot) =>
    match Grammar.productions.toList[place]? with
    | none => false
    | some production =>
      past state = (production.rhs.take dot).reverse && dot ≤ production.rhs.length &&
        (production.rhs.drop dot).all isRest &&
        match production.rhs.take dot with
        | [] => state = 0 && production.lhs = .program
        | [symbol] => rank (.n production.lhs) < rank symbol
        | _ => true

theorem pends_rows : (rows.toList.zipIdx.all fun (row, state) => pends state row) = true := by
  decide +kernel

theorem exists_pending (hr : rows[state]? = some row) (hs : state ≠ accepting) :
    ∃ production dot, Pending state production dot := by
  have hc := of_zipIdx pends_rows hr
  unfold pends at hc
  split at hc
  next => exact absurd (by simpa using hc) hs
  next place dot hp =>
    split at hc
    next => cases hc
    next production hplace =>
      exact ⟨production, dot, row, place, hr, hp, by rwa [← Array.getElem?_toList]⟩

structure Fits (state : Nat) (production : Production) (dot : Nat) : Prop where
  past : past state = (production.rhs.take dot).reverse
  le : dot ≤ production.rhs.length
  rest : ∀ symbol ∈ production.rhs.drop dot, isRest symbol = true
  start : production.rhs.take dot = [] → state = 0 ∧ production.lhs = .program
  climbs (symbol : GrammarSymbol) : production.rhs.take dot = [symbol] →
    rank (.n production.lhs) < rank symbol

theorem Pending.fits (h : Pending state production dot) : Fits state production dot := by
  obtain ⟨row, place, hr, hp, hplace⟩ := h
  have hc := of_zipIdx pends_rows hr
  simp only [pends, hp, Array.getElem?_toList, hplace, Bool.and_eq_true, decide_eq_true_eq,
    List.all_eq_true] at hc
  obtain ⟨⟨⟨hpast, hle⟩, hrest⟩, hread⟩ := hc
  refine ⟨hpast, hle, hrest, fun hnil => ?_, fun symbol hone => ?_⟩
  · simpa [hnil] using hread
  · simpa [hone] using hread

/-- The other productions that have been begun in a state, where there are any. -/
def moreItems : List (Nat × List (Nat × Nat)) :=
  [(4, [(63, 1)]), (5, [(25, 1), (26, 1), (27, 1), (28, 1), (29, 1), (30, 1), (31, 1)]),
    (6, [(12, 1), (59, 1), (60, 1)]), (7, [(17, 1), (18, 1), (19, 1)]), (14, [(13, 1)]),
    (18, [(68, 1)]), (19, [(41, 1)]), (24, [(37, 1)]), (33, [(43, 1)]), (35, [(39, 1)]),
    (39, [(45, 1)]), (43, [(63, 2)]),
    (44, [(25, 2), (26, 2), (27, 2), (28, 2), (29, 2), (30, 2), (31, 2)]), (46, [(59, 2)]),
    (47, [(59, 1), (60, 1)]), (48, [(17, 2), (18, 2), (19, 2)]), (49, [(34, 1)]),
    (62, [(83, 1), (84, 1), (85, 1), (86, 1)]), (66, [(73, 1), (74, 1)]), (70, [(89, 1), (90, 1)]),
    (73, [(77, 1), (78, 1)]), (77, [(94, 1), (95, 1), (96, 1)]), (78, [(65, 1)]),
    (82, [(29, 3), (30, 3), (31, 3)]), (83, [(25, 3), (26, 3), (27, 3)]), (87, [(61, 1)]),
    (88, [(17, 3), (18, 3), (19, 3)]), (90, [(68, 1)]), (121, [(100, 1)]), (124, [(31, 4)]),
    (125, [(29, 4)]), (126, [(25, 4), (26, 4), (27, 4)]), (129, [(98, 1)]), (130, [(21, 1)]),
    (131, [(17, 4), (70, 1)]), (153, [(29, 5)]), (154, [(27, 5)]), (155, [(25, 5)]),
    (169, [(25, 6)])]

def itemsOf (state : Nat) (row : Row) : List (Nat × Nat) :=
  (pendingIn state row).toList ++ (moreItems.lookup state).getD []

/-- Whether a state is right for a production after one more symbol: it has begun the production,
or it expects the nonterminal if this is the first symbol. -/
def awaits (state : Nat) (row : Row) (place dot : Nat) : Bool :=
  match dot with
  | 0 => true
  | 1 =>
    match Grammar.productions.toList[place]? with
    | none => false
    | some production => (row.gotos.lookup production.lhs).isSome
  | dot + 1 => (itemsOf state row).contains (place, dot)

def awaitsAll (state : Nat) (row : Row) (next : Nat) : Bool :=
  match rowOf next with
  | none => false
  | some target => (itemsOf next target).all fun (place, dot) => awaits state row place dot

def movesAwait (state : Nat) (row : Row) : Bool :=
  (row.shifts.all fun (_, next) => awaitsAll state row next) &&
    row.gotos.all fun (_, next) => awaitsAll state row next

theorem movesAwait_rows :
    (rows.toList.zipIdx.all fun (row, state) => movesAwait state row) = true := by
  decide +kernel

def Begun (state place dot : Nat) : Prop :=
  ∃ row, rows[state]? = some row ∧ (place, dot) ∈ itemsOf state row

theorem begun_of_pendingIn (hr : rows[state]? = some row)
    (h : pendingIn state row = some (place, dot)) : Begun state place dot :=
  ⟨row, hr, List.mem_append_left _ (by simp [h])⟩

theorem awaitsAll_of_move (h : move state symbol = some next) :
    ∃ row, rows[state]? = some row ∧ awaitsAll state row next = true := by
  cases symbol with
  | t terminal =>
    obtain ⟨row, hr, hl⟩ := action_shift (move_t_iff.mp h)
    have hall := of_zipIdx movesAwait_rows hr
    simp only [movesAwait, Bool.and_eq_true, List.all_eq_true] at hall
    exact ⟨row, hr, hall.1 _ (mem_of_lookup hl)⟩
  | n nonterminal =>
    obtain ⟨row, hr, hl⟩ := goto_eq_some_iff.mp h
    have hall := of_zipIdx movesAwait_rows hr
    simp only [movesAwait, Bool.and_eq_true, List.all_eq_true] at hall
    exact ⟨row, hr, hall.2 _ (mem_of_lookup hl)⟩

theorem exists_row (h : move state symbol = some next) : ∃ row, rows[next]? = some row := by
  obtain ⟨row, -, hc⟩ := awaitsAll_of_move h
  unfold awaitsAll at hc
  split at hc
  next => cases hc
  next target ht => exact ⟨target, by rwa [← rowOf_eq]⟩

theorem awaits_of_move (h : move state symbol = some next) (hb : Begun next place dot) :
    ∃ row, rows[state]? = some row ∧ awaits state row place dot = true := by
  obtain ⟨row, hr, hc⟩ := awaitsAll_of_move h
  obtain ⟨target, ht, hm⟩ := hb
  simp only [awaitsAll, rowOf_eq, ht, List.all_eq_true] at hc
  exact ⟨row, hr, hc _ hm⟩

end Table

namespace Derivation

open Table (Pending Begun goto)

variable {stack : Stack} {production : Production} {dot : Nat} {terminal : Terminal}

theorem Built.exists_row (h : Built stack) : ∃ row, Table.rows[state stack]? = some row := by
  cases h with
  | nil => exact ⟨_, Table.row_start⟩
  | cons _ _ hm => exact Table.exists_row hm

/-- The state before a production that has been begun expects its nonterminal. -/
theorem Built.goto_of_begun {place : Nat} (h : Built stack) (hb : Begun (state stack) place dot)
    (hp : Grammar.productions[place]? = some production) (hd : 0 < dot) (hle : dot ≤ stack.length) :
    ∃ target, goto (state (stack.drop dot)) production.lhs = some target := by
  induction h generalizing dot with
  | nil => exact absurd (Nat.lt_of_lt_of_le hd hle) (Nat.lt_irrefl 0)
  | @cons below next tree _ _ hm ih =>
    obtain ⟨row, hr, ha⟩ := Table.awaits_of_move hm hb
    match dot, hd with
    | 1, _ =>
      simp only [Table.awaits, Array.getElem?_toList, hp] at ha
      obtain ⟨target, htarget⟩ := Option.isSome_iff_exists.mp ha
      exact ⟨target, Table.goto_eq_some_iff.mpr ⟨row, hr, htarget⟩⟩
    | dot + 2, _ =>
      have hbegun : Begun (state below) place (dot + 1) := ⟨row, hr, List.contains_iff_mem.mp ha⟩
      exact ih hbegun (Nat.succ_pos dot) (Nat.le_of_succ_le_succ hle)

/-- What has been read of a pending production is on top of the stack. -/
theorem Built.roots_pending (h : Built stack) (hp : Pending (state stack) production dot) :
    roots (stack.take dot) = (production.rhs.take dot).reverse ∧ dot ≤ stack.length := by
  have hfits := hp.fits
  have hpast := h.past_prefix
  rw [hfits.past] at hpast
  have hlen : (production.rhs.take dot).reverse.length = dot := by
    rw [List.length_reverse, List.length_take_of_le hfits.le]
  constructor
  · have htake := List.prefix_iff_eq_take.mp hpast
    rw [hlen] at htake
    rw [htake, roots, roots, List.map_take]
  · have hle := hpast.length_le
    rwa [hlen, roots, List.length_map] at hle

theorem Built.exists_goto (h : Built stack) (hp : Pending (state stack) production dot) :
    ∃ target, goto (state (stack.drop dot)) production.lhs = some target := by
  obtain ⟨-, hle⟩ := h.roots_pending hp
  have hfits := hp.fits
  obtain ⟨row, place, hr, hpending, hplace⟩ := hp
  rcases Nat.eq_zero_or_pos dot with rfl | hd
  · obtain ⟨hstate, hlhs⟩ := hfits.start rfl
    rw [List.drop_zero, hstate, hlhs]
    exact ⟨Table.accepting, Table.goto_eq_some_iff.mpr ⟨_, Table.row_start, rfl⟩⟩
  · exact h.goto_of_begun (Table.begun_of_pendingIn hr hpending) hplace hd hle

/-- A reduction that the table asks for is possible. -/
theorem Built.exists_reduced (h : Built stack)
    (ha : Table.action (state stack) terminal = some (.reduce production)) :
    ∃ reduced, Derivation.reduce production stack = some reduced := by
  obtain ⟨target, hg⟩ := h.exists_goto (Table.pending_of_reduce ha)
  exact ⟨_, reduce_eq_some_iff.mpr ⟨target, hg, rfl⟩⟩

end Derivation

end ScriptLang
