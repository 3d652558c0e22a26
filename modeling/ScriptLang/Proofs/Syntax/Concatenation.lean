import ScriptLang.Proofs.Grammar.Resuming
import ScriptLang.Proofs.Syntax.Insertion

/-! # One program after another

Two source texts that parse still do with a line break between them, and the statements of the
second one follow those of the first. After a block the machine accepts more tokens than at the
start of a text, but none that could be taken for the first token of a statement.
-/

namespace ScriptLang

open Derivation Lexeme

variable {accepts : Terminal → Bool} {states : List Nat} {stack : Stack} {index n next : Nat}
  {text : List Char} {tokens : List Token} {tree : Tree} {terminal : Terminal}

/-- No other fixed word has the same beginning as one that a statement starts with. -/
theorem startShifts_spellings : ∀ entry ∈ Table.startShifts, ∀ other ∈ Terminal.fixed,
    other = entry.1 ∨ ∀ word ∈ entry.1.spelling?, ∀ spelling ∈ other.spelling?,
      ¬word.toList <+: spelling.toList ∧ ¬spelling.toList <+: word.toList := by
  decide

theorem startShifts_literals (hm : terminal ∈ [Terminal.ident, .number, .string]) :
    Table.accepts 0 terminal = true := by
  have hall : ∀ terminal ∈ [Terminal.ident, .number, .string],
      (Table.startShifts.lookup terminal).isSome = true := by decide
  obtain ⟨next, hl⟩ := Option.isSome_iff_exists.mp (hall terminal hm)
  rw [Table.accepts, Table.action_start_iff.mpr hl, Option.isSome_some]

/-- What is admitted somewhere but not at the start of a text is a fixed word. -/
theorem mem_fixed_of_not_admits {other : Lexeme} (ho : other ∈ order)
    (h : ¬other.admits (Table.accepts 0) = true) :
    ∃ terminal ∈ Terminal.fixed, other = .token terminal := by
  cases other with
  | token terminal =>
    refine ⟨terminal, ?_, rfl⟩
    cases terminal with
    | ident | number | string => exact absurd (startShifts_literals (by decide)) h
    | endOfInput => exact absurd ho (by decide)
    | _ => decide
  | _ => exact absurd rfl h

theorem prefix_of_length? (hm : terminal ∈ Terminal.fixed)
    (h : (token terminal).length? text = some n) :
    ∃ spelling ∈ terminal.spelling?, spelling.toList <+: text := by
  simp only [length?, terminalLength_fixed hm, Option.bind_eq_some_iff,
    Option.ite_none_right_eq_some, List.isPrefixOf_iff_prefix] at h
  obtain ⟨spelling, hs, hp, -⟩ := h
  exact ⟨spelling, hs, hp⟩

theorem standsFirst_of_start (h : StandsFirst (Table.accepts 0) text (.token terminal) n)
    (hs : Table.action 0 terminal = some (.shift next)) (ha : accepts terminal = true) :
    StandsFirst accepts text (.token terminal) n := by
  obtain ⟨before, after, ho, -, hl, hbefore⟩ := h
  by_cases hm : terminal ∈ Terminal.fixed
  · refine ⟨before, after, ho, ha, hl, fun other hother _ => ?_⟩
    by_cases hadmits : other.admits (Table.accepts 0) = true
    · exact hbefore other hother hadmits
    · have horder : other ∈ order := ho ▸ List.mem_append_left _ hother
      obtain ⟨earlier, hearlier, rfl⟩ := mem_fixed_of_not_admits horder hadmits
      have hne : earlier ≠ terminal := by
        rintro rfl
        exact hadmits (by simp [admits, Table.accepts, hs])
      have hpair :=
        (startShifts_spellings _ (Table.mem_startShifts hs) earlier hearlier).resolve_left hne
      by_contra hstands
      obtain ⟨k, hk⟩ := Option.ne_none_iff_exists'.mp hstands
      obtain ⟨word, hword, hprefix⟩ := prefix_of_length? hm hl
      obtain ⟨spelling, hspelling, hprefix'⟩ := prefix_of_length? hearlier hk
      obtain ⟨hnot, hnot'⟩ := hpair word hword spelling hspelling
      exact (List.prefix_or_prefix_of_prefix hprefix hprefix').elim hnot hnot'
  · exact standsFirst_of_length? (by simpa [Lexeme.isFixed] using hm) ha hl

theorem Derivation.Lexes.resume {states' : List Nat} (h : Lexes states index text tokens)
    (hp : states = path stack) (hb : Built stack) (hr : Reads stack tokens tree)
    (hs : Resumes stack states') : Lexes states' index text tokens := by
  induction h generalizing stack states' with
  | done => exact .done
  | trivia hfirst ht _ ih =>
    subst hp
    have haccepts := funext hs.accepts
    rw [headD_path, ← haccepts] at hfirst
    exact .trivia hfirst ht (ih rfl hb hr hs)
  | token hfirst hk _ ih =>
    subst hp
    have haccepts := funext hs.accepts
    rw [headD_path, ← haccepts] at hfirst
    cases hr with
    | shift hshift hr =>
      obtain ⟨taken, htakes, hresumes⟩ := hs.takes hb hshift
      exact .token hfirst htakes (ih (hk.unique hshift.takes) (hshift.built hb).1 hr hresumes)

theorem Derivation.Lexes.resume_start (h : Lexes [] index text tokens) (hr : Reads [] tokens tree)
    (hs : ∀ terminal next, Table.action 0 terminal = some (.shift next) →
      Takes states terminal [next, Table.resting]) : Lexes states index text tokens := by
  generalize hnil : ([] : List Nat) = start at h
  induction h with
  | done => exact .done
  | @trivia _ _ _ _ _ lexeme hfirst ht _ ih =>
    obtain ⟨_, _, _, _, hl, _⟩ := hfirst
    cases lexeme with
    | token => cases ht
    | _ => exact .trivia (standsFirst_of_length? rfl rfl hl) rfl (ih hr hnil)
  | @token _ taken index n text tokens terminal hfirst hk h ih =>
    subst hnil
    have hend : terminal ≠ .endOfInput := by
      rintro rfl
      obtain ⟨_, _, _, _, hl, _⟩ := hfirst
      cases hl
    cases hr with
    | shift hshift hr =>
      cases hshift with
      | @shift _ next ha =>
        have htakes := hs terminal next ha
        have hresumes : Resumes [(next, .leaf ⟨terminal, String.ofList (text.take n), index⟩)]
            [next, Table.resting] := .above (.base (by simp [Table.outer]))
        have hbuilt := (Shifts.shift ha).built .nil
        have hrest := h.resume (hk.unique (Shifts.shift ha).takes) hbuilt.1 hr hresumes
        exact .token (standsFirst_of_start hfirst ha htakes.accepts) htakes hrest
      | reduce ha =>
        obtain ⟨_, hshift⟩ := Table.shift_of_start ha hend
        cases hshift

theorem Derivation.Lexes.passes (h : Lexes states index text tokens) (hp : states = path stack)
    (hb : Built stack) (hr : Reads stack tokens tree) (hs : state stack ≠ Table.accepting) :
    ∃ final, Passes (path final) [] True states index text tokens ∧ Built final ∧
      Finishes final tree ∧ state final ≠ Table.accepting := by
  induction h generalizing stack with
  | done =>
    subst hp
    cases hr with
    | finish hf => exact ⟨stack, .here, hb, hf, hs⟩
  | @trivia states index n text tokens lexeme hfirst ht _ ih =>
    obtain ⟨final, hpass, hfinal⟩ := ih hp hb hr hs
    rw [← List.append_nil text] at hfirst
    have hle : n ≤ text.length := by simpa using hfirst.bounds.2
    exact ⟨final, .trivia hfirst ht hle (fun _ _ => trivial) hpass, hfinal⟩
  | @token states taken index n text tokens terminal hfirst hk _ ih =>
    subst hp
    cases hr with
    | shift hshift hr =>
      obtain ⟨final, hpass, hfinal⟩ :=
        ih (hk.unique hshift.takes) (hshift.built hb).1 hr hshift.state_ne_accepting
      rw [← List.append_nil text] at hfirst
      have hle : n ≤ text.length := by simpa using hfirst.bounds.2
      exact ⟨final, .token hfirst hk hle hpass, hfinal⟩

namespace Lowers

variable {tree tree' : Tree} {nodes nodes' : List Node}

theorem Statements.root_eq (h : Statements tree nodes) : tree.root = .n .statements := by
  cases h <;> rfl

theorem root_of_last {rhs : List GrammarSymbol} {children : List Tree} {last : Tree}
    (hv : (Tree.node ⟨.statements, rhs⟩ children).Valid) (hl : children.getLast? = some last) :
    last.root = .n .statement := by
  have hall : ∀ rhs ∈ Nonterminal.statements.expansions, rhs.getLast? = some (.n .statement) := by
    decide
  obtain ⟨hp, hroots, -⟩ := hv.children
  have hlast := hall _ (rhs_mem_expansions hp)
  rw [← hroots, List.getLast?_map, hl] at hlast
  exact Option.some.inj hlast

theorem Statements.snoc {last : Tree} {node : Node} (h : Statements tree nodes) (hv : tree.Valid)
    (hl : Statement last node) (hvl : last.Valid) (hr : last.root = .n .statement) :
    ∃ joined : Tree, joined.Valid ∧ joined.tokens = tree.tokens ++ last.tokens ∧
      Statements joined (nodes ++ [node]) := by
  refine ⟨.node ⟨.statements, [.n .statements, .n .statement]⟩ [tree, last], ?_, ?_, .more h hl⟩
  · apply Tree.Valid.node (mem_productions (by decide))
    · simp [h.root_eq, hr]
    · simp [hv, hvl]
  · simp [Tree.tokens, Tree.forestTokens]

theorem Statements.append (h : Statements tree nodes) (hv : tree.Valid) :
    {tree' : Tree} → {nodes' : List Node} → Statements tree' nodes' → tree'.Valid →
      ∃ joined : Tree, joined.Valid ∧ joined.tokens = tree.tokens ++ tree'.tokens ∧
        Statements joined (nodes ++ nodes')
  | _, _, .one hs, hv' => by
    obtain ⟨joined, hvj, htj, hj⟩ :=
      h.snoc hv hs (hv'.children.2.2 _ (by simp)) (root_of_last hv' rfl)
    exact ⟨joined, hvj, by simpa [Tree.tokens, Tree.forestTokens] using htj, hj⟩
  | _, _, .more hb hs, hv' => by
    obtain ⟨before, hvb, htb, hbefore⟩ := h.append hv hb (hv'.children.2.2 _ (by simp))
    obtain ⟨joined, hvj, htj, hj⟩ :=
      hbefore.snoc hvb hs (hv'.children.2.2 _ (by simp)) (root_of_last hv' rfl)
    rw [List.append_assoc] at hj
    exact ⟨joined, hvj, by simp [htj, htb, Tree.tokens, Tree.forestTokens], hj⟩

theorem program_of_statements (h : Statements tree nodes) (hv : tree.Valid) :
    ∃ program : Tree, program.Valid ∧ program.root = .n .program ∧ program.tokens = tree.tokens ∧
      Program program (.program nodes) := by
  refine ⟨.node ⟨.program, [.n .statements]⟩ [tree], ?_, rfl, ?_, .mk (.some h)⟩
  · apply Tree.Valid.node (mem_productions (by decide))
    · simp [h.root_eq]
    · simp [hv]
  · simp [Tree.tokens, Tree.forestTokens]

theorem Program.append (h : Program tree (.program nodes)) (hv : tree.Valid)
    (h' : Program tree' (.program nodes')) (hv' : tree'.Valid) :
    ∃ joined : Tree, joined.Valid ∧ joined.root = .n .program ∧
      joined.tokens = tree.tokens ++ tree'.tokens ∧
        Program joined (.program (nodes ++ nodes')) := by
  obtain @⟨_, body, _, hbody⟩ := h
  obtain @⟨_, body', _, hbody'⟩ := h'
  cases hbody with
  | none => exact ⟨_, hv', rfl, rfl, .mk hbody'⟩
  | some hs =>
    cases hbody' with
    | none =>
      refine ⟨_, hv, rfl, by simp [Tree.tokens, Tree.forestTokens], ?_⟩
      rw [List.append_nil]
      exact .mk (.some hs)
    | some hs' =>
      obtain ⟨joined, hvj, htj, hj⟩ :=
        hs.append (hv.children.2.2 _ (by simp)) hs' (hv'.children.2.2 _ (by simp))
      obtain ⟨program, hvp, hrp, htp, hp⟩ := program_of_statements hj hvj
      refine ⟨program, hvp, hrp, ?_, hp⟩
      simp [htp, htj, Tree.tokens, Tree.forestTokens]

end Lowers

variable {first second : String} {nodes nodes' : List Node}

theorem exists_nodes_of_parse {program : Node} (h : parse first = .ok program) :
    ∃ nodes, program = .program nodes := by
  obtain ⟨_, _, _, _, hp⟩ := parse_eq_ok_iff.mp h
  cases hp with
  | mk => exact ⟨_, rfl⟩

theorem Derives.reads {source : String} (h : Derives source tokens tree) :
    Reads [] tokens tree :=
  reads_iff.mpr ⟨h.valid, h.root, h.tokens_eq⟩

/-- Two texts with a line break between them split into the tokens of both. -/
theorem Derives.lexes_append {tokens' : List Token} {tree' : Tree} (h : Derives first tokens tree)
    (h' : Derives second tokens' tree') :
    Lexes [] 0 (first ++ "\n" ++ second).toList
      (tokens ++ tokens'.map (Token.moved (· + (first.toList.length + 1)))) := by
  obtain ⟨final, hpass, hbuilt, hfinishes, hne⟩ := h.lexes.passes rfl .nil h.reads (by decide)
  have hsecond : Lexes (path final) 0 second.toList tokens' := by
    rcases eq_or_ne final [] with rfl | hfinal
    · exact h'.lexes
    · exact h'.lexes.resume_start h'.reads fun _ _ => hfinishes.settles hbuilt hfinal hne
  have hmoved := hsecond.moved (first.toList.length + 1)
  have hbreak : isBlank '\n' = true := by decide
  have hsplit : (first ++ "\n" ++ second).toList = first.toList ++ '\n' :: second.toList := by simp
  rw [hsplit]
  refine hpass.lexes ?_ ?_ ((lexes_blank_iff hbreak).mpr ?_)
  · rintro c ⟨⟩
    exact hbreak
  · rintro - c ⟨⟩
    rfl
  · rwa [← Nat.add_assoc] at hmoved

/-- The statements of two texts with a line break between them are those of the first and then
those of the second. -/
theorem parse_append (h : parse first = .ok (.program nodes))
    (h' : parse second = .ok (.program nodes')) :
    parse (first ++ "\n" ++ second) = .ok (.program (nodes ++ nodes')) := by
  obtain ⟨tokens, tree, hd, hg, hp⟩ := parse_eq_ok_iff.mp h
  obtain ⟨tokens', tree', hd', hg', hp'⟩ := parse_eq_ok_iff.mp h'
  have hlex := hd.lexes_append hd'
  generalize (· + (first.toList.length + 1)) = place at hlex
  have hp'' : Lowers.Program (tree'.moved place) (.program nodes') := hp'.moved
  obtain ⟨joined, hv, hr, ht, hj⟩ := hp.append hd.valid hp'' hd'.valid.moved
  rw [Tree.tokens_moved, hd.tokens_eq, hd'.tokens_eq] at ht
  refine parse_eq_ok_iff.mpr ⟨_, joined, ⟨hlex, hv, hr, ht⟩, ?_, hj⟩
  intro token hm
  rcases List.mem_append.mp hm with hm | hm
  · exact hg token hm
  · obtain ⟨original, horiginal, rfl⟩ := List.mem_map.mp hm
    exact hg' original horiginal

end ScriptLang
