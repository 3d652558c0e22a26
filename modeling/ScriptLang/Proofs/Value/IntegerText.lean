import ScriptLang.Proofs.Eval.Operations
import ScriptLang.Proofs.Syntax.NumberForms
import ScriptLang.Proofs.Value.IntegerArithmetic

/-! # Integers as texts

The conversion of texts to integers and the parser are two readers of the same digits. They agree on
every text of a sign and digits, also on those that stand for no integer of 64 bits or are too long
to be read, and both read what is written for an integer as that integer.
-/

namespace ScriptLang

open DecimalDigit Lexeme Derivation
open Nonterminal (ofLevel)
open Phrase (ofTree ofForest build)

/-- Tokens around one literal have a derivation that is lowered to a phrase made from the node of the
literal, unless that is bad. -/
def LowersTo (lhs : Nonterminal) (tokens : List Token) (literal : Except BadLiteral Node)
    (phrase : Node → Phrase) : Prop :=
  ∃ tree : Tree, tree.Valid ∧ tree.root = .n lhs ∧ tree.tokens = tokens ∧
    ofTree tree = literal.map phrase

variable {lhs up : Nonterminal} {tokens : List Token} {literal : Except BadLiteral Node}
  {phrase phrase' : Node → Phrase} {token : Token} {level : Nat}

namespace LowersTo

theorem under (h : LowersTo lhs tokens literal phrase)
    (hp : ⟨up, [.n lhs]⟩ ∈ Grammar.productions.toList)
    (hb : ∀ node, build up [phrase node] = .ok (phrase' node)) :
    LowersTo up tokens literal phrase' := by
  obtain ⟨tree, hv, hr, rfl, ho⟩ := h
  refine ⟨.node ⟨up, [.n lhs]⟩ [tree], .node (Array.mem_toList_iff.mp hp) ?_ ?_, rfl, ?_, ?_⟩
  · rw [List.map_singleton, hr]
  · exact List.forall_mem_singleton.mpr hv
  · simp [Tree.tokens, Tree.forestTokens]
  · rw [ofTree, ofForest, ofForest, ho]
    cases literal with
    | ok node => exact hb node
    | error literal => rfl

theorem expression (h : LowersTo (ofLevel level) tokens literal .node) (hl : level ≤ 6) :
    LowersTo .expression tokens literal .node := by
  induction level with
  | zero => exact h.under (by decide) fun _ => rfl
  | succ level ih =>
    obtain ⟨hp, hu⟩ := ofLevel_climbs level hl
    exact ih (h.under hp (Lowers.build_single hu)) (Nat.le_of_succ_le hl)

theorem number (ht : token.terminal = .number) : LowersTo .primary [token]
    ((Literal.number token.text).mapError (⟨token.index, ·⟩)) .node := by
  have hp : [.t .number] ∈ Nonterminal.primary.expansions := by decide
  refine ⟨.node ⟨.primary, [.t .number]⟩ [.leaf token], .node (mem_productions hp) ?_ ?_, rfl, rfl,
    ?_⟩
  · rw [List.map_singleton, Tree.root_leaf, ht]
  · exact List.forall_mem_singleton.mpr (.leaf token)
  · rw [ofTree, Lowers.ofForest_leaf Lowers.ofForest_nil]
    show Phrase.ofToken token = _
    rw [Phrase.ofToken, ht]
    cases Literal.number token.text with
    | ok node => rfl
    | error error => rfl

theorem exprStmt (h : LowersTo .expression tokens literal .node)
    (ht : token.terminal = .semicolon) : LowersTo .expressionStatement (tokens ++ [token]) literal
      fun node => .node (.exprStmt node) := by
  have hp : [.n .expression, .t .semicolon] ∈ Nonterminal.expressionStatement.expansions := by decide
  obtain ⟨tree, hv, hr, rfl, ho⟩ := h
  refine ⟨.node ⟨.expressionStatement, [.n .expression, .t .semicolon]⟩ [tree, .leaf token],
    .node (mem_productions hp) ?_ ?_, rfl, ?_, ?_⟩
  · rw [List.map_cons, List.map_singleton, hr, Tree.root_leaf, ht]
  · exact List.forall_mem_cons.mpr ⟨hv, List.forall_mem_singleton.mpr (.leaf token)⟩
  · simp [Tree.tokens, Tree.forestTokens]
  · rw [ofTree, ofForest, Lowers.ofForest_leaf Lowers.ofForest_nil, ho]
    cases literal with
    | ok node => rfl
    | error literal => rfl

theorem program (h : LowersTo .expression tokens literal .node)
    (ht : token.terminal = .semicolon) : LowersTo .program (tokens ++ [token]) literal
      fun node => .node (.program [.exprStmt node]) := by
  have hstatement : LowersTo .statement (tokens ++ [token]) literal _ :=
    (h.exprStmt ht).under (by decide) fun _ => rfl
  have hstatements : LowersTo .statements (tokens ++ [token]) literal
      fun node => .nodes [.exprStmt node] := hstatement.under (by decide) fun _ => rfl
  exact hstatements.under (by decide) fun _ => rfl

end LowersTo

theorem parse_number {t : String} (h : numberLength (t.toList ++ [';']) = some t.length) :
    parse (t ++ ";") = ((Literal.number t).mapError fun error => .badLiteral ⟨0, error⟩).map
      fun node => .program [.exprStmt node] := by
  let number : Token := ⟨.number, t, 0⟩
  let semicolon : Token := ⟨.semicolon, ";", 0 + t.length⟩
  have hprimary : LowersTo (ofLevel 6) [number] _ .node := .number rfl
  have hprogram : LowersTo .program ([number] ++ [semicolon]) _ _ :=
    (hprimary.expression le_rfl).program rfl
  obtain ⟨tree, hv, hr, ht, ho⟩ := hprogram
  have hreads := reads_of_valid hv hr
  rw [ht, List.singleton_append] at hreads
  have hlexes : Lexes [] 0 (t ++ ";").toList [number, semicolon] := by
    rw [String.toList_append]
    cases hreads with
    | shift hs hrest =>
      have hnumber : StandsFirst (Table.accepts (state [])) (t.toList ++ [';']) (.token .number)
          t.length := standsFirst_of_length? rfl (Shifts.accepts hs) h
      cases hrest with
      | shift hs' _ =>
        have hword : (Word.fixed .semicolon).Legible := .fixed (by decide)
        exact lexes_first hnumber hs (lexes_word hword (by simp [Ends]) hs' .done)
  have hsource := ofSource_eq_ok_iff_derives.mpr ⟨_, hlexes, hv, hr, ht⟩
  rw [parse, hsource]
  simp only [ho]
  cases Literal.number t with
  | ok node => rfl
  | error error => rfl

def integerText (sign : Sign) (digits : Run isAscii) : String :=
  String.ofList ((NumberForm.decimal digits).signedText sign)

def loneInteger (n : Int) : Node :=
  .program [.exprStmt (.literal (.int n) (.str "Integer"))]

variable (sign : Sign) (digits : Run isAscii)

theorem splitInteger?_integerText : Reading.splitInteger? (integerText sign digits).toList =
    some (sign.isNegative, digits.chars) := by
  obtain ⟨c, tail, htext, hc⟩ := digits.first
  have hsplit : Reading.splitSign (integerText sign digits).toList =
      (sign.isNegative, digits.chars) := by
    rw [integerText, String.toList_ofList, NumberForm.signedText, NumberForm.text, htext]
    exact sign.splitSign_append hc
  have hall : digits.chars.all isAscii = true := List.all_eq_true.mpr digits.digits
  rw [Reading.splitInteger?, hsplit]
  simp [hall, digits.ne_nil]

theorem exists_of_splitInteger? {t : String} {negative : Bool} {chars : List Char}
    (h : Reading.splitInteger? t.toList = some (negative, chars)) :
    ∃ sign digits, t = integerText sign digits := by
  have hsign (text : List Char) : ∃ sign : Sign, text = sign.text ++ (Reading.splitSign text).2 := by
    unfold Reading.splitSign
    split
    · exact ⟨.minus, rfl⟩
    · exact ⟨.plus, rfl⟩
    · exact ⟨.none, rfl⟩
  obtain ⟨sign, htext⟩ := hsign t.toList
  obtain ⟨hdigits, -⟩ := Option.ite_none_right_eq_some.mp h
  obtain ⟨hne, hall⟩ := Bool.and_eq_true_iff.mp hdigits
  have hempty := (Bool.not_eq_true' _).mp hne
  refine ⟨sign, ⟨(Reading.splitSign t.toList).2, List.isEmpty_eq_false_iff.mp hempty,
    List.all_eq_true.mp hall⟩, ?_⟩
  rw [integerText, NumberForm.signedText, NumberForm.text, ← htext, String.ofList_toList]

def integerValue : Int := sign.apply (positionalValue 10 digits.chars)

theorem toInteger_integerText : Value.toInteger (.str (integerText sign digits)) =
    if Integer.digitLimit < digits.chars.length then
      .error (.fault (.integerTextTooLong digits.chars.length))
    else Value.exactly (integerValue sign digits) := by
  have hsplit := splitInteger?_integerText sign digits
  rw [Value.toInteger, Value.integerOfText, hsplit]
  dsimp only
  split
  next => rfl
  next hshort =>
    rw [Value.checked_eq_exactly (Value.isShort_of_splitInteger? hsplit (Nat.le_of_not_lt hshort)),
      valueOf_eq_positionalValue]
    rfl

theorem toInteger_eq_nil_iff {t : String} :
    Value.toInteger (.str t) = .ok .nil ↔ ¬∃ sign digits, t = integerText sign digits := by
  constructor
  · rintro h ⟨sign, digits, rfl⟩
    rw [toInteger_integerText] at h
    unfold Value.exactly at h
    split_ifs at h
    cases h
  · intro h
    rw [Value.toInteger, Value.integerOfText]
    split
    next => rfl
    next hsplit => exact absurd (exists_of_splitInteger? hsplit) h

theorem numberLength_integerText : numberLength ((integerText sign digits).toList ++ [';']) =
    some (integerText sign digits).length := by
  rw [integerText, String.toList_ofList, String.length_ofList]
  apply numberLength_eq_some_iff.mpr
  apply longestNumber_append
  rintro _ ⟨⟩
  decide

theorem parse_integerText : parse (integerText sign digits ++ ";") =
    if Integer.digitLimit < digits.chars.length then
      .error (.badLiteral ⟨0, .tooManyDigits digits.chars.length⟩)
    else if Integer.inRange (integerValue sign digits) then
      .ok (loneInteger (integerValue sign digits))
    else .error (.badLiteral ⟨0, .outOfRange (integerText sign digits)⟩) := by
  have hnumber : Literal.number (integerText sign digits) = _ :=
    (NumberForm.decimal digits).number_integer sign rfl
  rw [parse_number (numberLength_integerText sign digits), hnumber]
  by_cases hlong : Integer.digitLimit < digits.chars.length
  · rw [if_pos ⟨rfl, hlong⟩, if_pos hlong]
    rfl
  · rw [if_neg fun h => hlong h.2, if_neg hlong, Literal.checked, ← integerValue]
    split
    next => rfl
    next => rfl

/-- The conversion and the parser say the same about a text of a sign and digits: it is an integer,
or one of more than 64 bits, or one that has too many digits. -/
structure ReadersAgree : Prop where
  int_iff (n : Int) : Value.toInteger (.str (integerText sign digits)) = .ok (.int n) ↔
    parse (integerText sign digits ++ ";") = .ok (loneInteger n)
  overflow_iff :
    (∃ n, Value.toInteger (.str (integerText sign digits)) = .error (.error (.integerOverflow n))) ↔
      parse (integerText sign digits ++ ";") =
        .error (.badLiteral ⟨0, .outOfRange (integerText sign digits)⟩)
  tooLong_iff (count : Nat) : Value.toInteger (.str (integerText sign digits)) =
      .error (.fault (.integerTextTooLong count)) ↔
    parse (integerText sign digits ++ ";") = .error (.badLiteral ⟨0, .tooManyDigits count⟩)
  failure_iff : (∃ failure, Value.toInteger (.str (integerText sign digits)) = .error failure) ↔
    ∃ error, parse (integerText sign digits ++ ";") = .error error
  failure {failure : Failure} (h : Value.toInteger (.str (integerText sign digits)) = .error failure) :
    (∃ n, failure = .error (.integerOverflow n)) ∨
      4300 < digits.chars.length ∧ failure = .fault (.integerTextTooLong digits.chars.length)
  error {error : ParseError} (h : parse (integerText sign digits ++ ";") = .error error) :
    error = .badLiteral ⟨0, .outOfRange (integerText sign digits)⟩ ∨
      4300 < digits.chars.length ∧ error = .badLiteral ⟨0, .tooManyDigits digits.chars.length⟩

theorem readersAgree : ReadersAgree sign digits := by
  have hconverts := toInteger_integerText sign digits
  have hparses := parse_integerText sign digits
  unfold Value.exactly at hconverts
  by_cases hlong : Integer.digitLimit < digits.chars.length
  · have hmany : 4300 < digits.chars.length := hlong
    rw [if_pos hlong] at hconverts hparses
    constructor <;> simp [hconverts, hparses, hmany]
  · rw [if_neg hlong] at hconverts hparses
    by_cases hrange : Integer.inRange (integerValue sign digits) = true
    · rw [if_pos hrange] at hconverts hparses
      constructor <;> simp [hconverts, hparses, loneInteger]
    · rw [if_neg hrange] at hconverts hparses
      constructor <;> simp [hconverts, hparses]

theorem exists_text_eq (n : Int) : ∃ sign digits, Integer.text n = integerText sign digits := by
  have hdigits : ∀ c ∈ Nat.toDigits 10 n.natAbs, isAscii c = true := fun _ => isAscii_of_mem_toDigits
  refine ⟨if n < 0 then .minus else .none, ⟨_, Nat.toDigits_ne_nil, hdigits⟩, ?_⟩
  rw [Integer.text_eq_withSign, Binary64.withSign]
  by_cases hn : n < 0
  · simp [hn, integerText, NumberForm.signedText, NumberForm.text, Sign.text]
  · simp [hn, integerText, NumberForm.signedText, NumberForm.text, Sign.text]

theorem parse_text {n : Int} (h : Integer.inRange n = true) :
    parse (Integer.text n ++ ";") = .ok (loneInteger n) := by
  obtain ⟨sign, digits, ht⟩ := exists_text_eq n
  rw [ht, parse_number (numberLength_integerText sign digits), ← ht, number_text h]
  rfl

/-- Converting a text to an integer and parsing it agree on all texts of integers and on every
other text of a sign and digits. All other texts are converted to nothing. -/
theorem integer_readers_agree :
    (∀ n, Integer.inRange n = true →
      Value.toInteger (.str (Value.text (.int n))) = .ok (.int n) ∧
        parse (Value.text (.int n) ++ ";") = .ok (loneInteger n)) ∧
      (∀ t : String, Value.toInteger (.str t) = .ok .nil ↔
        ¬∃ sign digits, t = integerText sign digits) ∧
      ∀ sign digits, ReadersAgree sign digits := by
  refine ⟨fun n hn => ?_, fun t => toInteger_eq_nil_iff, readersAgree⟩
  have hparses : parse (Value.text (.int n) ++ ";") = .ok (loneInteger n) := parse_text hn
  refine ⟨?_, hparses⟩
  obtain ⟨sign, digits, ht⟩ := exists_text_eq n
  have htext : Value.text (.int n) = integerText sign digits := ht
  rw [htext] at hparses ⊢
  exact ((readersAgree sign digits).int_iff n).mpr hparses

/-- The least integer, whose magnitude alone has more than 64 bits. -/
theorem integer_readers_agree_least :
    Integer.inRange (-9223372036854775808) = true ∧
      Value.toInteger (.str "-9223372036854775808") = .ok (.int (-9223372036854775808)) ∧
      parse "-9223372036854775808;" = .ok (loneInteger (-9223372036854775808)) := by
  have hrange : Integer.inRange (-9223372036854775808) = true := by decide
  have htext : Value.text (.int (-9223372036854775808)) = "-9223372036854775808" := by rfl
  obtain ⟨hconverts, hparses⟩ := integer_readers_agree.1 _ hrange
  rw [htext] at hconverts hparses
  exact ⟨hrange, hconverts, hparses⟩

end ScriptLang
