import ScriptLang.Proofs.Grammar.Acceptance

/-! # Lexing in context

A source text splits into lexemes one after another: at every place the first in the order of
lexemes that stands there, among those that the state of the automaton admits. The machine does
just this, so it succeeds on exactly the texts whose tokens it reads.
-/

namespace ScriptLang

namespace Lexeme

open DecimalDigit (isAscii isHexDigit)

variable {text : List Char} {n : Nat} {accepts : Terminal → Bool} {lexeme : Lexeme}

theorem length_takeWhile_le {α : Type} (p : α → Bool) (l : List α) :
    (l.takeWhile p).length ≤ l.length := (List.takeWhile_sublist p).length_le

theorem identLength_bounds (h : identLength text = some n) : 0 < n ∧ n ≤ text.length := by
  have hle := length_takeWhile_le isWordChar text
  unfold identLength at h
  dsimp only at h
  split at h
  next => cases h
  next c rest hw =>
    split at h
    next => cases h
    next =>
      cases h
      refine ⟨?_, hle⟩
      rw [hw]
      exact Nat.succ_pos _

theorem markedRun_le (mark digit : Char → Bool) (text : List Char) :
    markedRun mark digit text ≤ text.length := by
  cases text with
  | nil => exact Nat.le_refl 0
  | cons c rest =>
    have hle := length_takeWhile_le digit rest
    simp only [markedRun, List.length_cons]
    split <;> omega

theorem unsignedLength_bounds (h : unsignedLength text = some n) : 0 < n ∧ n ≤ text.length := by
  have hwhole := length_takeWhile_le isAscii text
  have hfraction := markedRun_le (· == '.') isAscii (text.drop (text.takeWhile isAscii).length)
  have hexponent := markedRun_le (fun c => c == 'e' || c == 'E') isAscii
    ((text.drop (text.takeWhile isAscii).length).drop
      (markedRun (· == '.') isAscii (text.drop (text.takeWhile isAscii).length)))
  have hbinary := markedRun_le (· == 'b') (fun c => c == '0' || c == '1')
    (text.drop (text.takeWhile isAscii).length)
  have hhex := markedRun_le (· == 'x') isHexDigit (text.drop (text.takeWhile isAscii).length)
  simp only [List.length_drop] at hfraction hexponent hbinary hhex
  unfold unsignedLength at h
  dsimp only at h
  split at h
  next => cases h
  next he =>
    have hpos : 0 < (text.takeWhile isAscii).length :=
      List.length_pos_iff.mpr (by simpa using he)
    have hzero : ∀ {b : Bool}, (text.takeWhile isAscii == ['0'] && b) = true →
        (text.takeWhile isAscii).length = 1 := by
      intro b hb
      rw [Bool.and_eq_true, beq_iff_eq] at hb
      rw [hb.1]
      rfl
    split_ifs at h with _ _ hb hx
    · cases h; omega
    · cases h; omega
    · have := hzero hb
      cases h; omega
    · have := hzero hx
      cases h; omega
    · cases h; omega

theorem numberLength_bounds (h : numberLength text = some n) : 0 < n ∧ n ≤ text.length := by
  cases text with
  | nil => cases h
  | cons c rest =>
    simp only [numberLength] at h
    split at h
    next =>
      obtain ⟨k, hk, rfl⟩ := Option.map_eq_some_iff.mp h
      have := unsignedLength_bounds hk
      simp only [List.length_cons]
      omega
    next => exact unsignedLength_bounds h

theorem stringTail_bounds (h : stringTail text = some n) : 0 < n ∧ n ≤ text.length := by
  fun_induction stringTail text generalizing n with
  | case1 => cases h
  | case2 =>
    cases h
    simp
  | case3 a b c d rest _ ih =>
    obtain ⟨k, hk, rfl⟩ := Option.map_eq_some_iff.mp h
    have := ih hk
    simp only [List.length_cons]
    omega
  | case4 => cases h
  | case5 c rest _ _ ih =>
    obtain ⟨k, hk, rfl⟩ := Option.map_eq_some_iff.mp h
    have := ih hk
    simp only [List.length_cons]
    omega
  | case6 => cases h
  | case7 => cases h
  | case8 c rest _ _ _ _ ih =>
    obtain ⟨k, hk, rfl⟩ := Option.map_eq_some_iff.mp h
    have := ih hk
    simp only [List.length_cons]
    omega

theorem stringLength_bounds (h : stringLength text = some n) : 0 < n ∧ n ≤ text.length := by
  unfold stringLength at h
  split at h
  next rest =>
    obtain ⟨k, hk, rfl⟩ := Option.map_eq_some_iff.mp h
    have := stringTail_bounds hk
    simp only [List.length_cons]
    omega
  next => cases h

theorem commentTail_bounds (h : commentTail text = some n) : 0 < n ∧ n ≤ text.length := by
  fun_induction commentTail text generalizing n with
  | case1 => cases h
  | case2 =>
    cases h
    simp
  | case3 c rest _ ih =>
    obtain ⟨k, hk, rfl⟩ := Option.map_eq_some_iff.mp h
    have := ih hk
    simp only [List.length_cons]
    omega

theorem terminalLength_bounds {terminal : Terminal} (h : terminalLength terminal text = some n) :
    0 < n ∧ n ≤ text.length := by
  unfold terminalLength at h
  split at h
  next => exact identLength_bounds h
  next => exact numberLength_bounds h
  next => exact stringLength_bounds h
  next =>
    obtain ⟨spelling, hs, h⟩ := Option.bind_eq_some_iff.mp h
    rw [Option.ite_none_right_eq_some] at h
    obtain ⟨hp, h⟩ := h
    cases h
    refine ⟨?_, ?_⟩
    · unfold Terminal.spelling? at hs
      split at hs <;> cases hs <;> decide
    · rw [← String.length_toList]
      exact (List.isPrefixOf_iff_prefix.mp hp).length_le

theorem length?_bounds (h : lexeme.length? text = some n) : 0 < n ∧ n ≤ text.length := by
  cases lexeme with
  | token terminal => exact terminalLength_bounds h
  | blockComment =>
    simp only [length?, blockLength] at h
    split at h
    next rest =>
      obtain ⟨k, hk, rfl⟩ := Option.map_eq_some_iff.mp h
      have := commentTail_bounds hk
      simp only [List.length_cons]
      omega
    next => cases h
  | lineComment =>
    simp only [length?, lineLength] at h
    split at h
    next rest =>
      cases h
      have := length_takeWhile_le (· != '\n') rest
      simp only [List.length_cons]
      omega
    next => cases h
  | blanks =>
    simp only [length?, blanksLength] at h
    split at h
    next => cases h
    next he =>
      cases h
      exact ⟨List.length_pos_iff.mpr (by simpa using he), length_takeWhile_le _ _⟩

/-- A lexeme stands at the front of a text, and it is the first in order of those that may. -/
def StandsFirst (accepts : Terminal → Bool) (text : List Char) (lexeme : Lexeme) (n : Nat) :
    Prop :=
  ∃ before after, order = before ++ lexeme :: after ∧ lexeme.admits accepts = true ∧
    lexeme.length? text = some n ∧
    ∀ other ∈ before, other.admits accepts = true → other.length? text = none

theorem first_eq_some_iff :
    first accepts text = some (lexeme, n) ↔ StandsFirst accepts text lexeme n := by
  unfold first StandsFirst
  rw [List.findSome?_eq_some_iff]
  constructor
  · rintro ⟨before, other, after, ho, hf, hb⟩
    rw [Option.ite_none_right_eq_some, Option.map_eq_some_iff] at hf
    obtain ⟨ha, k, hk, he⟩ := hf
    cases he
    refine ⟨before, after, ho, ha, hk, fun earlier hm hok => ?_⟩
    simpa [hok] using hb earlier hm
  · rintro ⟨before, after, ho, ha, hk, hb⟩
    refine ⟨before, lexeme, after, ho, by simp [ha, hk], fun earlier hm => ?_⟩
    by_cases hok : earlier.admits accepts = true
    · simp [hb earlier hm hok]
    · simp [hok]

theorem StandsFirst.unique {other : Lexeme} {m : Nat} (h : StandsFirst accepts text lexeme n)
    (h' : StandsFirst accepts text other m) : lexeme = other ∧ n = m := by
  have he := first_eq_some_iff.mpr h
  rw [first_eq_some_iff.mpr h'] at he
  simpa [eq_comm] using he

theorem StandsFirst.bounds (h : StandsFirst accepts text lexeme n) :
    0 < n ∧ n ≤ text.length := by
  obtain ⟨_, _, _, _, hl, _⟩ := h
  exact length?_bounds hl

def isTrivia : Lexeme → Bool
  | token _ => false
  | _ => true

end Lexeme

namespace Derivation

open Lexeme (StandsFirst)

variable {stack stack' : Stack} {states states' : List Nat} {text : List Char}
  {index n : Nat} {token : Token} {tokens : List Token} {tree : Tree} {terminal : Terminal}

/-- The automaton takes a terminal: it goes back over the productions that are complete and then
moves on. Only the states of the stack matter for this. -/
inductive Takes : List Nat → Terminal → List Nat → Prop where
  | shift {states : List Nat} {terminal : Terminal} {next : Nat} :
      Table.action (states.headD 0) terminal = some (.shift next) →
      Takes states terminal (next :: states)
  | reduce {states taken : List Nat} {terminal : Terminal} {production : Production} {next : Nat} :
      Table.action (states.headD 0) terminal = some (.reduce production) →
      Table.goto ((states.drop production.rhs.length).headD 0) production.lhs = some next →
      Takes (next :: states.drop production.rhs.length) terminal taken →
      Takes states terminal taken

/-- A text from a given index on splits into tokens and what stands between them. At every place
only the lexemes count that the state admits which the tokens before it have led to. -/
inductive Lexes : List Nat → Nat → List Char → List Token → Prop where
  | done {states : List Nat} {index : Nat} : Lexes states index [] []
  | trivia {states : List Nat} {index n : Nat} {text : List Char} {tokens : List Token}
      {lexeme : Lexeme} : StandsFirst (Table.accepts (states.headD 0)) text lexeme n →
      lexeme.isTrivia = true → Lexes states (index + n) (text.drop n) tokens →
      Lexes states index text tokens
  | token {states taken : List Nat} {index n : Nat} {text : List Char} {tokens : List Token}
      {terminal : Terminal} :
      StandsFirst (Table.accepts (states.headD 0)) text (.token terminal) n →
      Takes states terminal taken → Lexes taken (index + n) (text.drop n) tokens →
      Lexes states index text (⟨terminal, String.ofList (text.take n), index⟩ :: tokens)

def path (stack : Stack) : List Nat := stack.map Prod.fst

theorem headD_path (stack : Stack) : (path stack).headD 0 = state stack := by
  cases stack <;> rfl

theorem Takes.unique {other : List Nat} (h : Takes states terminal states')
    (h' : Takes states terminal other) : states' = other := by
  induction h with
  | shift ha =>
    cases h' with
    | shift ha' => simpa using ha.symm.trans ha'
    | reduce ha' => cases ha.symm.trans ha'
  | reduce ha hg _ ih =>
    cases h' with
    | shift ha' => cases ha.symm.trans ha'
    | reduce ha' hg' h' =>
      cases ha.symm.trans ha'
      cases hg.symm.trans hg'
      exact ih h'

theorem Shifts.takes (h : Shifts token stack stack') :
    Takes (path stack) token.terminal (path stack') := by
  induction h with
  | @shift stack next ha => exact .shift (by rwa [headD_path])
  | @reduce stack reduced shifted production ha hr _ ih =>
    obtain ⟨next, hg, rfl⟩ := reduce_eq_some_iff.mp hr
    have hd : (path stack).drop production.rhs.length =
        path (stack.drop production.rhs.length) := List.map_drop.symm
    refine .reduce (by rwa [headD_path]) (by rwa [hd, headD_path]) ?_
    rw [hd]
    exact ih

theorem StandsFirst.ne_nil {accepts : Terminal → Bool} {lexeme : Lexeme}
    (h : StandsFirst accepts text lexeme n) : text ≠ [] := by
  rintro rfl
  have hn := h.bounds
  simp only [List.length_nil] at hn
  omega

theorem lexes_nil_iff : Lexes states index [] tokens ↔ tokens = [] := by
  constructor
  · intro h
    cases h with
    | done => rfl
    | trivia hs => exact (StandsFirst.ne_nil hs rfl).elim
    | token hs => exact (StandsFirst.ne_nil hs rfl).elim
  · rintro rfl
    exact .done

theorem lexes_trivia_iff {lexeme : Lexeme}
    (hs : StandsFirst (Table.accepts (states.headD 0)) text lexeme n)
    (ht : lexeme.isTrivia = true) :
    Lexes states index text tokens ↔ Lexes states (index + n) (text.drop n) tokens := by
  constructor
  · intro h
    cases h with
    | done => exact (StandsFirst.ne_nil hs rfl).elim
    | trivia hs' _ h =>
      obtain ⟨_, rfl⟩ := hs.unique hs'
      exact h
    | token hs' =>
      obtain ⟨rfl, _⟩ := hs.unique hs'
      cases ht
  · exact .trivia hs ht

theorem lexes_token_iff
    (hs : StandsFirst (Table.accepts (states.headD 0)) text (.token terminal) n) :
    Lexes states index text tokens ↔ ∃ taken rest, Takes states terminal taken ∧
      Lexes taken (index + n) (text.drop n) rest ∧
      tokens = ⟨terminal, String.ofList (text.take n), index⟩ :: rest := by
  constructor
  · intro h
    cases h with
    | done => exact (StandsFirst.ne_nil hs rfl).elim
    | trivia hs' ht =>
      obtain ⟨rfl, _⟩ := hs.unique hs'
      cases ht
    | token hs' hk h =>
      obtain ⟨he, rfl⟩ := hs.unique hs'
      cases he
      exact ⟨_, _, hk, h, rfl⟩
  · rintro ⟨taken, rest, hk, h, rfl⟩
    exact .token hs hk h

theorem Lexes.unique {other : List Token} (h : Lexes states index text tokens)
    (h' : Lexes states index text other) : tokens = other := by
  induction h generalizing other with
  | done => exact (lexes_nil_iff.mp h').symm
  | trivia hs ht _ ih => exact ih ((lexes_trivia_iff hs ht).mp h')
  | token hs hk _ ih =>
    obtain ⟨taken, rest, hk', h', rfl⟩ := (lexes_token_iff hs).mp h'
    cases hk.unique hk'
    rw [ih h']

theorem scan_skip (text : List Char) (skip index : Nat) (stack : Stack) (h : skip ≤ text.length) :
    scan text skip index stack = scan (text.drop skip) 0 (index + skip) stack := by
  induction skip generalizing text index with
  | zero => simp
  | succ skip ih =>
    cases text with
    | nil => simp at h
    | cons c rest =>
      rw [scan, ih rest (index + 1) (by simpa using h), List.drop_succ_cons, Nat.add_right_comm,
        Nat.add_assoc index skip 1]

theorem scan_rest {c : Char} {rest : List Char} (hn : 0 < n) (hle : n ≤ (c :: rest).length) :
    scan rest (n - 1) (index + 1) stack = scan ((c :: rest).drop n) 0 (index + n) stack := by
  obtain ⟨n, rfl⟩ := Nat.exists_eq_add_one_of_ne_zero (Nat.ne_zero_of_lt hn)
  rw [Nat.add_sub_cancel, scan_skip rest n (index + 1) stack (by simpa using hle),
    List.drop_succ_cons, Nat.add_right_comm, Nat.add_assoc index n 1]

theorem scan_nil_iff (hb : Built stack) :
    scan [] 0 index stack = .ok tree ↔ Finishes stack tree := by
  rw [← feed_eq_accepted_iff hb ⟨.endOfInput, "", index⟩ rfl, scan]
  split <;> simp_all

theorem scan_of_trivia {lexeme : Lexeme}
    (hs : StandsFirst (Table.accepts (state stack)) text lexeme n)
    (ht : lexeme.isTrivia = true) :
    scan text 0 index stack = scan (text.drop n) 0 (index + n) stack := by
  obtain ⟨hn, hle⟩ := hs.bounds
  cases text with
  | nil => exact (StandsFirst.ne_nil hs rfl).elim
  | cons c rest =>
    rw [scan, Lexeme.first_eq_some_iff.mpr hs, ← scan_rest hn hle]
    cases lexeme with
    | token terminal => cases ht
    | blockComment | lineComment | blanks => rfl

theorem scan_of_shifts (hb : Built stack)
    (hs : StandsFirst (Table.accepts (state stack)) text (.token terminal) n)
    (h : Shifts ⟨terminal, String.ofList (text.take n), index⟩ stack stack') :
    scan text 0 index stack = scan (text.drop n) 0 (index + n) stack' := by
  obtain ⟨hn, hle⟩ := hs.bounds
  cases text with
  | nil => exact (StandsFirst.ne_nil hs rfl).elim
  | cons c rest =>
    rw [scan, Lexeme.first_eq_some_iff.mpr hs, ← scan_rest hn hle]
    dsimp only
    rw [(feed_eq_shifted_iff hb).mpr h]

theorem scan_cases (hb : Built stack) (h : scan text 0 index stack = .ok tree) :
    (text = [] ∧ Finishes stack tree) ∨
    (∃ lexeme n, StandsFirst (Table.accepts (state stack)) text lexeme n ∧
      lexeme.isTrivia = true) ∨
    ∃ terminal n stack', StandsFirst (Table.accepts (state stack)) text (.token terminal) n ∧
      Shifts ⟨terminal, String.ofList (text.take n), index⟩ stack stack' := by
  cases text with
  | nil => exact Or.inl ⟨rfl, (scan_nil_iff hb).mp h⟩
  | cons c rest =>
    right
    rw [scan] at h
    split at h
    next terminal n hf =>
      have hs := Lexeme.first_eq_some_iff.mp hf
      dsimp only at h
      split at h
      next stack' hfeed => exact Or.inr ⟨terminal, n, stack', hs, shifts_of_feed hfeed⟩
      next => cases h
      next => cases h
    next lexeme n hno hf =>
      refine Or.inl ⟨lexeme, n, Lexeme.first_eq_some_iff.mp hf, ?_⟩
      cases lexeme with
      | token terminal => exact (hno terminal rfl).elim
      | blockComment | lineComment | blanks => rfl
    next => split at h <;> cases h

theorem scan_of_lexes (hl : Lexes states index text tokens) (hp : states = path stack)
    (hb : Built stack) (hr : Reads stack tokens tree) : scan text 0 index stack = .ok tree := by
  induction hl generalizing stack with
  | done =>
    cases hr with
    | finish hf => exact (scan_nil_iff hb).mpr hf
  | trivia hs ht _ ih =>
    subst hp
    rw [headD_path] at hs
    rw [scan_of_trivia hs ht]
    exact ih rfl hb hr
  | token hs hk _ ih =>
    subst hp
    rw [headD_path] at hs
    cases hr with
    | shift hshift hr =>
      rw [scan_of_shifts hb hs hshift]
      exact ih (hk.unique hshift.takes) (hshift.built hb).1 hr

theorem lexes_of_scan (hb : Built stack) (h : scan text 0 index stack = .ok tree) :
    ∃ tokens, Lexes (path stack) index text tokens ∧ Reads stack tokens tree := by
  induction hlen : text.length using Nat.strongRecOn generalizing text index stack with
  | ind length ih =>
    -- Every lexeme takes something, so what is left of the text is shorter.
    have hshort {lexeme : Lexeme} {n : Nat}
        (hs : StandsFirst (Table.accepts (state stack)) text lexeme n) :
        (text.drop n).length < length := by
      obtain ⟨hn, hle⟩ := hs.bounds
      rw [List.length_drop]
      omega
    obtain ⟨rfl, hf⟩ | ⟨lexeme, n, hs, ht⟩ | ⟨terminal, n, stack', hs, hshift⟩ := scan_cases hb h
    · exact ⟨[], .done, .finish hf⟩
    · rw [scan_of_trivia hs ht] at h
      obtain ⟨tokens, hl, hr⟩ := ih _ (hshort hs) hb h rfl
      exact ⟨tokens, .trivia (by rwa [headD_path]) ht hl, hr⟩
    · rw [scan_of_shifts hb hs hshift] at h
      obtain ⟨tokens, hl, hr⟩ := ih _ (hshort hs) (hshift.built hb).1 h rfl
      exact ⟨_, .token (by rwa [headD_path]) hshift.takes hl, .shift hshift hr⟩

/-- A source text has a derivation exactly if it splits into tokens that have one. -/
theorem ofSource_eq_ok_iff {source : List Char} : ofSource source = .ok tree ↔
    ∃ tokens, Lexes [] 0 source tokens ∧ tree.Valid ∧ tree.root = .n .program ∧
      tree.tokens = tokens := by
  simp only [← reads_iff]
  constructor
  · exact lexes_of_scan .nil
  · rintro ⟨tokens, hl, hr⟩
    exact scan_of_lexes hl rfl .nil hr

end Derivation

end ScriptLang
