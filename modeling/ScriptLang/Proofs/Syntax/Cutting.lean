import ScriptLang.Proofs.Syntax.RoundTrip

/-! # Lexemes and what follows them

A lexeme that lies within the front of a text stands there no matter what the front is followed by,
as long as that starts with a blank: nothing that could go on, and nothing that could have been
tried before, gets a chance to. Only a blank at the very end goes on, and a line comment does unless
its line ends.
-/

namespace ScriptLang

open DecimalDigit Lexeme

/-- A text that starts with a blank, if with anything. -/
def Breaks (text : List Char) : Prop := ∀ c ∈ text.head?, isBlank c = true

variable {front rest back : List Char} {n : Nat} {accepts : Terminal → Bool}
  {terminal : Terminal} {lexeme : Lexeme}

def Lexeme.isFixed : Lexeme → Bool
  | token terminal => Terminal.fixed.contains terminal
  | _ => false

theorem blanksLength_eq_some {text : List Char} (h : blanksLength text = some n) :
    ∃ c tail, text = c :: tail ∧ isBlank c = true := by
  cases text with
  | nil => cases h
  | cons c tail =>
    cases hc : isBlank c with
    | true => exact ⟨c, tail, rfl, hc⟩
    | false => simp [blanksLength, hc] at h

/-- A character with which neither a name nor a literal starts. -/
def isSeparator (c : Char) : Bool :=
  !isWordChar c && !isAscii c && !(c == '+' || c == '-') && c != '"'

theorem isSeparator_of_isBlank {c : Char} (h : isBlank c = true) : isSeparator c = true := by
  simp only [isBlank, Bool.or_eq_true, beq_iff_eq] at h
  rcases h with ((rfl | rfl) | rfl) | rfl <;> decide

theorem length?_eq_none_of_isSeparator {c : Char} {text : List Char} (hc : isSeparator c = true)
    {other : Lexeme} (ho : other ∈ [token .ident, token .number, token .string]) :
    other.length? (c :: text) = none := by
  simp only [isSeparator, Bool.and_eq_true, Bool.not_eq_true', bne_iff_ne, ne_eq] at hc
  obtain ⟨⟨⟨hword, hdigit⟩, hsign⟩, hquote⟩ := hc
  simp only [List.mem_cons, List.not_mem_nil, or_false] at ho
  rcases ho with rfl | rfl | rfl
  · exact identLength_eq_none (.inl hword)
  · apply numberLength_eq_none hdigit
    intro h
    simp only [Bool.or_eq_false_iff, beq_eq_false_iff_ne] at hsign
    exact absurd h (not_or.mpr hsign)
  · cases hs : (token .string).length? (c :: text) with
    | none => rfl
    | some k =>
      obtain ⟨_, hq⟩ := eq_quote_of_stringLength hs
      exact absurd (List.cons.inj hq).1 hquote

theorem mem_fixed_of_isSeparator {c : Char} {text : List Char} (hc : isSeparator c = true)
    (h : (token terminal).length? (c :: text) = some n) :
    terminal ∈ Terminal.fixed ∧ ∃ spelling ∈ terminal.spelling?,
      spelling.toList.head? = some c ∧ spelling.length = n := by
  by_cases hm : terminal ∈ Terminal.fixed
  · refine ⟨hm, ?_⟩
    obtain ⟨d, tail, hs, -⟩ := isFixed_of_mem hm
    simp only [length?, terminalLength_fixed hm, hs, Option.bind_some, String.toList_ofList,
      Option.ite_none_right_eq_some, List.isPrefixOf_iff_prefix, List.cons_prefix_cons] at h
    obtain ⟨⟨rfl, -⟩, h⟩ := h
    exact ⟨_, hs, by simp, Option.some.inj h⟩
  · have hnone : (token terminal).length? (c :: text) = none := by
      cases terminal with
      | ident | number | string => exact length?_eq_none_of_isSeparator hc (by simp)
      | endOfInput => rfl
      | _ => exact absurd (by decide) hm
    rw [hnone] at h
    cases h

/-- A lexeme that is no fixed word is the first wherever it may stand. -/
theorem standsFirst_of_length? {text : List Char} (hf : lexeme.isFixed = false)
    (ha : lexeme.admits accepts = true) (h : lexeme.length? text = some n) :
    StandsFirst accepts text lexeme n := by
  cases lexeme with
  | token terminal =>
    cases terminal with
    | ident => exact ⟨[], _, rfl, ha, h, by simp⟩
    | number => exact standsFirst_number ha h
    | string => exact standsFirst_string ha h
    | endOfInput => cases h
    | _ => exact absurd hf (by decide)
  | blockComment =>
    refine ⟨[.token .ident, .token .number, .token .string], _, rfl, ha, h, fun other ho _ => ?_⟩
    simp only [length?, blockLength] at h
    split at h
    · exact length?_eq_none_of_isSeparator (by decide) ho
    · cases h
  | lineComment =>
    refine ⟨[.token .ident, .token .number, .token .string] ++ [.blockComment], _, rfl, ha, h,
      fun other ho _ => ?_⟩
    simp only [length?, lineLength] at h
    split at h
    · obtain ho | ho := List.mem_append.mp ho
      · exact length?_eq_none_of_isSeparator (by decide) ho
      · obtain rfl := List.mem_singleton.mp ho
        rfl
    · cases h
  | blanks =>
    obtain ⟨c, tail, rfl, hc⟩ := blanksLength_eq_some h
    refine ⟨[.token .ident, .token .number, .token .string] ++ [.blockComment, .lineComment], _,
      rfl, ha, h, fun other ho _ => ?_⟩
    obtain ho | ho := List.mem_append.mp ho
    · exact length?_eq_none_of_isSeparator (isSeparator_of_isBlank hc) ho
    · simp only [isBlank, Bool.or_eq_true, beq_iff_eq] at hc
      simp only [List.mem_cons, List.not_mem_nil, or_false] at ho
      rcases hc with ((rfl | rfl) | rfl) | rfl <;> rcases ho with rfl | rfl <;> rfl

theorem first_eq_iff_length? {text : List Char} (hf : lexeme.isFixed = false) :
    first accepts text = some (lexeme, n) ↔
      lexeme.admits accepts = true ∧ lexeme.length? text = some n := by
  rw [first_eq_some_iff]
  constructor
  · rintro ⟨_, _, _, ha, hl, _⟩
    exact ⟨ha, hl⟩
  · rintro ⟨ha, hl⟩
    exact standsFirst_of_length? hf ha hl

theorem not_of_isBlank {p : Char → Bool} (hp : ∀ c, p c = true → isBlank c = false) {c : Char}
    (h : isBlank c = true) : p c = false := by
  cases hc : p c with
  | false => rfl
  | true => rw [hp c hc] at h; cases h

theorem drop_length_takeWhile (p : Char → Bool) (text : List Char) :
    text.drop (text.takeWhile p).length = text.dropWhile p := by
  induction text with
  | nil => rfl
  | cons c text ih =>
    cases hc : p c with
    | false => simp [hc]
    | true => simpa [hc] using ih

/-- What stops in the front of a text stops there whatever follows, and what takes all of it stops
there if what follows stops it. -/
theorem takeWhile_append_congr {p : Char → Bool}
    (h : ((front ++ rest).takeWhile p).length ≤ front.length)
    (hb : ((front ++ rest).takeWhile p).length = front.length → ∀ c ∈ back.head?, p c = false) :
    (front ++ back).takeWhile p = (front ++ rest).takeWhile p := by
  induction front with
  | nil =>
    have hzero : (rest.takeWhile p).length = 0 := Nat.le_zero.mp h
    rw [List.nil_append, List.nil_append, List.length_eq_zero_iff.mp hzero]
    cases back with
    | nil => rfl
    | cons c back => exact List.takeWhile_cons_of_neg (by simp [hb hzero c rfl])
  | cons c front ih =>
    by_cases hc : p c = true
    · rw [List.cons_append, List.takeWhile_cons_of_pos hc] at h hb
      rw [List.cons_append, List.cons_append, List.takeWhile_cons_of_pos hc,
        List.takeWhile_cons_of_pos hc,
        ih (Nat.le_of_succ_le_succ h) fun he => hb (congrArg (· + 1) he)]
    · rw [List.cons_append, List.cons_append, List.takeWhile_cons_of_neg hc,
        List.takeWhile_cons_of_neg hc]

theorem takeWhile_cut {p : Char → Bool} (hp : ∀ c, p c = true → isBlank c = false)
    (hb : Breaks back) (h : ((front ++ rest).takeWhile p).length ≤ front.length) :
    (front ++ back).takeWhile p = (front ++ rest).takeWhile p :=
  takeWhile_append_congr h fun _ c hc => not_of_isBlank hp (hb c hc)

theorem identLength_cut (hb : Breaks back) (h : identLength (front ++ rest) = some n)
    (hn : n ≤ front.length) : identLength (front ++ back) = some n := by
  have hl : ((front ++ rest).takeWhile isWordChar).length = n := by
    unfold identLength at h
    dsimp only at h
    split at h
    · cases h
    · rename_i c word hw
      split at h
      · cases h
      · rw [← Option.some.inj h, hw]
  have ht := takeWhile_cut (fun _ => isBlank_of_isWordChar) hb (hl ▸ hn)
  unfold identLength at h ⊢
  rw [ht]
  exact h

theorem markedRun_cut {mark digit : Char → Bool} (hm : ∀ c, mark c = true → isBlank c = false)
    (hd : ∀ c, digit c = true → isBlank c = false) (hb : Breaks back)
    (h : markedRun mark digit (front ++ rest) ≤ front.length) :
    markedRun mark digit (front ++ back) = markedRun mark digit (front ++ rest) := by
  cases front with
  | nil =>
    have hz : markedRun mark digit rest = 0 := Nat.le_zero.mp h
    rw [List.nil_append, List.nil_append, hz]
    cases back with
    | nil => rfl
    | cons c back => simp [markedRun, not_of_isBlank hm (hb c rfl)]
  | cons c front =>
    simp only [List.cons_append, markedRun] at h ⊢
    by_cases hc : mark c = true
    · have hle : ((front ++ rest).takeWhile digit).length ≤ front.length := by
        by_cases he : ((front ++ rest).takeWhile digit).isEmpty = true
        · simp [List.isEmpty_iff.mp he]
        · simpa [hc, he] using h
      rw [takeWhile_cut hd hb hle]
    · simp [hc]

/-- The parts of a number lie one after another, so each is found in the front as a whole. -/
theorem markedRun_drop_cut {mark digit : Char → Bool} {k : Nat}
    (hm : ∀ c, mark c = true → isBlank c = false) (hd : ∀ c, digit c = true → isBlank c = false)
    (hb : Breaks back) (h : k + markedRun mark digit ((front ++ rest).drop k) ≤ front.length) :
    markedRun mark digit ((front ++ back).drop k) =
      markedRun mark digit ((front ++ rest).drop k) := by
  have hk : k ≤ front.length := by omega
  rw [List.drop_append_of_le_length hk] at h ⊢
  rw [List.drop_append_of_le_length hk]
  refine markedRun_cut hm hd hb ?_
  rw [List.length_drop]
  omega

/-- The length of a number, from those of its parts. The prefix of a binary or hexadecimal number
stands only after a zero. -/
def lengthOfParts (zero : Bool) (whole fraction exponent binary hexadecimal : Nat) : Nat :=
  if exponent != 0 then whole + fraction + exponent
  else if fraction != 0 then whole + fraction
  else if zero && binary != 0 then 1 + binary
  else if zero && hexadecimal != 0 then 1 + hexadecimal
  else whole

theorem unsignedLength_eq (text : List Char) : unsignedLength text =
    let whole := text.takeWhile isAscii
    let fraction := markedRun (· == '.') isAscii (text.drop whole.length)
    if whole.isEmpty then none
    else some (lengthOfParts (whole == ['0']) whole.length fraction
      (markedRun (fun c => c == 'e' || c == 'E') isAscii (text.drop (whole.length + fraction)))
      (markedRun (· == 'b') (fun c => c == '0' || c == '1') (text.drop whole.length))
      (markedRun (· == 'x') isHexDigit (text.drop whole.length))) := by
  simp only [unsignedLength, lengthOfParts, List.drop_drop]
  split_ifs <;> rfl

theorem le_lengthOfParts {zero : Bool} {whole fraction exponent binary hexadecimal : Nat}
    (hz : zero = true → whole = 1) :
    whole ≤ lengthOfParts zero whole fraction exponent binary hexadecimal := by
  unfold lengthOfParts
  grind

theorem lengthOfParts_congr {zero : Bool} {m whole fraction exponent binary hexadecimal : Nat}
    {fraction' exponent' binary' hexadecimal' : Nat} (hz : zero = true → whole = 1)
    (h : lengthOfParts zero whole fraction exponent binary hexadecimal ≤ m)
    (hf : whole + fraction ≤ m → fraction' = fraction)
    (he : fraction' = fraction → whole + fraction + exponent ≤ m → exponent' = exponent)
    (hb : whole + binary ≤ m → binary' = binary)
    (hh : whole + hexadecimal ≤ m → hexadecimal' = hexadecimal) :
    lengthOfParts zero whole fraction' exponent' binary' hexadecimal' =
      lengthOfParts zero whole fraction exponent binary hexadecimal := by
  unfold lengthOfParts at h ⊢
  -- A part that is there is part of the number, and what comes later is not looked at then.
  by_cases hx : exponent = 0
  · by_cases hy : fraction = 0
    · cases zero with
      | false => simp_all
      | true => grind
    · grind
  · grind

theorem unsignedLength_cut (hb : Breaks back) (h : unsignedLength (front ++ rest) = some n)
    (hn : n ≤ front.length) : unsignedLength (front ++ back) = some n := by
  have hdigit (c : Char) (hc : isAscii c = true) : isBlank c = false :=
    isBlank_of_isNumeralChar (isNumeralChar_of_isAscii hc)
  have hhex (c : Char) (hc : isHexDigit c = true) : isBlank c = false :=
    isBlank_of_isNumeralChar (isNumeralChar_of_isHexDigit hc)
  have hzero : ((front ++ rest).takeWhile isAscii == ['0']) = true →
      ((front ++ rest).takeWhile isAscii).length = 1 := by
    intro hz
    rw [beq_iff_eq.mp hz, List.length_singleton]
  rw [unsignedLength_eq] at h ⊢
  obtain ⟨hne, hlength⟩ := Option.ite_none_left_eq_some.mp h
  obtain rfl := Option.some.inj hlength
  have hwhole := takeWhile_cut hdigit hb ((le_lengthOfParts hzero).trans hn)
  dsimp only
  rw [hwhole, if_neg hne, Option.some.injEq]
  apply lengthOfParts_congr hzero hn
  · exact markedRun_drop_cut (by simp [isBlank]) hdigit hb
  · intro hf
    rw [hf]
    exact markedRun_drop_cut (by simp [isBlank]) hdigit hb
  · exact markedRun_drop_cut (by simp [isBlank]) (by simp [isBlank]) hb
  · exact markedRun_drop_cut (by simp [isBlank]) hhex hb

theorem numberLength_cut (hb : Breaks back) (h : numberLength (front ++ rest) = some n)
    (hn : n ≤ front.length) : numberLength (front ++ back) = some n := by
  cases front with
  | nil =>
    obtain rfl : n = 0 := Nat.le_zero.mp hn
    exact absurd (numberLength_bounds h).1 (Nat.lt_irrefl 0)
  | cons c front =>
    simp only [List.cons_append, numberLength] at h ⊢
    split_ifs at h ⊢
    · obtain ⟨k, hk, rfl⟩ := Option.map_eq_some_iff.mp h
      rw [unsignedLength_cut hb hk (Nat.le_of_succ_le_succ hn), Option.map_some]
    · have hfront : unsignedLength (c :: front ++ rest) = some n := h
      exact unsignedLength_cut hb hfront hn

theorem stringTail_take {text : List Char} (h : stringTail text = some n) (more : List Char) :
    stringTail (text.take n ++ more) = some n := by
  fun_induction stringTail text generalizing n with
  | case1 => cases h
  | case2 =>
    cases h
    rfl
  | case3 a b c d rest hh ih =>
    obtain ⟨k, hk, rfl⟩ := Option.map_eq_some_iff.mp h
    simp [stringTail, hh, ih hk]
  | case4 => cases h
  | case5 c rest _ hc ih =>
    obtain ⟨k, hk, rfl⟩ := Option.map_eq_some_iff.mp h
    simp only [List.contains_eq_mem, decide_eq_true_eq, List.mem_cons, List.not_mem_nil,
      or_false] at hc
    rcases hc with rfl | rfl | rfl | rfl | rfl
    all_goals simp [stringTail, ih hk]
  | case6 => cases h
  | case7 => cases h
  | case8 c rest hq _ _ hs ih =>
    obtain ⟨k, hk, rfl⟩ := Option.map_eq_some_iff.mp h
    rw [List.take_succ_cons, List.cons_append, stringTail_cons hq (by simpa using hs), ih hk]
    rfl

theorem stringLength_cut (h : stringLength (front ++ rest) = some n) (hn : n ≤ front.length) :
    stringLength (front ++ back) = some n := by
  cases front with
  | nil =>
    obtain rfl : n = 0 := Nat.le_zero.mp hn
    exact absurd (stringLength_bounds h).1 (Nat.lt_irrefl 0)
  | cons c front =>
    obtain ⟨tail, hq⟩ := eq_quote_of_stringLength h
    rw [List.cons_append, List.cons.injEq] at hq
    obtain ⟨rfl, rfl⟩ := hq
    have htext : (stringTail (front ++ rest)).map (· + 1) = some n := h
    obtain ⟨k, hk, rfl⟩ := Option.map_eq_some_iff.mp htext
    have htail := stringTail_take hk (front.drop k ++ back)
    rw [List.take_append_of_le_length (Nat.le_of_succ_le_succ hn), ← List.append_assoc,
      List.take_append_drop] at htail
    exact Option.map_eq_some_iff.mpr ⟨k, htail, rfl⟩

theorem commentTail_take {text : List Char} (h : commentTail text = some n) (more : List Char) :
    commentTail (text.take n ++ more) = some n := by
  fun_induction commentTail text generalizing n with
  | case1 => cases h
  | case2 =>
    cases h
    rfl
  | case3 c rest hne ih =>
    obtain ⟨k, hk, rfl⟩ := Option.map_eq_some_iff.mp h
    obtain ⟨hpos, hle⟩ := commentTail_bounds hk
    obtain ⟨k, rfl⟩ := Nat.exists_eq_add_one_of_ne_zero (Nat.ne_zero_of_lt hpos)
    cases rest with
    | nil => cases hk
    | cons d rest =>
      have ih := ih hk
      rw [List.take_succ_cons, List.cons_append] at ih
      rw [List.take_succ_cons, List.take_succ_cons, List.cons_append, List.cons_append, commentTail,
        ih]
      · rfl
      · rintro tail rfl ⟨⟩
        exact hne rest rfl rfl

theorem eq_cons_cons_of_append {c d : Char} {tail : List Char} (h : front ++ rest = c :: d :: tail)
    (hn : 2 ≤ front.length) : ∃ more, front = c :: d :: more ∧ tail = more ++ rest := by
  obtain ⟨more, rfl⟩ : [c, d] <+: front :=
    List.prefix_of_prefix_length_le ⟨tail, h.symm⟩ (List.prefix_append front rest) hn
  exact ⟨more, rfl, by simpa [eq_comm] using h⟩

theorem blockLength_cut (h : blockLength (front ++ rest) = some n) (hn : n ≤ front.length) :
    blockLength (front ++ back) = some n := by
  unfold blockLength at h
  split at h
  · rename_i tail htext
    obtain ⟨k, hk, rfl⟩ := Option.map_eq_some_iff.mp h
    obtain ⟨front, rfl, rfl⟩ := eq_cons_cons_of_append htext (Nat.le_of_add_left_le hn)
    have htail := commentTail_take hk (front.drop k ++ back)
    rw [List.take_append_of_le_length (by simpa using hn), ← List.append_assoc,
      List.take_append_drop] at htail
    exact Option.map_eq_some_iff.mpr ⟨k, htail, rfl⟩
  · cases h

theorem lineLength_stops {text : List Char} (h : lineLength text = some n) :
    ∀ c ∈ (text.drop n).head?, c = '\n' := by
  unfold lineLength at h
  split at h
  · rename_i tail
    obtain rfl := Option.some.inj h
    intro c hc
    rw [List.drop_succ_cons, List.drop_succ_cons, drop_length_takeWhile, Option.mem_def] at hc
    have hstop := List.head?_dropWhile_not (· != '\n') tail
    rw [hc] at hstop
    simpa using hstop
  · cases h

/-- A line comment that ends within a text, or with it, is the same if its line ends there. -/
theorem lineLength_cut (h : lineLength (front ++ rest) = some n) (hn : n ≤ front.length)
    (hb : n = front.length → ∀ c ∈ back.head?, c = '\n') :
    lineLength (front ++ back) = some n := by
  unfold lineLength at h
  split at h
  · rename_i tail htext
    obtain rfl := Option.some.inj h
    obtain ⟨front, rfl, rfl⟩ := eq_cons_cons_of_append htext (Nat.le_of_add_left_le hn)
    have hsame : (front ++ back).takeWhile (· != '\n') = (front ++ rest).takeWhile (· != '\n') := by
      refine takeWhile_append_congr (by simpa using hn) fun he c hc => ?_
      rw [hb (by simpa using he) c hc]
      decide
    simp only [List.cons_append, lineLength, hsame]
  · cases h

theorem eq_of_prefix_of_reserved : ∀ word ∈ reserved, ∀ other ∈ reserved,
    word.toList <+: other.toList → word = other := by
  decide

theorem takeWhile_of_reserved {word : List Char} (hr : String.ofList word ∈ reserved)
    (hw : ∀ c ∈ word, isWordChar c = true) (h : identLength (word ++ rest) = none) :
    (word ++ rest).takeWhile isWordChar = word := by
  obtain ⟨c, tail, rfl, hc⟩ : ∃ c tail, word = c :: tail ∧ isAscii c = false := by
    have hfirst : ∀ word ∈ reserved, word.toList.head?.any (!isAscii ·) = true := by decide
    have hany := hfirst _ hr
    rw [String.toList_ofList] at hany
    cases word with
    | nil => cases hany
    | cons c tail => exact ⟨c, tail, rfl, by simpa using hany⟩
  have hwhole : (c :: tail ++ rest).takeWhile isWordChar =
      c :: (tail ++ rest.takeWhile isWordChar) := by
    rw [List.takeWhile_append_of_pos hw, List.cons_append]
  rw [identLength_of_takeWhile hwhole, hc, Bool.false_or, ite_eq_left_iff] at h
  have hreserved : String.ofList (c :: (tail ++ rest.takeWhile isWordChar)) ∈ reserved := by
    by_contra hfree
    exact absurd (h (by simpa using hfree)) (by simp)
  have he := eq_of_prefix_of_reserved _ hr _ hreserved
    (by
      rw [String.toList_ofList, String.toList_ofList, ← List.cons_append]
      exact List.prefix_append _ _)
  rw [hwhole]
  simpa using (congrArg String.toList he).symm

theorem identLength_cut_of_reserved {word : List Char} (hr : String.ofList word ∈ reserved)
    (hw : ∀ c ∈ word, isWordChar c = true) (hb : Breaks back)
    (h : identLength (word ++ front ++ rest) = none) :
    identLength (word ++ front ++ back) = none := by
  have ht : (word ++ front ++ rest).takeWhile isWordChar = word := by
    rw [List.append_assoc] at h ⊢
    exact takeWhile_of_reserved hr hw h
  have hle : ((word ++ front ++ rest).takeWhile isWordChar).length ≤ (word ++ front).length := by
    rw [ht, List.length_append]
    exact Nat.le_add_right _ _
  have hcut := takeWhile_cut (fun _ => isBlank_of_isWordChar) hb hle
  unfold identLength at h ⊢
  rw [hcut]
  exact h

theorem head_cut {p : Char → Bool} (hp : ∀ c, p c = true → isBlank c = false) (hb : Breaks back)
    (h : ∀ c ∈ (front ++ rest).head?, p c = false) : ∀ c ∈ (front ++ back).head?, p c = false := by
  cases front with
  | nil => exact fun c hc => not_of_isBlank hp (hb c hc)
  | cons d front => exact h

theorem unsignedLength_eq_none_iff {text : List Char} :
    unsignedLength text = none ↔ ∀ c ∈ text.head?, isAscii c = false := by
  rw [unsignedLength_eq]
  cases text with
  | nil => simp
  | cons c text =>
    cases hc : isAscii c with
    | false => simp [hc]
    | true => simp [hc]

theorem numberLength_cut_of_mark {c : Char} (hc : isAscii c = false) (hb : Breaks back)
    (h : numberLength (c :: (front ++ rest)) = none) :
    numberLength (c :: (front ++ back)) = none := by
  simp only [numberLength] at h ⊢
  split_ifs at h ⊢
  · rw [Option.map_eq_none_iff, unsignedLength_eq_none_iff] at h ⊢
    exact head_cut (fun _ hd => isBlank_of_isNumeralChar (isNumeralChar_of_isAscii hd)) hb h
  · exact unsignedLength_eq_none (by simpa using hc)

theorem isBlank_of_mem_spelling : ∀ terminal ∈ Terminal.fixed, ∀ spelling ∈ terminal.spelling?,
    ∀ c ∈ spelling.toList, isBlank c = false := by
  have hall : ∀ terminal ∈ Terminal.fixed, ∀ spelling ∈ terminal.spelling?,
      spelling.toList.all (!isBlank ·) = true := by decide
  intro terminal hm spelling hs
  simpa using hall terminal hm spelling hs

theorem terminalLength_fixed_cut (hm : terminal ∈ Terminal.fixed) (hb : Breaks back)
    (h : terminalLength terminal (front ++ rest) = none) :
    terminalLength terminal (front ++ back) = none := by
  obtain ⟨c, tail, hs, -⟩ := isFixed_of_mem hm
  have hlength (text : List Char) : terminalLength terminal text = none ↔ ¬c :: tail <+: text := by
    simp [terminalLength_fixed hm, hs, List.isPrefixOf_iff_prefix]
  have hblank : ∀ d ∈ c :: tail, isBlank d = false := by
    simpa using isBlank_of_mem_spelling _ hm _ hs
  rw [hlength] at h ⊢
  intro hp
  have hfront : c :: tail <+: front := by
    apply prefix_of_prefix_append hp
    intro d hd hm
    exact absurd (hb d hd) (by simp [hblank d hm])
  exact h (hfront.trans (List.prefix_append _ _))

theorem IsFixed.slash_cut {c d : Char} {tail more : List Char} (hf : IsFixed c tail)
    (hb : Breaks back) (h : c :: tail ++ front ++ back = '/' :: d :: more)
    (hd : isBlank d = false) : ∃ more, c :: tail ++ front = '/' :: d :: more := by
  obtain ⟨rfl, hrest⟩ := List.cons.inj h
  obtain rfl : tail = [] := hf.slash rfl
  cases front with
  | nil =>
    have hblank := hb d (congrArg List.head? hrest)
    rw [hd] at hblank
    cases hblank
  | cons e front =>
    obtain ⟨rfl, -⟩ := List.cons.inj hrest
    exact ⟨front, rfl⟩

/-- Nothing that could be tried first at a fixed word gets a chance to before a blank. -/
theorem length?_cut_of_fixed {c : Char} {tail : List Char} (hf : IsFixed c tail)
    (hb : Breaks back) (hc : ∀ more, c :: tail ++ front ≠ '/' :: '*' :: more) {other : Lexeme}
    (h : other.length? (c :: tail ++ front ++ rest) = none) :
    other.length? (c :: tail ++ front ++ back) = none := by
  cases other with
  | token other =>
    by_cases hm : other ∈ Terminal.fixed
    · exact terminalLength_fixed_cut hm hb h
    · cases other with
      | ident =>
        obtain ⟨hw, hr⟩ | hw := hf.word
        · exact identLength_cut_of_reserved hr (List.all_eq_true.mp hw) hb h
        · exact identLength_eq_none (.inl hw)
      | number =>
        have hnumber : numberLength (c :: (tail ++ front ++ rest)) = none := h
        exact numberLength_cut_of_mark hf.digit hb hnumber
      | string =>
        cases hs : stringLength (c :: (tail ++ front ++ back)) with
        | none => exact hs
        | some k =>
          obtain ⟨_, hq⟩ := eq_quote_of_stringLength hs
          exact absurd (List.cons.inj hq).1 hf.quote
      | endOfInput => rfl
      | _ => exact absurd (by decide) hm
  | blockComment =>
    show blockLength (c :: tail ++ front ++ back) = none
    unfold blockLength
    split
    · rename_i heq
      obtain ⟨more, hmore⟩ := hf.slash_cut hb heq (by decide)
      exact absurd hmore (hc more)
    · rfl
  | lineComment =>
    show lineLength (c :: tail ++ front ++ back) = none
    unfold lineLength
    split
    · rename_i heq
      obtain ⟨more, hmore⟩ := hf.slash_cut hb heq (by decide)
      rw [hmore] at h
      cases h
    · rfl
  | blanks => simp [length?, blanksLength, hf.blank]

theorem standsFirst_fixed_cut (hm : terminal ∈ Terminal.fixed)
    (h : StandsFirst accepts (front ++ rest) (.token terminal) n) (hn : n ≤ front.length)
    (hb : Breaks back) (hc : ∀ tail, front ≠ '/' :: '*' :: tail) :
    StandsFirst accepts (front ++ back) (.token terminal) n := by
  obtain ⟨before, after, ho, ha, hl, hbefore⟩ := h
  obtain ⟨c, tail, hs, hf⟩ := isFixed_of_mem hm
  have hlength (text : List Char) : (token terminal).length? text = some n ↔
      c :: tail <+: text ∧ tail.length + 1 = n := by
    simp [length?, terminalLength_fixed hm, hs, List.isPrefixOf_iff_prefix, Nat.add_comm]
  obtain ⟨hp, rfl⟩ := (hlength _).mp hl
  obtain ⟨front, rfl⟩ : ∃ more, front = c :: tail ++ more := by
    obtain ⟨more, hmore⟩ := List.prefix_of_prefix_length_le hp (List.prefix_append _ _) hn
    exact ⟨more, hmore.symm⟩
  refine ⟨before, after, ho, ha, (hlength _).mpr ⟨?_, rfl⟩, fun other hother hadmits => ?_⟩
  · exact ⟨front ++ back, (List.append_assoc _ _ _).symm⟩
  · exact length?_cut_of_fixed hf hb hc (hbefore other hother hadmits)

/-- A token that lies in the front of a text stands there before a blank as well, except for a
slash that would open a comment. -/
theorem standsFirst_token_cut (h : StandsFirst accepts (front ++ rest) (.token terminal) n)
    (hn : n ≤ front.length) (hb : Breaks back) (hc : ∀ tail, front ≠ '/' :: '*' :: tail) :
    StandsFirst accepts (front ++ back) (.token terminal) n := by
  by_cases hm : terminal ∈ Terminal.fixed
  · exact standsFirst_fixed_cut hm h hn hb hc
  · obtain ⟨_, _, _, ha, hl, _⟩ := h
    have hother : (token terminal).isFixed = false := by simpa [Lexeme.isFixed] using hm
    refine standsFirst_of_length? hother ha ?_
    cases terminal with
    | ident => exact identLength_cut hb hl hn
    | number => exact numberLength_cut hb hl hn
    | string => exact stringLength_cut hl hn
    | endOfInput => cases hl
    | _ => exact absurd (by decide) hm

/-- A comment that is closed stays closed. -/
theorem standsFirst_blockComment_cut (h : StandsFirst accepts (front ++ rest) .blockComment n)
    (hn : n ≤ front.length) : StandsFirst accepts (front ++ back) .blockComment n := by
  obtain ⟨_, _, _, _, hl, _⟩ := h
  exact standsFirst_of_length? rfl rfl (blockLength_cut hl hn)

theorem standsFirst_lineComment_cut (h : StandsFirst accepts (front ++ rest) .lineComment n)
    (hn : n ≤ front.length) (hb : n = front.length → ∀ c ∈ back.head?, c = '\n') :
    StandsFirst accepts (front ++ back) .lineComment n := by
  obtain ⟨_, _, _, _, hl, _⟩ := h
  exact standsFirst_of_length? rfl rfl (lineLength_cut hl hn hb)

end ScriptLang
