import ScriptLang.Proofs.Eval.Pairing

/-! # Output and input of a run

A run writes at the end of the output and takes whole lines from the input. What else it does
depends on the lines that it takes, but not on what was written before nor on what is left to read.
-/

namespace ScriptLang

variable {α β : Type} {machine : Machine}

namespace Machine

theorem nextLine_of_ne {c : Char} (hc : c ≠ '\n') (input : List Char) :
    nextLine (c :: input) = (c :: (nextLine input).1, (nextLine input).2) := by
  have hp : (c != '\n') = true := by simpa using hc
  unfold nextLine
  rw [List.takeWhile_cons_of_pos (p := (· != '\n')) hp]
  simp only [List.length_cons, List.drop_succ_cons]
  cases List.drop (List.takeWhile (· != '\n') input).length input with
  | nil => rfl
  | cons last rest => rfl

theorem nextLine_append (input : List Char) :
    (nextLine input).1 ++ (nextLine input).2 = input := by
  induction input with
  | nil => rfl
  | cons c input ih =>
    by_cases hc : c = '\n'
    · subst hc
      rfl
    · rw [nextLine_of_ne hc]
      exact congrArg (c :: ·) ih

theorem nextLine_ne_nil {input : List Char} (h : input ≠ []) : (nextLine input).1 ≠ [] := by
  cases input with
  | nil => exact absurd rfl h
  | cons c input =>
    by_cases hc : c = '\n'
    · subst hc
      exact nofun
    · rw [nextLine_of_ne hc]
      exact nofun

/-- A line is taken again from before another input, unless it is the last one and lacks its line
feed. -/
theorem nextLine_again {input more : List Char} (h : (nextLine input).2 = [] → more = []) :
    nextLine ((nextLine input).1 ++ more) = ((nextLine input).1, more) := by
  induction input with
  | nil =>
    rw [h rfl]
    rfl
  | cons c input ih =>
    by_cases hc : c = '\n'
    · subst hc
      rfl
    · rw [nextLine_of_ne hc] at h ⊢
      rw [List.cons_append, nextLine_of_ne hc, ih h]

end Machine

/-- Lines that are taken from an input one after another, and what is left of it. -/
inductive Reads : List Char → List (List Char) → List Char → Prop where
  | done {input : List Char} : Reads input [] input
  | next {input line rest last : List Char} {lines : List (List Char)} : input ≠ [] →
      Machine.nextLine input = (line, rest) → Reads rest lines last →
      Reads input (line :: lines) last

namespace Reads

variable {input rest last more : List Char} {lines others : List (List Char)}

theorem append (h : Reads input lines rest) (h' : Reads rest others last) :
    Reads input (lines ++ others) last := by
  induction h with
  | done => exact h'
  | next hne hn _ ih => exact .next hne hn (ih h')

theorem split (h : Reads input (lines ++ others) last) :
    ∃ rest, Reads input lines rest ∧ Reads rest others last := by
  induction lines generalizing input with
  | nil => exact ⟨input, .done, h⟩
  | cons line lines ih =>
    cases h with
    | next hne hn h =>
      obtain ⟨rest, hl, ho⟩ := ih h
      exact ⟨rest, .next hne hn hl, ho⟩

theorem of_nil (h : Reads [] lines last) : lines = [] ∧ last = [] := by
  cases h with
  | done => exact ⟨rfl, rfl⟩
  | next hne => exact absurd rfl hne

theorem eq_append (h : Reads input lines last) : input = lines.flatten ++ last := by
  induction h with
  | done => rfl
  | @next input line rest last lines _ hn _ ih =>
    have hline := Machine.nextLine_append input
    rw [hn] at hline
    rw [List.flatten_cons, List.append_assoc, ← ih]
    exact hline.symm

theorem length_le (h : Reads input lines last) : last.length ≤ input.length := by
  rw [h.eq_append, List.length_append]
  exact Nat.le_add_left _ _

theorem again (h : Reads input lines last) (hm : last = [] → more = []) :
    Reads (lines.flatten ++ more) lines more := by
  induction h with
  | done => exact .done
  | @next input line rest last lines hne hn h ih =>
    have hline := Machine.nextLine_ne_nil hne
    rw [hn] at hline
    have hagain : Machine.nextLine (line ++ (lines.flatten ++ more)) =
        (line, lines.flatten ++ more) := by
      have hrest : (Machine.nextLine input).2 = [] → lines.flatten ++ more = [] := by
        intro he
        rw [hn] at he
        subst he
        obtain ⟨rfl, rfl⟩ := h.of_nil
        rw [hm rfl]
        rfl
      have h := Machine.nextLine_again hrest
      rwa [hn] at h
    rw [List.flatten_cons, List.append_assoc]
    exact .next (List.append_ne_nil_of_left_ne_nil hline _) hagain (ih hm)

end Reads

def Machine.streaming (machine : Machine) (out : String) (input : List Char) : Machine :=
  { machine with out, input }

def leaving : EStateM.Result Failure Machine α → Machine
  | .ok _ machine => machine
  | .error _ machine => machine

def streaming (out : String) (input : List Char) :
    EStateM.Result Failure Machine α → EStateM.Result Failure Machine α
  | .ok value machine => .ok value (machine.streaming out input)
  | .error failure machine => .error failure (machine.streaming out input)

/-- An action that starts on a machine writes a text and takes lines from the input. It does the
same on every machine with another output and with another input that begins with these lines; but
once the input has come to its end, it has to do so there as well. -/
structure StreamsAt (action : Eval α) (machine : Machine) (text : String)
    (lines : List (List Char)) : Prop where
  out : (leaving (action machine)).out = machine.out ++ text
  input : Reads machine.input lines (leaving (action machine)).input
  alike {out : String} {input rest : List Char} : Reads input lines rest →
    ((leaving (action machine)).input = [] → rest = []) →
    action (machine.streaming out input) = streaming (out ++ text) rest (action machine)

def Streams (action : Eval α) : Prop := ∀ machine, ∃ text lines, StreamsAt action machine text lines

theorem Streams.bind {action : Eval α} {next : α → Eval β} (h : Streams action)
    (hn : ∀ result, Streams (next result)) : Streams (action >>= next) := by
  intro machine
  obtain ⟨text, lines, hout, hinput, halike⟩ := h machine
  cases hr : action machine with
  | ok value during =>
    rw [hr] at hout hinput halike
    obtain ⟨text', lines', hout', hinput', halike'⟩ := hn value during
    refine ⟨text ++ text', lines ++ lines', ?_, ?_, ?_⟩
    · rw [bind_of_eq_ok hr, hout', ← String.append_assoc]
      exact congrArg (· ++ text') hout
    · rw [bind_of_eq_ok hr]
      exact hinput.append hinput'
    · intro out input rest hlines hend
      rw [bind_of_eq_ok hr] at hend ⊢
      obtain ⟨middle, hfirst, hsecond⟩ := hlines.split
      -- At the end of the input the second action takes nothing either.
      have hmiddle : during.input = [] → middle = [] := by
        intro he
        rw [he] at hinput'
        obtain ⟨rfl, hlast⟩ := hinput'.of_nil
        cases hsecond
        exact hend hlast
      rw [bind_of_eq_ok (halike hfirst hmiddle), ← String.append_assoc]
      exact halike' hsecond hend
  | error failure during =>
    rw [hr] at hout hinput halike
    refine ⟨text, lines, ?_, ?_, ?_⟩
    · rw [bind_of_eq_error hr]
      exact hout
    · rw [bind_of_eq_error hr]
      exact hinput
    · intro out input rest hlines hend
      rw [bind_of_eq_error hr] at hend ⊢
      exact bind_of_eq_error (halike hlines hend)

theorem Streams.of_streaming {action : Eval α} (h : ∀ machine out input,
    action (machine.streaming out input) = streaming out input (action machine)) :
    Streams action := by
  intro machine
  have hself : action machine = streaming machine.out machine.input (action machine) :=
    h machine machine.out machine.input
  have hleft : leaving (action machine) =
      (leaving (action machine)).streaming machine.out machine.input := by
    rw [hself]
    cases action machine with
    | ok value after => rfl
    | error failure after => rfl
  refine ⟨"", [], ?_, ?_, ?_⟩
  · rw [String.append_empty, hleft]
    rfl
  · rw [hleft]
    exact .done
  · intro out input rest hread _
    cases hread
    rw [String.append_empty]
    exact h machine out input

theorem Streams.pure {result : α} : Streams (pure result) := .of_streaming fun _ _ _ => rfl

theorem Streams.throw {failure : Failure} : Streams (throw failure : Eval α) :=
  .of_streaming fun _ _ _ => rfl

theorem Machine.streaming_note {debug level : Nat} {message : Unit → String} {out : String}
    {input : List Char} : (machine.streaming out input).note debug level message =
      (machine.note debug level message).streaming out input := by
  unfold note
  split
  · rfl
  · rfl

theorem streams_note {context : Context} {level : Nat} {message : Unit → String} :
    Streams (Eval.note context level message) :=
  .of_streaming fun _ _ _ => congrArg (EStateM.Result.ok PUnit.unit) Machine.streaming_note

theorem streams_write {text : String} : Streams (Eval.write text) := by
  refine fun machine => ⟨text, [], rfl, .done, ?_⟩
  intro out input rest hread _
  cases hread
  rfl

/-- A line without the line feeds and carriage returns at its end. -/
def lineText (line : List Char) : String :=
  String.ofList (line.reverse.dropWhile fun c => c == '\r' || c == '\n').reverse

theorem readLine_eq (machine : Machine) {line rest : List Char}
    (h : Machine.nextLine machine.input = (line, rest)) :
    Eval.readLine machine = .ok (lineText line) { machine with input := rest } := by
  have hread : Eval.readLine machine = .ok (lineText (Machine.nextLine machine.input).1)
    { machine with input := (Machine.nextLine machine.input).2 } := rfl
  rw [hread, h]

theorem streams_readLine : Streams Eval.readLine := by
  intro machine
  have hread : Eval.readLine machine = .ok (lineText (Machine.nextLine machine.input).1)
    { machine with input := (Machine.nextLine machine.input).2 } := readLine_eq machine rfl
  by_cases hm : machine.input = []
  · -- At the end of the input a read takes nothing, and has to do so elsewhere too.
    rw [hm] at hread
    refine ⟨"", [], ?_, ?_, ?_⟩
    · rw [hread, String.append_empty]
      rfl
    · rw [hread, hm]
      exact .done
    · intro out input rest hlines hend
      cases hlines
      rw [hread] at hend ⊢
      obtain rfl := hend rfl
      rw [String.append_empty, readLine_eq (machine.streaming out []) rfl]
      rfl
  · refine ⟨"", [(Machine.nextLine machine.input).1], ?_, ?_, ?_⟩
    · rw [hread, String.append_empty]
      rfl
    · rw [hread]
      exact .next hm rfl .done
    · intro out input rest hlines _
      cases hlines with
      | next _ hn hlines =>
        cases hlines
        rw [hread, String.append_empty, readLine_eq (machine.streaming out input) hn]
        rfl

theorem leaving_finishing {context : Context} {action : Eval Value} :
    leaving (Eval.finishing context action machine) =
      (leaving (action machine)).note context.debug 1 fun _ => "program finished" := by
  unfold Eval.finishing
  cases action machine with
  | ok value after => rfl
  | error failure after =>
    cases failure with
    | _ => rfl

theorem Machine.streams_of_note {debug level : Nat} {message : Unit → String} :
    (machine.note debug level message).out = machine.out ∧
      (machine.note debug level message).input = machine.input := by
  unfold note
  split
  · exact ⟨rfl, rfl⟩
  · exact ⟨rfl, rfl⟩

theorem Streams.finishing {context : Context} {action : Eval Value} (h : Streams action) :
    Streams (Eval.finishing context action) := by
  intro machine
  obtain ⟨text, lines, hout, hinput, halike⟩ := h machine
  refine ⟨text, lines, ?_, ?_, ?_⟩
  · rw [leaving_finishing, Machine.streams_of_note.1, hout]
  · rw [leaving_finishing, Machine.streams_of_note.2]
    exact hinput
  · intro out input rest hlines hend
    rw [leaving_finishing, Machine.streams_of_note.2] at hend
    unfold Eval.finishing
    rw [halike hlines hend]
    cases action machine with
    | ok value after => exact congrArg (EStateM.Result.ok value) Machine.streaming_note
    | error failure after =>
      cases failure with
      | _ => exact congrArg (EStateM.Result.error _) Machine.streaming_note

def Unreading (action : Eval α) : Prop :=
  ∀ machine, (leaving (action machine)).input = machine.input

namespace Unreading

theorem pure {result : α} : Unreading (pure result) := fun _ => rfl

theorem throw {failure : Failure} : Unreading (throw failure : Eval α) := fun _ => rfl

theorem write {text : String} : Unreading (Eval.write text) := fun _ => rfl

theorem bind {action : Eval α} {next : α → Eval β} (h : Unreading action)
    (hn : ∀ result, Unreading (next result)) : Unreading (action >>= next) := by
  intro machine
  have hfirst := h machine
  cases hr : action machine with
  | ok value during =>
    rw [hr] at hfirst
    rw [bind_of_eq_ok hr]
    exact (hn value during).trans hfirst
  | error failure during =>
    rw [hr] at hfirst
    rw [bind_of_eq_error hr]
    exact hfirst

theorem ofExcept {result : Except Failure α} : Unreading (Eval.ofExcept result) := by
  cases result with
  | ok value => exact .pure
  | error failure => exact .throw

theorem mapM {action : α → Eval β} {items : List α} (h : ∀ item, Unreading (action item)) :
    Unreading (items.mapM action) := by
  induction items with
  | nil => exact .pure
  | cons item items ih =>
    rw [List.mapM_cons]
    exact (h item).bind fun _ => ih.bind fun _ => .pure

theorem builtin {function : Builtin} {args : List Value} (hf : function ≠ .input) :
    Unreading (Eval.builtin function args) := by
  unfold Eval.builtin
  split
  · exact (mapM fun _ => ofExcept).bind fun _ => write.bind fun _ => .pure
  · exact ofExcept.bind fun _ => .pure
  · exact ofExcept.bind fun _ => .pure
  · exact .ofExcept
  · exact .ofExcept
  · exact .ofExcept
  · exact .ofExcept
  · exact .ofExcept
  · exact .ofExcept
  · exact absurd rfl hf
  · exact absurd rfl hf
  · exact absurd rfl hf
  · exact absurd rfl hf
  · exact .throw
  · exact .throw
  · exact .throw
  · exact .throw
  · exact .pure

end Unreading

def Pairing.itself (debug : Nat) : Pairing :=
  ⟨debug, debug, fun action action' => action' = action ∧ Streams action⟩

theorem Pairing.other_itself {debug : Nat} {context : Context}
    (hd : context.debug = (itself debug).first) : (itself debug).other context = context := by
  obtain rfl : context.debug = debug := hd
  rfl

theorem streams_noteCall {context : Context} {function : Value} {depth : Nat} :
    Streams (Eval.noteCall context function depth) := by
  unfold Eval.noteCall Eval.demandText
  dsimp only
  split
  · refine Streams.bind ?_ fun _ => streams_note
    split
    · exact .pure
    · exact .throw
  · exact streams_note

theorem Pairing.lawful_itself (debug : Nat) : (itself debug).Lawful where
  value := ⟨rfl, .pure⟩
  failure := ⟨rfl, .throw⟩
  bind := by
    rintro α β action _ next next' ⟨rfl, h⟩ hn
    obtain rfl : next' = next := funext fun result => (hn result).1
    exact ⟨rfl, h.bind fun result => (hn result).2⟩
  frames := by
    intro α next next' h
    obtain rfl : next' = next := funext fun machine => (h machine machine rfl).1
    refine ⟨rfl, fun machine => ?_⟩
    obtain ⟨text, lines, hout, hinput, halike⟩ := (h machine machine rfl).2 machine
    refine ⟨text, lines, hout, hinput, fun {out input rest} hlines hend => ?_⟩
    have hsame := (h machine (machine.streaming out input) rfl).1
    show next' (machine.streaming out input) (machine.streaming out input) = _
    rw [hsame]
    exact halike hlines hend
  reframe change := ⟨rfl, .of_streaming fun _ _ _ => rfl⟩
  write := ⟨rfl, streams_write⟩
  readLine := ⟨rfl, streams_readLine⟩
  note hd := by
    rw [other_itself hd]
    exact ⟨rfl, streams_note⟩
  noteCall hd := by
    rw [other_itself hd]
    exact ⟨rfl, streams_noteCall⟩
  finishing := by
    rintro context action _ hd ⟨rfl, h⟩
    rw [other_itself hd]
    exact ⟨rfl, h.finishing⟩

theorem streams_run (fuel : Nat) (context : Context) (root : Node) :
    Streams (Eval.run fuel context root) := by
  have hpaired : (Pairing.itself context.debug).Pairs (Eval.run fuel context root)
      (Eval.run fuel context root) :=
    ((Pairing.lawful_itself context.debug).paired (.inl rfl)).run rfl
  exact hpaired.2

end ScriptLang
