import ScriptLang.Proofs.Eval.Faults
import ScriptLang.Proofs.Repl.Rounds

/-! # Ends of the interactive loop

The loop ends with its input, with `exit` or with one of the two faults that parsed programs can
meet. These are no errors of the language, so they are not reported and no further line is read.
-/

namespace ScriptLang

/-- The failures that end the loop. A run without fuel does not end at all. -/
inductive Failure.EndsLoop : Failure → Prop where
  | exit {code : Int} : EndsLoop (.exit code)
  | remainder : EndsLoop (.fault .remainderUndefined)
  | longText {digits : Nat} : EndsLoop (.fault (.integerTextTooLong digits))
  | endless : EndsLoop .outOfFuel

variable {machine after : Machine} {failure : Failure} {debug : Nat} {source : String}

theorem Machine.Arises.runTree_failed (hm : machine.Arises) {root : Node}
    (hp : parse source = .ok root) {frame : Nat}
    (h : Session.runTree debug frame root machine = (.failed failure, after)) :
    failure.IsError ∨ failure.EndsLoop := by
  unfold Session.runTree Session.perform at h
  split at h
  · cases h
  · rename_i hr
    cases h
    rcases hm.run_fails hp hr with ho | rfl
    · cases ho with
      | error => exact .inl ⟨_, rfl⟩
      | exit => exact .inr .exit
      | remainder => exact .inr .remainder
      | longText => exact .inr .longText
    · exact .inr .endless

namespace Repl

/-- What can become of a line on a console. -/
inductive Answers (debug : Nat) (line : String) (console : Console) : Prop where
  | unparsed {error : ParseError} : parse line = .error error →
      runLine debug line console = (none, { console with
        err := console.err ++ "Parse error: " ++ error.report line ++ "\n" }) →
      Answers debug line console
  | done {root : Node} {value : Value} {after : Machine} : parse line = .ok root →
      Session.runTree debug Session.globalFrame root console.machine = (.done value, after) →
      runLine debug line console = (none, ⟨after.write (echo root value), console.err⟩) →
      Answers debug line console
  | error {root : Node} {error : RuntimeError} {after : Machine} : parse line = .ok root →
      Session.runTree debug Session.globalFrame root console.machine =
        (.failed (.error error), after) →
      runLine debug line console =
        (none, ⟨after, console.err ++ "Runtime error: " ++ error.report ++ "\n"⟩) →
      Answers debug line console
  | ends {root : Node} {failure : Failure} {after : Machine} : parse line = .ok root →
      Session.runTree debug Session.globalFrame root console.machine = (.failed failure, after) →
      failure.EndsLoop → runLine debug line console = (some failure, ⟨after, console.err⟩) →
      Answers debug line console

theorem settle_of_endsLoop {root : Node} {err : String} (h : failure.EndsLoop) :
    settle root err (.failed failure, machine) = (some failure, ⟨machine, err⟩) := by
  cases h with
  | _ => rfl

theorem answers {console : Console} (hm : console.machine.Arises) (line : String) :
    Answers debug line console := by
  cases hp : parse line with
  | error error => exact .unparsed hp (runLine_of_error hp)
  | ok root =>
    have hline : runLine debug line console = _ := runLine_of_ok hp
    cases hr : Session.runTree debug Session.globalFrame root console.machine with
    | mk outcome after =>
      rw [hr] at hline
      cases outcome with
      | done value => exact .done hp hr hline
      | unparsed error => exact absurd (congrArg Prod.fst hr) Session.runTree_ne_unparsed
      | failed failure =>
        rcases hm.runTree_failed hp hr with ⟨error, rfl⟩ | he
        · exact .error hp hr hline
        · exact .ends hp hr he (hline.trans (settle_of_endsLoop he))

theorem Answers.endsLoop {line : String} {console after : Console} (h : Answers debug line console)
    (he : runLine debug line console = (some failure, after)) : failure.EndsLoop := by
  cases h with
  | unparsed _ hline => cases hline.symm.trans he
  | done _ _ hline => cases hline.symm.trans he
  | error _ _ hline => cases hline.symm.trans he
  | ends _ _ hends hline =>
    cases hline.symm.trans he
    exact hends

inductive Known : End → Prop where
  | endOfInput : Known .endOfInput
  | failed {failure : Failure} : failure.EndsLoop → Known (.failed failure)

theorem round_known {console after : Console} {ending : End} (hm : console.machine.Arises)
    (h : round debug console = (some ending, after)) : Known ending := by
  unfold round at h
  dsimp only at h
  split at h
  · cases h
    exact .endOfInput
  · split at h
    · cases h
    · cases hline : runLine debug (String.ofList (Machine.nextLine console.machine.input).1)
        (console.ask (Machine.nextLine console.machine.input).2) with
      | mk failure last =>
        rw [hline] at h
        cases failure with
        | none => cases h
        | some failure =>
          cases h
          exact .failed ((answers (ask_arises hm _) _).endsLoop hline)

theorem loop_known {console : Console} (hm : console.machine.Arises) (rounds : Nat) :
    Known (loop debug rounds console).1 := by
  induction rounds generalizing console with
  | zero => exact .endOfInput
  | succ rounds ih =>
    have hafter : (round debug console).2.machine.Arises := round_arises hm
    rw [loop_succ]
    cases hr : round debug console with
    | mk ending after =>
      rw [hr] at hafter
      cases ending with
      | none => exact ih hafter
      | some ending => exact round_known hm hr

theorem loop_of_line {console after : Console} {line rest : List Char}
    (hn : Machine.nextLine console.machine.input = (line, rest)) (he : line ≠ [])
    (hb : line.all Blank.isBlank = false)
    (h : runLine debug (String.ofList line) (console.ask rest) = (none, after)) (rounds : Nat) :
    loop debug (rounds + 1) console = loop debug rounds after := by
  rw [loop_succ, round_of_line hn he hb, h]
  rfl

/-- The loop ends at the end of its input, by `exit` or with one of two faults. Every other line
is answered, by its value or by the report of an error, and the next line is read. The faults come
from values only: the remainder of an infinite dividend, and a text with too many digits for an
integer. All other failures of operators and built-in functions are errors of the language. -/
theorem loop_ends (debug : Nat) (input : String) :
    Known (run debug ⟨.initial input, ""⟩).1 ∧
    (Machine.initial input).Arises ∧
    (∀ console, console.machine.Arises → (round debug console).2.machine.Arises) ∧
    (∀ line console, console.machine.Arises → Answers debug line console) ∧
    (∀ console after line rest, Machine.nextLine console.machine.input = (line, rest) →
      line ≠ [] → line.all Blank.isBlank = false →
      runLine debug (String.ofList line) (console.ask rest) = (none, after) →
      ∀ rounds, loop debug (rounds + 1) console = loop debug rounds after) ∧
    (∀ op (a b : Value) failure, a.Sound → b.Sound → a.binary (.str op) b = .error failure →
      failure.IsError ∨ failure = .fault .remainderUndefined ∧ op = "%" ∧ a.Undivided b) ∧
    (∀ a b : Value, b.Sound → a.Undivided b →
      a.binary (.str "%") b = .error (.fault .remainderUndefined)) ∧
    (∀ op (a : Value) failure, a.Sound → a.unary op = .error failure → failure.IsError) ∧
    (∀ function args machine failure after, (∀ value ∈ args, Value.Sound value) →
      Eval.builtin function args machine = .error failure after →
        BuiltinFails function args failure) ∧
    ∀ text count machine, Value.IsTooLong text count →
      Eval.builtin .int [.str text] machine =
        .error (.fault (.integerTextTooLong count)) machine := by
  refine ⟨loop_known (.initial input) _, .initial input, fun _ => round_arises,
    fun line console hm => answers hm line,
    fun console after line rest hn he hb h => loop_of_line hn he hb h,
    fun op a b failure ha hb => Value.Sound.binary_fails ha hb,
    fun a b => Value.binary_of_undivided, fun op a failure => Value.Sound.unary_fails,
    fun function args machine failure after => builtin_fails, ?_⟩
  intro text count machine h
  show Eval.ofExcept (Value.toInteger (.str text)) machine = _
  rw [Value.toInteger_of_isTooLong h]
  rfl

theorem isTooLong_ones {count : Nat} (h : Integer.digitLimit < count) :
    Value.IsTooLong (String.ofList (List.replicate count '1')) count := by
  refine ⟨false, List.replicate count '1', ?_, List.length_replicate, h⟩
  have hall : (List.replicate count '1').all DecimalDigit.isAscii = true := by
    rw [List.all_eq_true]
    intro c hc
    rw [List.eq_of_mem_replicate hc]
    decide
  obtain ⟨rest, rfl⟩ := Nat.exists_eq_add_one_of_ne_zero (Nat.ne_zero_of_lt h)
  rw [String.toList_ofList, List.replicate_succ] at *
  have hs : Reading.splitSign ('1' :: List.replicate rest '1') =
      (false, '1' :: List.replicate rest '1') := rfl
  rw [Reading.splitInteger?, hs]
  exact if_pos hall

/-- The remainder of infinity ends the loop without a report, and the line after it is not read. -/
theorem loop_ends_unreported :
    ∃ console, run 0 ⟨.initial "1e999 % 1;\n2;\n", ""⟩ =
        (.failed (.fault .remainderUndefined), console) ∧
      console.err = "" ∧ console.machine.out = "> " ∧ console.machine.input = "2;\n".toList := by
  have hall : (run 0 ⟨.initial "1e999 % 1;\n2;\n", ""⟩).1.failure? =
        some (.fault .remainderUndefined) ∧
      (run 0 ⟨.initial "1e999 % 1;\n2;\n", ""⟩).2.err = "" ∧
      (run 0 ⟨.initial "1e999 % 1;\n2;\n", ""⟩).2.machine.out = "> " ∧
      (run 0 ⟨.initial "1e999 % 1;\n2;\n", ""⟩).2.machine.input = "2;\n".toList := by
    decide +kernel
  obtain ⟨hf, herr, hout, hinput⟩ := hall
  exact ⟨_, Prod.ext (End.eq_failed hf) rfl, herr, hout, hinput⟩

/-- Lines, operators and functions that fail in each of these ways. -/
theorem loop_ends_faults :
    let console : Console := ⟨.initial "2;\n", ""⟩
    let infinity : Value := .float (.infinite false)
    let ones := String.ofList (List.replicate 4301 '1')
    Known (run 0 console).1 ∧ console.machine.Arises ∧ (round 0 console).2.machine.Arises ∧
      Answers 0 "1e999 % 1;" console ∧
      (∃ after, runLine 0 "2;\n" (console.ask []) = (none, after) ∧
        ∀ rounds, loop 0 (rounds + 1) console = loop 0 rounds after) ∧
      infinity.binary (.str "%") (.int 1) = .error (.fault .remainderUndefined) ∧
      (Failure.IsError (.fault .remainderUndefined) ∨
        Failure.fault .remainderUndefined = .fault .remainderUndefined ∧ "%" = "%" ∧
          infinity.Undivided (.int 1)) ∧
      (Value.str "").unary (.str "neg") = .error (.error (.negatedNonNumber "String")) ∧
      Failure.IsError (.error (.negatedNonNumber "String")) ∧
      Value.IsTooLong ones 4301 ∧
      Eval.builtin .int [.str ones] console.machine =
        .error (.fault (.integerTextTooLong 4301)) console.machine ∧
      BuiltinFails .int [.str ones] (.fault (.integerTextTooLong 4301)) := by
  intro console infinity ones
  obtain ⟨hknown, hm, hround, hanswers, hnext, hbinary, hundivided, hunary, hbuiltin, htooLong⟩ :=
    loop_ends 0 "2;\n"
  have hline : (runLine 0 "2;\n" (console.ask [])).1 = none := by decide +kernel
  have hdivisor : Value.Undivided infinity (.int 1) :=
    ⟨⟨false, rfl⟩, .int 1, rfl, rfl, nofun⟩
  have hsound : (Value.int 1).Sound := show Integer.inRange 1 = true by decide
  have hfault := hundivided infinity (.int 1) hsound hdivisor
  have hones : Value.IsTooLong ones 4301 := isTooLong_ones (by decide)
  have hlong := htooLong ones 4301 console.machine hones
  refine ⟨hknown, hm, hround console hm, hanswers _ console hm, ⟨_, Prod.ext hline rfl, ?_⟩, hfault,
    hbinary "%" infinity (.int 1) _ trivial hsound hfault, rfl,
    hunary (.str "neg") (.str "") _ trivial rfl, hones, hlong,
    hbuiltin .int [.str ones] console.machine _ _ (by simp [Value.Sound]) hlong⟩
  exact hnext console _ "2;\n".toList [] (by decide) (by decide) (by decide)
    (Prod.ext hline rfl)

end Repl

end ScriptLang
