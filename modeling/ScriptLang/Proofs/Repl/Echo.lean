import ScriptLang.Proofs.Eval.Progress
import ScriptLang.Proofs.Eval.Sessions
import ScriptLang.Proofs.Repl.Rounds

/-! # What the loop shows of a line

The loop shows a value if the last statement of a line is an expression. Mostly the value is that of
the expression. But a statement before may return: then the expression is not evaluated, and the
loop shows what has been returned.
-/

namespace ScriptLang

variable {debug : Nat} {machine after : Machine} {nodes : List Node} {value : Value}

namespace Session

theorem runTree_done_iff :
    (∃ after, runTree debug globalFrame (.program nodes) machine = (.done value, after)) ↔
      ∃ during, (Stage.first debug nodes machine).finish (Session.fuel - 1) (inner debug) =
        .ok value during := by
  have hdone : (∃ after, runTree debug globalFrame (.program nodes) machine = (.done value, after)) ↔
      ∃ after, Eval.run (Session.fuel - 1 + 1) (context debug globalFrame) (.program nodes) machine =
        .ok value after := by
    rw [runTree, perform, ← fuel_eq_add_one]
    cases Eval.run Session.fuel (context debug globalFrame) (.program nodes) machine with
    | ok result last => simp
    | error failure last => simp
  exact hdone.trans (run_done_iff (Nat.succ_ne_zero _))

end Session

theorem Value.textOrFault_of_hasText (h : value.hasText = true) :
    value.textOrFault = .ok value.text := by
  rw [← Value.isSome_text?] at h
  obtain ⟨text, ht⟩ := Option.isSome_iff_exists.mp h
  rw [Value.textOrFault, Value.text, ht]
  rfl

theorem Value.Sound.hasText (h : value.Sound) : value.hasText = true := by
  cases value with
  | closure closure => exact Closure.isSome_paramNames?_iff.mpr h.1
  | _ => rfl

/-- Only functions of trees that were not parsed lack a text. -/
theorem Machine.Arises.hasText_of_done (hm : machine.Arises) {source : String} {root : Node}
    (hp : parse source = .ok root) {frame : Nat}
    (h : Session.runTree debug frame root machine = (.done value, after)) :
    value.hasText = true := by
  have hkept : Discipline.sound.Keeps (Eval.run Session.fuel (Session.context debug frame) root)
      Discipline.sound.Holds :=
    (Discipline.sound_lawful.kept _).run trivial (Discipline.sound_root hp)
  unfold Session.runTree Session.perform at h
  split at h
  · rename_i hr
    cases h
    exact (Discipline.sound_holds_iff.mp (hkept.of_ok hm.sound hr).2).hasText
  · cases h

namespace Repl

variable {line text : String} {console : Console} {stage : Stage}

/-- After the program of a line has run, the loop shows a text and a line feed. -/
def Echoes (debug : Nat) (line : String) (console : Console) (text : String) : Prop :=
  (runLine debug line console).2.machine =
    (Session.runSource debug Session.globalFrame line console.machine).2.write (text ++ "\n")

def ComesTo (debug : Nat) (line : String) (machine : Machine) (stage : Stage) : Prop :=
  ∃ nodes, parse line = .ok (.program nodes) ∧
    (Stage.first debug nodes machine).ComesTo (Session.fuel - 1) (Session.inner debug) stage

/-- The last statement of a line is an expression, and the line comes to it and evaluates it. -/
inductive Evaluates (debug : Nat) (line : String) (machine : Machine) (value : Value) : Prop where
  | mk {former : Value} {expr : Node} {during after : Machine} :
      ComesTo debug line machine ⟨former, [.exprStmt expr], during⟩ →
      Eval.evaluate (Session.fuel - 1) (Session.inner debug) expr during = .ok value after →
      Evaluates debug line machine value

/-- The last statement of a line is an expression, but one before it returns a value. -/
inductive Skips (debug : Nat) (line : String) (machine : Machine) (value : Value) : Prop where
  | mk {former : Value} {node expr : Node} {rest : List Node} {during after : Machine} :
      ComesTo debug line machine ⟨former, node :: (rest ++ [.exprStmt expr]), during⟩ →
      Eval.execute (Session.fuel - 1) (Session.inner debug) node during =
        .ok (.returned value) after →
      Skips debug line machine value

theorem endsInExpression_iff :
    endsInExpression (.program nodes) = true ↔ ∃ before expr, nodes = before ++ [.exprStmt expr] := by
  unfold endsInExpression
  dsimp only
  constructor
  · intro h
    split at h
    · rename_i expr hlast
      obtain ⟨before, rfl⟩ := List.getLast?_eq_some_iff.mp hlast
      exact ⟨before, expr, rfl⟩
    · cases h
  · rintro ⟨before, expr, rfl⟩
    rw [List.getLast?_concat]

theorem ComesTo.start (h : ComesTo debug line machine stage) (hp : parse line = .ok (.program nodes)) :
    (Stage.first debug nodes machine).ComesTo (Session.fuel - 1) (Session.inner debug) stage := by
  obtain ⟨nodes', hp', hc⟩ := h
  obtain rfl := Node.program.inj (Except.ok.inj (hp.symm.trans hp'))
  exact hc

theorem ComesTo.exists_concat {former : Value} {last : Node} {during : Machine} (rest : List Node)
    (h : ComesTo debug line machine ⟨former, rest ++ [last], during⟩) :
    ∃ before, parse line = .ok (.program (before ++ [last])) := by
  obtain ⟨nodes, hp, hc⟩ := h
  obtain ⟨front, hf⟩ := Stage.ComesTo.suffix hc
  refine ⟨front ++ rest, ?_⟩
  rw [hp, List.append_assoc]
  exact congrArg (fun nodes => Except.ok (Node.program nodes)) hf.symm

def EndsAt (debug : Nat) (line : String) (machine : Machine) (stage : Stage) (value : Value) : Prop :=
  ComesTo debug line machine stage ∧
    ∃ after, stage.Ends (Session.fuel - 1) (Session.inner debug) value after

theorem done_iff (hp : parse line = .ok (.program nodes)) :
    (∃ after, Session.runTree debug Session.globalFrame (.program nodes) machine =
      (.done value, after)) ↔ ∃ stage, EndsAt debug line machine stage value := by
  rw [Session.runTree_done_iff]
  constructor
  · rintro ⟨during, h⟩
    obtain ⟨stage, hc, he⟩ := Stage.finish_eq_ok_iff.mp h
    exact ⟨stage, ⟨nodes, hp, hc⟩, during, he⟩
  · rintro ⟨stage, hc, during, he⟩
    exact ⟨during, Stage.finish_eq_ok_iff.mpr ⟨stage, hc.start hp, he⟩⟩

theorem Evaluates.endsAt (h : Evaluates debug line machine value) :
    ∃ during, EndsAt debug line machine ⟨value, [], during⟩ value := by
  obtain ⟨⟨nodes, hp, hc⟩, he⟩ := h
  exact ⟨_, ⟨nodes, hp, .tail hc (.afterExpr he)⟩, _, .done⟩

theorem Skips.endsAt (h : Skips debug line machine value) :
    ∃ former node rest during, EndsAt debug line machine ⟨former, node :: rest, during⟩ value := by
  obtain ⟨hc, he⟩ := h
  exact ⟨_, _, _, _, hc, _, .returned he⟩

theorem EndsAt.unique {other : Stage} {result : Value} (h : EndsAt debug line machine stage value)
    (h' : EndsAt debug line machine other result) : other = stage := by
  obtain ⟨⟨nodes, hp, hc⟩, _, he⟩ := h
  obtain ⟨hc', _, he'⟩ := h'
  exact Stage.ComesTo.eq_of_ends hc he (hc'.start hp) he'

/-- A line whose last statement is an expression ends with the value of that or returns before. -/
theorem endsAt_iff {before : List Node} {expr : Node}
    (hp : parse line = .ok (.program (before ++ [.exprStmt expr]))) :
    (∃ stage, EndsAt debug line machine stage value) ↔
      Evaluates debug line machine value ∨ Skips debug line machine value := by
  constructor
  · rintro ⟨stage, hcomes, after, hends⟩
    cases hends with
    | done =>
      obtain ⟨former, during, hc, hg⟩ := Stage.ComesTo.exists_last (hcomes.start hp) rfl
      cases hg with
      | afterExpr he => exact .inl ⟨⟨_, hp, hc⟩, he⟩
      | afterStatement hn => exact absurd rfl (hn _)
    | @returned former _ node rest during _ he =>
      have hsuffix : node :: rest <:+ before ++ [.exprStmt expr] := (hcomes.start hp).suffix
      obtain ⟨others, ho, -⟩ :=
        (List.suffix_concat_iff.mp hsuffix).resolve_left (List.cons_ne_nil _ _)
      -- The expression itself does not return, so it is still left where the line ends.
      cases others with
      | nil =>
        obtain ⟨rfl, -⟩ := List.cons.inj ho
        exact absurd he (Stage.execute_ne_returned .expr)
      | cons first others =>
        obtain ⟨rfl, rfl⟩ := List.cons.inj ho
        exact .inr ⟨hcomes, he⟩
  · rintro (h | h)
    · obtain ⟨during, h⟩ := h.endsAt
      exact ⟨_, h⟩
    · obtain ⟨_, _, _, _, h⟩ := h.endsAt
      exact ⟨_, h⟩

theorem Evaluates.unique {result : Value} (h : Evaluates debug line machine value)
    (h' : Evaluates debug line machine result) : result = value := by
  obtain ⟨during, he⟩ := h.endsAt
  obtain ⟨during', he'⟩ := h'.endsAt
  exact congrArg Stage.value (he.unique he')

theorem Evaluates.not_skips {result : Value} (h : Evaluates debug line machine value) :
    ¬Skips debug line machine result := by
  intro hs
  obtain ⟨during, he⟩ := h.endsAt
  obtain ⟨former, node, rest, during', he'⟩ := hs.endsAt
  exact nomatch congrArg Stage.rest (he.unique he')

/-- A line skips its last statement only by a `return` that is not inside a function. -/
theorem Skips.exists_return (h : Skips debug line machine value)
    (hp : parse line = .ok (.program nodes)) :
    ∃ result, Node.Free Node.isFunction (.returnStmt result) (.program nodes) := by
  obtain ⟨hc, he⟩ := h
  obtain ⟨result, hf⟩ := Discipline.gives_execute.of_eq_ok he
  exact ⟨result, .child rfl ((hc.start hp).suffix.subset List.mem_cons_self) hf⟩

theorem not_free {closed : Node → Bool} {inner node : Node} (hn : node ≠ inner)
    (h : closed node = false → ∀ child ∈ node.children, ¬Node.Free closed inner child) :
    ¬Node.Free closed inner node := by
  intro hf
  cases hf with
  | self => exact hn rfl
  | child hc hm hf => exact h hc _ hm hf

theorem exists_concat (h : Evaluates debug line machine value ∨ Skips debug line machine value) :
    ∃ before expr, parse line = .ok (.program (before ++ [.exprStmt expr])) := by
  rcases h with ⟨hc, -⟩ | ⟨hc, -⟩
  · obtain ⟨before, hp⟩ := ComesTo.exists_concat [] hc
    exact ⟨before, _, hp⟩
  · obtain ⟨before, hp⟩ := ComesTo.exists_concat (_ :: _) hc
    exact ⟨before, _, hp⟩

theorem write_inj {first second : String} :
    machine.write first = machine.write second ↔ first = second := by
  constructor
  · intro h
    exact (String.append_right_inj _).mp (congrArg Machine.out h)
  · rintro rfl
    rfl

theorem write_empty : machine.write "" = machine := by
  rw [Machine.write, String.append_empty]

theorem lineFeed_ne : "" ≠ text ++ "\n" := by
  intro h
  have hl : 0 = text.length + 1 := (congrArg String.length h).trans (String.length_append _ _)
  exact Nat.succ_ne_zero _ hl.symm

theorem ne_write : machine ≠ machine.write (text ++ "\n") := by
  intro h
  have hw : machine.write "" = machine.write (text ++ "\n") := write_empty.trans h
  exact lineFeed_ne (write_inj.mp hw)

theorem echo_eq_iff {root : Node} : echo root value = text ++ "\n" ↔
    endsInExpression root = true ∧ value.isNil = false ∧ value.text = text := by
  unfold echo
  split
  · rename_i h
    rw [Bool.and_eq_true, Bool.not_eq_true'] at h
    rw [String.append_left_inj, and_iff_right h.1, and_iff_right h.2]
  · rename_i h
    refine iff_of_false lineFeed_ne ?_
    rintro ⟨he, hv, -⟩
    exact h (by rw [he, hv]; rfl)

theorem settle_of_failed {root : Node} {err : String} {failure : Failure} :
    (settle root err (.failed failure, machine)).2.machine = machine := by
  cases failure with
  | _ => rfl

/-- A line that is parsed shows a text if its program has a value and that is shown. -/
theorem echoes_iff_of_ok (hp : parse line = .ok (.program nodes)) :
    Echoes debug line console text ↔ ∃ value, echo (.program nodes) value = text ++ "\n" ∧ ∃ after,
      Session.runTree debug Session.globalFrame (.program nodes) console.machine =
        (.done value, after) := by
  have hran : Session.runSource debug Session.globalFrame line console.machine =
      Session.runTree debug Session.globalFrame (.program nodes) console.machine := by
    rw [Session.runSource, hp]
  rw [Echoes, runLine_of_ok hp, hran]
  cases hr : Session.runTree debug Session.globalFrame (.program nodes) console.machine with
  | mk outcome after =>
    cases outcome with
    | done value =>
      rw [settle, write_inj]
      constructor
      · intro h
        exact ⟨value, h, after, rfl⟩
      · rintro ⟨_, h, _, hv⟩
        cases hv
        exact h
    | unparsed error => exact absurd (congrArg Prod.fst hr) Session.runTree_ne_unparsed
    | failed failure =>
      rw [settle_of_failed]
      refine iff_of_false ne_write ?_
      rintro ⟨_, -, _, hv⟩
      cases hv

theorem echoes_iff : Echoes debug line console text ↔ ∃ value : Value, value.isNil = false ∧
    value.text = text ∧
      (Evaluates debug line console.machine value ∨ Skips debug line console.machine value) := by
  cases hp : parse line with
  | error error =>
    have hran : Session.runSource debug Session.globalFrame line console.machine =
        (.unparsed error, console.machine) := by
      rw [Session.runSource, hp]
    rw [Echoes, runLine_of_error hp, hran]
    refine iff_of_false ne_write ?_
    rintro ⟨value, -, -, h⟩
    obtain ⟨before, expr, hp'⟩ := exists_concat h
    cases hp.symm.trans hp'
  | ok root =>
    obtain ⟨nodes, rfl⟩ := exists_nodes_of_parse hp
    rw [echoes_iff_of_ok hp]
    constructor
    · rintro ⟨value, hs, hv⟩
      obtain ⟨he, hn, ht⟩ := echo_eq_iff.mp hs
      obtain ⟨before, expr, rfl⟩ := endsInExpression_iff.mp he
      exact ⟨value, hn, ht, (endsAt_iff hp).mp ((done_iff hp).mp hv)⟩
    · rintro ⟨value, hn, ht, h⟩
      obtain ⟨before, expr, hp'⟩ := exists_concat h
      obtain rfl := Node.program.inj (Except.ok.inj (hp.symm.trans hp'))
      exact ⟨value, echo_eq_iff.mpr ⟨endsInExpression_iff.mpr ⟨before, expr, rfl⟩, hn, ht⟩,
        (done_iff hp).mpr ((endsAt_iff hp).mpr h)⟩

/-- The loop adds a text to what a program has done, or nothing. -/
theorem silent_or_echoes (debug : Nat) (line : String) (console : Console) :
    (runLine debug line console).2.machine =
        (Session.runSource debug Session.globalFrame line console.machine).2 ∨
      ∃ text, Echoes debug line console text := by
  unfold Echoes Session.runSource
  cases hp : parse line with
  | error error =>
    rw [runLine_of_error hp]
    exact .inl rfl
  | ok root =>
    rw [runLine_of_ok hp]
    dsimp only
    rcases Session.runTree debug Session.globalFrame root console.machine with ⟨outcome, after⟩
    cases outcome with
    | done value =>
      rw [settle, echo]
      split
      · exact .inr ⟨value.text, rfl⟩
      · exact .inl write_empty
    | unparsed error => exact .inl rfl
    | failed failure => exact .inl settle_of_failed

theorem textOrFault_of_arises (hm : machine.Arises)
    (h : Evaluates debug line machine value ∨ Skips debug line machine value) :
    value.textOrFault = .ok value.text := by
  obtain ⟨before, expr, hp⟩ := exists_concat h
  obtain ⟨after, hr⟩ := (done_iff hp).mpr ((endsAt_iff hp).mpr h)
  exact Value.textOrFault_of_hasText (hm.hasText_of_done hp hr)

/-- After a line the loop shows the value of its last statement, if this is an expression, has been
evaluated and is not `nil`, and else nothing. The only exceptions are lines that end with an
expression and return a value before it, by a `return` outside functions: then the loop shows what
is returned. -/
theorem echo_exact (debug : Nat) (line : String) (console : Console) :
    ((runLine debug line console).2.machine =
        (Session.runSource debug Session.globalFrame line console.machine).2 ∨
      ∃ text, Echoes debug line console text) ∧
    (∀ text, Echoes debug line console text ↔ ∃ value : Value, value.isNil = false ∧
      value.text = text ∧
        (Evaluates debug line console.machine value ∨ Skips debug line console.machine value)) ∧
    (∀ value result, Evaluates debug line console.machine value →
      ¬Skips debug line console.machine result ∧
        (Evaluates debug line console.machine result → result = value)) ∧
    (∀ nodes, parse line = .ok (.program nodes) →
      (∀ result, ¬Node.Free Node.isFunction (.returnStmt result) (.program nodes)) →
      ∀ text, Echoes debug line console text ↔ ∃ value : Value, value.isNil = false ∧
        value.text = text ∧ Evaluates debug line console.machine value) ∧
    (console.machine.Arises → ∀ value,
      Evaluates debug line console.machine value ∨ Skips debug line console.machine value →
        value.textOrFault = .ok value.text) := by
  refine ⟨silent_or_echoes debug line console, fun text => echoes_iff,
    fun value result h => ⟨h.not_skips, h.unique⟩, ?_, fun hm value => textOrFault_of_arises hm⟩
  intro nodes hp hf text
  have hn (value : Value) : ¬Skips debug line console.machine value := by
    intro hs
    obtain ⟨result, hr⟩ := hs.exists_return hp
    exact hf result hr
  rw [echoes_iff]
  simp only [hn, or_false]

/-- A line that calls a function. Its only `return` is inside the function. -/
theorem echo_exact_call :
    let one : Node := .literal (.int 1) (.str "Integer")
    let identity : Node := .funcDef [.str "x"] (.block [.returnStmt (.ident (.str "x"))])
    let root : Node := .program
      [.assign (.str "f") identity, .exprStmt (.call (.ident (.str "f")) [one])]
    let console : Console := ⟨.initial "", ""⟩
    parse root.render = .ok root ∧
      (∀ result, ¬Node.Free Node.isFunction (.returnStmt result) root) ∧
      console.machine.Arises ∧ Evaluates 0 root.render console.machine (.int 1) ∧
      ¬Skips 0 root.render console.machine (.int 1) ∧ Echoes 0 root.render console "1" ∧
      (Value.int 1).textOrFault = .ok "1" := by
  intro one identity root console
  have hf : IsName "f".toList := by decide
  have hx : IsName "x".toList := by decide
  have hbody : WellFormed.Block (.block [.returnStmt (.ident (.str "x"))]) :=
    .mk (List.forall_mem_singleton.mpr (.return fun _ => .ident hx))
  have hp : parse root.render = .ok root := by
    refine parse_render (.mk (List.forall_mem_cons.mpr ⟨.assign (.mk hf ?_), ?_⟩))
    · exact .function (List.forall_mem_singleton.mpr hx) hbody
    · refine List.forall_mem_singleton.mpr (.expr (.call hf ?_))
      exact List.forall_mem_singleton.mpr (.int (by decide))
  have hfree (result : Node) : ¬Node.Free Node.isFunction (.returnStmt result) root := by
    refine not_free nofun fun _ => List.forall_mem_cons.mpr ⟨?_, List.forall_mem_singleton.mpr ?_⟩
    · exact not_free nofun fun _ => List.forall_mem_singleton.mpr (not_free nofun nofun)
    · refine not_free nofun fun _ => List.forall_mem_singleton.mpr (not_free nofun fun _ => ?_)
      refine List.forall_mem_cons.mpr ⟨not_free nofun nofun, List.forall_mem_singleton.mpr ?_⟩
      exact not_free nofun fun _ => List.forall_mem_singleton.mpr (not_free nofun nofun)
  have he : Evaluates 0 root.render console.machine (.int 1) :=
    ⟨⟨_, hp, .tail .refl (.afterAssigned rfl)⟩, rfl⟩
  have hm : console.machine.Arises := .initial ""
  obtain ⟨-, -, hunique, hexact, htext⟩ := echo_exact 0 root.render console
  exact ⟨hp, hfree, hm, he, (hunique _ _ he).1,
    (hexact _ hp hfree "1").mpr ⟨.int 1, rfl, by decide, he⟩, htext hm _ (.inl he)⟩

/-- The first statement returns, so the second is not evaluated. What is shown is no value of it. -/
theorem echo_after_return :
    let five : Node := .literal (.int 5) (.str "Integer")
    let seven : Node := .literal (.int 7) (.str "Integer")
    let root : Node := .program [.returnStmt five, .exprStmt seven]
    let console : Console := ⟨.initial "", ""⟩
    root.render = "return 5 ; 7 ;" ∧ parse root.render = .ok root ∧
      Echoes 0 root.render console "5" ∧
      ∀ value, ¬Evaluates 0 root.render console.machine value := by
  intro five seven root console
  have hp : parse root.render = .ok root := by
    refine parse_render (.mk (List.forall_mem_cons.mpr ⟨.return fun _ => .int (by decide), ?_⟩))
    exact List.forall_mem_singleton.mpr (.expr (.int (by decide)))
  have hc : ComesTo 0 root.render console.machine
      ⟨.nil, .returnStmt five :: ([] ++ [.exprStmt seven]), console.machine⟩ := ⟨_, hp, .refl⟩
  have hs : Skips 0 root.render console.machine (.int 5) := ⟨hc, rfl⟩
  exact ⟨by decide, hp, echoes_iff.mpr ⟨.int 5, rfl, by decide, .inr hs⟩,
    fun value he => he.not_skips hs⟩

end Repl

end ScriptLang
