import ScriptLang.Proofs.Eval.Frames
import ScriptLang.Proofs.Eval.Operations
import ScriptLang.Proofs.Eval.Pieces
import ScriptLang.Proofs.Syntax.RoundTrip

/-! # Parsed programs run without faults

Faults are for trees that do not have the shape of programs. A program that was parsed has it, and
so have the functions that such programs leave in the frames, and the programs that they run from
texts. What is left are the two faults that depend on values.
-/

namespace ScriptLang

/-- How programs that were parsed end without a value. -/
inductive Failure.Ordinary : Failure → Prop where
  | error {error : RuntimeError} : (∀ op, error ≠ .unknownUnary op) →
      (∀ op, error ≠ .unknownOperator op) → Ordinary (.error error)
  | exit {code : Int} : Ordinary (.exit code)
  | remainder : Ordinary (.fault .remainderUndefined)
  | longText {digits : Nat} : Ordinary (.fault (.integerTextTooLong digits))

/-- The machines that programs leave behind, one after another, whatever is done to their input,
their output and their log in between. -/
inductive Machine.Arises : Machine → Prop where
  | initial (input : String) : Arises (.initial input)
  | ran {machine : Machine} {source : String} {program : Node} (fuel : Nat) (context : Context) :
      Arises machine → parse source = .ok program →
      Arises ((Piece.run fuel context program).leave machine)
  | streams {machine : Machine} (out : String) (input : List Char) (log : Array LogEntry) :
      Arises machine → Arises { machine with out, input, log }

/-- What programs that were parsed may bind: integers of 64 bits, and functions with names for
parameters and a well-formed body. -/
def Value.Sound : Value → Prop
  | .int n => Integer.inRange n = true
  | .closure function =>
    (∃ names : List String, function.params = names.map .str) ∧ WellFormed.Block function.body
  | _ => True

theorem Closure.isSome_paramNames?_iff {closure : Closure} : closure.paramNames?.isSome = true ↔
    ∃ names : List String, closure.params = names.map .str := by
  obtain ⟨number, params, body, scope⟩ := closure
  unfold paramNames?
  dsimp only
  induction params with
  | nil => exact ⟨fun _ => ⟨[], rfl⟩, fun _ => rfl⟩
  | cons first rest ih =>
    rw [List.mapM_cons]
    constructor
    · intro h
      obtain ⟨names, h⟩ := Option.isSome_iff_exists.mp h
      obtain ⟨name, hfirst, h⟩ := Option.bind_eq_some_iff.mp h
      obtain ⟨others, hrest, -⟩ := Option.bind_eq_some_iff.mp h
      obtain ⟨texts, rfl⟩ := ih.mp (Option.isSome_iff_exists.mpr ⟨others, hrest⟩)
      cases first with
      | str text => exact ⟨text :: texts, rfl⟩
      | _ => cases hfirst
    · rintro ⟨names, hn⟩
      cases names with
      | nil => cases hn
      | cons name names =>
        obtain ⟨hfirst, hrest⟩ := List.cons.inj hn
        subst hfirst
        obtain ⟨found, hf⟩ := Option.isSome_iff_exists.mp (ih.mpr ⟨names, hrest⟩)
        rw [hf]
        rfl

theorem ofJson?_ne_none {op : String} (h : op ∈ binaryOperators) :
    Operator.ofJson? (.str op) ≠ none := by
  have hall : ∀ op ∈ binaryOperators, (Operator.ofJson? (.str op)).isSome = true := by decide
  intro hn
  have hs := hall op h
  rw [hn] at hs
  cases hs

namespace Discipline

/-- Only the nodes that parsing makes are run, and only ordinary failures occur. Calls that are
nested too deeply become errors only where a program ends. -/
def sound : Discipline where
  Good := Store.All Value.Sound
  Scope _ := True
  Home _ := True
  Whole n := Integer.inRange n = true
  Expr := WellFormed.Expr
  Stmt := WellFormed.Statement
  Fails failure := failure.Ordinary ∨ failure = .tooDeep ∨ failure = .outOfFuel

theorem sound_reckons : sound.Reckons where
  whole h := h
  tmod h _ := Integer.inRange_tmod h
  small h := .inl h
  remainder := .inl .remainder
  longText := .inl .longText
  error hu hb := .inl (.error hu hb)

theorem sound_names (name : String) : sound.Names (.str name) := .inl rfl

variable {node : Node} {value : Value}

theorem not_sound_fails_missingPart : ¬sound.Fails (.fault .missingPart) := by
  rintro (h | h | h)
  · cases h
  · cases h
  · cases h

theorem sound_body_iff : sound.Body node ↔ WellFormed.Block node := by
  constructor
  · intro h
    cases node with
    | block statements => exact .mk h
    | _ => exact absurd h not_sound_fails_missingPart
  · rintro ⟨hs⟩
    exact hs

theorem sound_clause (h : WellFormed.Clause node) : sound.Clause node := by
  obtain ⟨hc, hb⟩ := h
  exact ⟨hc, sound_body_iff.mpr hb⟩

theorem sound_header (h : node ≠ .null → WellFormed.Assignment node) : sound.Header node := by
  by_cases hn : node = .null
  · subst hn
    trivial
  · obtain ⟨-, hv⟩ := h hn
    exact ⟨sound_names _, hv⟩

theorem sound_holds_iff : sound.Holds value ↔ value.Sound := by
  cases value with
  | int n => exact Iff.rfl
  | closure function =>
    constructor
    · rintro ⟨-, -, ht, hb⟩
      refine ⟨?_, sound_body_iff.mp hb⟩
      rcases ht with ht | ht | ht | ht
      · exact Closure.isSome_paramNames?_iff.mp ht
      · cases ht
      · cases ht
      · cases ht
    · rintro ⟨hp, hb⟩
      refine ⟨trivial, fun name hn => ?_, .inl (Closure.isSome_paramNames?_iff.mpr hp),
        sound_body_iff.mpr hb⟩
      obtain ⟨names, hp⟩ := hp
      rw [hp] at hn
      obtain ⟨text, -, rfl⟩ := List.mem_map.mp hn
      exact sound_names text
  | _ => exact Iff.rfl

theorem sound_expr (h : WellFormed.Expr node) : sound.ExprParts node := by
  cases h with
  | int hr => exact hr
  | float => trivial
  | string => trivial
  | bool => trivial
  | nil => trivial
  | ident => exact sound_names _
  | neg ho => exact ⟨ho, fun value hv => sound_reckons.unary hv fun _ hn => absurd rfl hn⟩
  | not ho => exact ⟨ho, fun value hv => sound_reckons.unary hv fun hn _ => absurd rfl hn⟩
  | binary hop hl hr =>
    refine ⟨hl, hr, fun hand hor first second hf hs => ?_⟩
    exact sound_reckons.binary hf hs hand hor fun hn => absurd hn (ofJson?_ne_none hop)
  | call hn ha => exact ⟨.ident hn, ha⟩
  | function hn hb => exact fun number scope _ => sound_holds_iff.mpr ⟨⟨_, rfl⟩, hb⟩

theorem sound_stmt (h : WellFormed.Statement node) : sound.StmtParts node := by
  cases h with
  | assign ha =>
    obtain ⟨-, hv⟩ := ha
    exact ⟨sound_names _, hv⟩
  | «return» hv => exact hv
  | «break» => trivial
  | «continue» => trivial
  | «if» hc hb hcs ho =>
    exact ⟨hc, sound_body_iff.mpr hb, fun clause hm => sound_clause (hcs clause hm),
      fun hn => sound_body_iff.mpr (ho hn)⟩
  | «while» hc hb => exact ⟨hc, sound_body_iff.mpr hb⟩
  | loop hb => exact sound_body_iff.mpr hb
  | «for» hi hc hp hb => exact ⟨sound_header hi, hc, sound_header hp, sound_body_iff.mpr hb⟩
  | expr hv => exact hv

theorem sound_root {source : String} {program : Node} (h : parse source = .ok program) :
    sound.Root program := by
  obtain ⟨hs⟩ := WellFormed.of_parse h
  exact hs

theorem sound_lawful : sound.Lawful where
  scope_of_home _ := trivial
  push hg _ := ⟨hg.push, trivial⟩
  define hg _ hv := hg.define (sound_holds_iff.mp hv)
  set hg _ hv := hg.set (sound_holds_iff.mp hv)
  get hg _ he := sound_holds_iff.mpr (hg.get he)
  expr := sound_expr
  stmt := sound_stmt
  toInteger := sound_reckons.toInteger
  toFloat := sound_reckons.toFloat
  round := sound_reckons.round
  abs := sound_reckons.abs
  extreme := sound_reckons.extreme
  parse := sound_root
  zero := rfl
  exit _ := .inl .exit
  tooDeep := .inr (.inl rfl)
  outOfFuel := .inr (.inr rfl)
  error := sound_reckons.error

end Discipline

theorem Machine.Arises.sound {machine : Machine} (h : machine.Arises) :
    machine.store.All Value.Sound := by
  induction h with
  | initial input => exact all_initial fun _ => trivial
  | ran fuel context _ hp ih =>
    have hs : Discipline.sound.Starting (.run fuel context _) := ⟨trivial, Discipline.sound_root hp⟩
    exact (Discipline.sound_lawful.perform hs _ ih).good_leave
  | streams _ _ _ _ ih => exact ih

theorem finishing_ne_tooDeep {context : Context} {action : Eval Value} {machine after : Machine} :
    Eval.finishing context action machine ≠ .error .tooDeep after := by
  unfold Eval.finishing
  dsimp only
  split
  · exact nofun
  · exact nofun
  · rename_i hne _
    intro he
    cases he
    exact hne rfl

theorem run_ne_tooDeep {fuel : Nat} {context : Context} {body : List Node}
    {machine after : Machine} :
    Eval.run fuel context (.program body) machine ≠ .error .tooDeep after := by
  cases fuel with
  | zero => exact nofun
  | succ fuel => exact finishing_ne_tooDeep

/-- A program that was parsed runs soundly on any machine that such programs have left behind: it
ends with a value or with an ordinary failure, unless it does not end at all. -/
theorem parsed_programs_run_soundly {machine : Machine} (hm : machine.Arises) {source : String}
    {program : Node} (hp : parse source = .ok program) (fuel : Nat) (context : Context) :
    (∃ value after, Eval.run fuel context program machine = .ok value after) ∨
      ∃ failure after, Eval.run fuel context program machine = .error failure after ∧
        (failure = .outOfFuel ∨ failure.Ordinary) := by
  have hkept : Discipline.sound.Keeps (Eval.run fuel context program) Discipline.sound.Holds :=
    (Discipline.sound_lawful.kept fuel).run trivial (Discipline.sound_root hp)
  have hends := hkept machine hm.sound
  cases hr : Eval.run fuel context program machine with
  | ok value after => exact .inl ⟨value, after, rfl⟩
  | error failure after =>
    rw [hr] at hends
    refine .inr ⟨failure, after, rfl, ?_⟩
    obtain ⟨-, ho | rfl | hf⟩ := hends
    · exact .inr ho
    · obtain ⟨-⟩ := WellFormed.of_parse hp
      exact absurd hr run_ne_tooDeep
    · exact .inl hf

/-- A function that one program leaves in the first frame is called by the next. -/
theorem parsed_programs_run_soundly_later :
    let first : Node := .program [.assign (.str "f")
      (.funcDef [.str "x"] (.block [.returnStmt (.unary (.str "neg") (.ident (.str "x")))]))]
    let second : Node := .program [.exprStmt (.call (.ident (.str "f")) [.ident (.str "f")])]
    let machine := (Piece.run 20 ⟨0, 0, 20⟩ first).leave (.initial "")
    parse first.render = .ok first ∧ parse second.render = .ok second ∧ machine.Arises ∧
      ((∃ value after, Eval.run 20 ⟨0, 0, 20⟩ second machine = .ok value after) ∨
        ∃ failure after, Eval.run 20 ⟨0, 0, 20⟩ second machine = .error failure after ∧
          (failure = .outOfFuel ∨ failure.Ordinary)) := by
  intro first second machine
  have hf : IsName "f".toList := by decide
  have hx : IsName "x".toList := by decide
  have hbody : WellFormed.Block (.block [.returnStmt (.unary (.str "neg") (.ident (.str "x")))]) :=
    .mk (List.forall_mem_singleton.mpr (.return fun _ => .neg (.ident hx)))
  have hfirst : parse first.render = .ok first := by
    refine parse_render (.mk (List.forall_mem_singleton.mpr (.assign (.mk hf ?_))))
    exact .function (List.forall_mem_singleton.mpr hx) hbody
  have hsecond : parse second.render = .ok second := by
    refine parse_render (.mk (List.forall_mem_singleton.mpr (.expr (.call hf ?_))))
    exact List.forall_mem_singleton.mpr (.ident hf)
  have hm : machine.Arises := .ran 20 ⟨0, 0, 20⟩ (.initial "") hfirst
  exact ⟨hfirst, hsecond, hm, parsed_programs_run_soundly hm hsecond 20 ⟨0, 0, 20⟩⟩

end ScriptLang
