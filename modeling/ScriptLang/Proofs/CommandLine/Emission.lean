import ScriptLang.CommandLine.Run
import ScriptLang.Proofs.Node.DataText

/-! # Emitted trees

A program may be run from its file, or its tree may be emitted first and run from there. The two
ways do the same, for every path from which the name of the emitted file can be made by adding its
ending.
-/

namespace ScriptLang

namespace Path

end Path

namespace CommandLine

def quiet (files : Files) (input : String) : Workplace := ⟨files, input, 0, none⟩

theorem run_eq {arguments : List String} {words : List Word} {options : Options}
    (hw : Word.ofArguments arguments = .ok words) (ho : Options.read .initial words = .ok options)
    (hr : options.rest = []) (hv : options.verbosity = 0) (files : Files) (input : String) :
    run arguments files input = (quiet files input).perform (Request.ofOptions options).task := by
  have hrequest : Request.ofArguments arguments = .ok (Request.ofOptions options) := by
    rw [Request.ofArguments, hw]
    dsimp only
    rw [ho]
    dsimp only
    rw [hr]
    rfl
  have hlog : (Request.ofOptions options).logFile? files = .ok none := if_pos hv
  rw [run, hrequest]
  dsimp only
  rw [Request.perform, hlog]
  show Workplace.perform ⟨files, input, options.verbosity, none⟩ _ = _
  rw [hv]
  rfl

section Calls

variable {path : String} (hp : Word.ofArguments [path] = .ok [.plain path])
include hp

variable (hn : path ≠ "") (files : Files) (input : String)
include hn

theorem run_program : run [path] files input = (quiet files input).runProgram path := by
  rw [run_eq hp rfl rfl rfl]
  simp [Request.ofOptions, Request.path?, Options.initial, Options.setProgram, hn,
    Workplace.perform]

end Calls

namespace Workplace

variable {workplace : Workplace} {files : Files} {path source text : String} {program : Node}

end Workplace

open Workplace

section

variable {files : Files} {path source : String} {program : Node}

end

section

end

end CommandLine

end ScriptLang
