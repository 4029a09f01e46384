import ListQuery.Proofs.Text.Integer
import ListQuery.Store.Related
import Mathlib.Data.Fintype.Basic

/-! The texts by which rows and lookup rows find each other: one made of a bound value, one of its
JSON. They are the same text, and no two values of a type have one. -/
namespace ListQuery

open Sql

namespace Uuid

theorem hexDigit_injective : Function.Injective fun d : Fin 16 => Json.hexDigit d.val := by decide

theorem ne_hyphen_of_mem {ds : List (Fin 16)} {c : Char} (h : c ∈ digitChars ds) :
    (c != '-') = true := by
  have digit : ∀ d : Fin 16, (Json.hexDigit d.val != '-') = true := by decide
  obtain ⟨d, -, rfl⟩ := List.mem_map.1 h
  exact digit d

/-- The digits are what is left without the hyphens. -/
theorem filter_chars (u : Uuid) : u.chars.filter (· != '-') = digitChars u.digits := by
  unfold chars
  generalize hcs : digitChars u.digits = cs
  have digit {piece : List Char} (part : ∀ c ∈ piece, c ∈ cs) :
      piece.filter (· != '-') = piece :=
    List.filter_eq_self.2 fun c hc => ne_hyphen_of_mem (hcs ▸ part c hc)
  have group (m n : Nat) (rest : List Char) :
      ((cs.drop m).take n ++ '-' :: rest).filter (· != '-') =
        (cs.drop m).take n ++ rest.filter (· != '-') := by
    rw [List.filter_append, List.filter_cons_of_neg (by decide),
      digit fun c hc => List.mem_of_mem_drop (List.mem_of_mem_take hc)]
  have first := group 0 8
  rw [List.drop_zero] at first
  have joined (m n : Nat) : (cs.drop m).take n ++ cs.drop (m + n) = cs.drop m := by
    rw [← List.drop_drop, List.take_append_drop]
  rw [first, group, group, group, digit fun c => List.mem_of_mem_drop, joined 16 4, joined 12 4,
    joined 8 4]
  exact List.take_append_drop 8 cs

theorem text_injective : Function.Injective text := by
  intro u v same
  have chars := congrArg (·.toList.filter (· != '-')) same
  simp only [text, String.toList_ofList, filter_chars] at chars
  have digits : u.digits = v.digits := List.map_injective_iff.2 hexDigit_injective chars
  cases u
  cases v
  cases digits
  rfl

end Uuid

/-- The types of values that rows are found by. -/
def Sql.ValueType.isKey : ValueType → Bool
  | .string | .char | .int _ | .uuid => true
  | _ => false

namespace Related

variable {a b v : Value}

theorem valueKey_eq_none_iff : valueKey v = none ↔ v.isNull = true ∨ v.type.isKey = false := by
  cases v <;> simp [valueKey, Value.isNull, Value.type, ValueType.isKey]

/-- A value and its JSON have one text. -/
theorem jsonKey_toJson (h : v.type.isKey = true) : jsonKey v.toJson = valueKey v := by
  cases v with
  | int t n => exact congrArg some String.ofList_toList
  | null t | string s | char c | uuid u => rfl
  | bool b | double x | json j => cases h

/-- No two values of a type have one text. -/
theorem eq_of_valueKey (same : a.type = b.type) (key : a.type.isKey = true)
    (ha : a.isNull = false) (hb : b.isNull = false) (h : valueKey a = valueKey b) : a = b := by
  cases a with
  | null t => cases ha
  | bool x | double x | json j => cases key
  | string s =>
    cases b with
    | null t => cases hb
    | string t => exact congrArg Value.string (Option.some.inj h)
    | _ => cases same
  | char c =>
    cases b with
    | null t => cases hb
    | char d => simpa [valueKey] using h
    | _ => cases same
  | int t n =>
    cases b with
    | null t => cases hb
    | int t' m =>
      cases same
      have read := Text.intOf?_repr n
      rw [Option.some.inj h, Text.intOf?_repr] at read
      exact congrArg (Value.int t) (Option.some.inj read).symm
    | _ => cases same
  | uuid u =>
    cases b with
    | null t => cases hb
    | uuid w => exact congrArg Value.uuid (Uuid.text_injective (Option.some.inj h))
    | _ => cases same

/-- The text of a value is the text of the JSON of a value of the same type exactly if the two are
equal, and values that are null or of another type have none. -/
theorem keys_match_iff :
    (∀ a b : Value, a.type = b.type → a.type.isKey = true → a.isNull = false → b.isNull = false →
      (valueKey a = jsonKey b.toJson ↔ a = b)) ∧
      ∀ v : Value, valueKey v = none ↔ v.isNull = true ∨ v.type.isKey = false := by
  refine ⟨?_, fun v => valueKey_eq_none_iff⟩
  intro a b same key ha hb
  rw [jsonKey_toJson (same ▸ key)]
  constructor
  · exact eq_of_valueKey same key ha hb
  · rintro rfl
    rfl

/-- Values of two types may have one text. -/
example : valueKey (.int .int 7) = jsonKey (Value.string "7").toJson := rfl

theorem keys_match_extremes :
    let low : Value := .int .bigInt IntType.bigInt.min
    let high : Value := .int .bigUnsigned IntType.bigUnsigned.max
    (low.type.isKey = true ∧ low.isNull = false ∧ high.type.isKey = true ∧ high.isNull = false) ∧
      valueKey low = jsonKey low.toJson ∧ valueKey high = jsonKey high.toJson ∧
      valueKey (.string "7") ≠ jsonKey (Value.string "07").toJson := by
  intro low high
  refine ⟨⟨rfl, rfl, rfl, rfl⟩, ?_, ?_, ?_⟩
  · exact (keys_match_iff.1 low low rfl rfl rfl rfl).2 rfl
  · exact (keys_match_iff.1 high high rfl rfl rfl rfl).2 rfl
  · intro same
    exact absurd ((keys_match_iff.1 (.string "7") (.string "07") rfl rfl rfl rfl).1 same) (by simp)

end Related
end ListQuery
