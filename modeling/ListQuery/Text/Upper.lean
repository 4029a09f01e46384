import ListQuery.Text.UpperTable

/-! Full upper-casing, one character at a time and independent of the context. -/
namespace ListQuery
namespace Text

/-- The upper-case form of one character; characters without one stand for themselves. -/
def upperChar (c : Char) : List Char :=
  let n := c.toNat
  match caseExpansions.lookup n with
  | some ns => ns.map Char.ofNat
  | none =>
    match caseRuns.find? (·.contains n) with
    | some r => [Char.ofNat ((n : Int) + r.shift).toNat]
    | none => [c]

def upper (s : String) : String := String.ofList (s.toList.flatMap upperChar)

end Text
end ListQuery
