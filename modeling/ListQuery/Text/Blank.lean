/-! Blank characters: the Unicode property White_Space, trimming and splitting into words. -/
namespace ListQuery
namespace Text

/-- The characters with the property White_Space. -/
def isBlank (c : Char) : Bool :=
  let n := c.toNat
  (9 ≤ n && n ≤ 13) || n == 0x20 || n == 0x85 || n == 0xA0 || n == 0x1680 ||
    (0x2000 ≤ n && n ≤ 0x200A) || n == 0x2028 || n == 0x2029 || n == 0x202F ||
    n == 0x205F || n == 0x3000

/-- Removes the blanks at both ends. -/
def trimmed (cs : List Char) : List Char :=
  ((cs.dropWhile isBlank).reverse.dropWhile isBlank).reverse

/-- The maximal runs of characters that are not blank, in order. -/
def wordsOf (cs : List Char) : List (List Char) :=
  (cs.splitOnP isBlank).filter (!·.isEmpty)

def trim (s : String) : String := String.ofList (trimmed s.toList)

def words (s : String) : List String := (wordsOf s.toList).map String.ofList

@[simp] theorem toList_trim (s : String) : (trim s).toList = trimmed s.toList := by
  simp [trim]

@[simp] theorem trimmed_nil : trimmed [] = [] := rfl

@[simp] theorem wordsOf_nil : wordsOf [] = [] := by simp [wordsOf]

end Text
end ListQuery
