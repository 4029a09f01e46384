/-! Page arithmetic on unsigned 64-bit numbers, without overflow, and the totals of a page. -/
namespace ListQuery
namespace Page

/-- Difference, zero where it would be negative. -/
def subSat (a b : UInt64) : UInt64 := if b ≤ a then a - b else 0

def top : UInt64 := 0xFFFFFFFFFFFFFFFF

/-- Sum, the greatest number where it would be greater. -/
def addSat (a b : UInt64) : UInt64 := if a.toNat + b.toNat ≤ top.toNat then a + b else top

/-- Product, the greatest number where it would be greater. -/
def mulSat (a b : UInt64) : UInt64 := if a.toNat * b.toNat ≤ top.toNat then a * b else top

/-- The largest offset that a database takes; it reads offsets as signed. -/
def maxOffset : UInt64 := 0x7FFFFFFFFFFFFFFF

/-- The number of rows before a page; pages count from one. -/
def offset (page limit : UInt64) : UInt64 :=
  let rows := mulSat (subSat page 1) limit
  if maxOffset < rows then maxOffset else rows

/-- The first and the last row of a page, counted from zero. -/
def range (page limit : UInt64) : UInt64 × UInt64 :=
  let first := offset page limit
  (first, addSat first (subSat limit 1))

end Page

structure Pagination where
  page : UInt64
  pageSize : UInt64
  totalItems : UInt64
  totalPages : UInt64
deriving DecidableEq

/-- As many pages as it takes to hold all items; none if a page has no room. -/
def Pagination.of (page pageSize totalItems : UInt64) : Pagination where
  page := page
  pageSize := pageSize
  totalItems := totalItems
  totalPages :=
    if pageSize = 0 then 0
    else totalItems / pageSize + (if totalItems % pageSize = 0 then 0 else 1)

structure Envelope (α : Type) where
  data : List α
  pagination : Pagination

def Envelope.of {α : Type} (rows : List α) (total page limit : UInt64) : Envelope α :=
  ⟨rows, .of page limit total⟩

end ListQuery
