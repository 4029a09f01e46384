/-! What reading a query string passes over, each with the text at fault. -/
namespace ListQuery

inductive Notice where
  /-- A page or limit that is not an integer. -/
  | unreadableNumber (key value : String)
  | unknownDirection (field direction : String)
  | unknownOperator (field operator : String)
  | unknownNegation (field negation : String)
  | valuelessFilter (field : String)
deriving DecidableEq

end ListQuery
