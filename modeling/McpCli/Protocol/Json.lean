import Mathlib.Data.List.Basic

/-! JSON values, as requests and results are made of. -/

namespace McpCli

/-- A JSON value. -/
inductive Json where
  | null
  | bool (value : Bool)
  /-- A number by its digits, sign and exponent. -/
  | number (text : String)
  | string (text : String)
  | array (items : List Json)
  /-- The members in the order of the map, which has every key once. -/
  | object (members : List (String × Json))
  deriving Repr

end McpCli
