import PropTable.Text.Quoted

/-!
# Data from outside

Callers may hand over any datum where a token or a truth value is wanted. `Datum.truth` says which
data count as true, and `Datum.shown` how a datum is written in a message.
-/

namespace PropTable

/-- A datum of a caller. -/
inductive Datum where
  | null
  | flag (value : Bool)
  | int (value : Int)
  | text (value : String)
  | list (items : List Datum)
  | record (fields : List (String × Datum))
deriving Inhabited

namespace Datum

/-- Whether a datum counts as true: everything does but null, false, zero and what is empty. -/
def truth : Datum → Bool
  | .null => false
  | .flag value => value
  | .int value => value != 0
  | .text value => !value.isEmpty
  | .list items => !items.isEmpty
  | .record fields => !fields.isEmpty

mutual

def shown : Datum → String
  | .null => "None"
  | .flag true => "True"
  | .flag false => "False"
  | .int value => toString value
  | .text value => Text.quoted value
  | .list items => "[" ++ ", ".intercalate (shownItems items) ++ "]"
  | .record fields => "\x7b" ++ ", ".intercalate (shownFields fields) ++ "\x7d"

def shownItems : List Datum → List String
  | [] => []
  | item :: items => item.shown :: shownItems items

/-- The fields of a record as a message shows them. -/
def shownFields : List (String × Datum) → List String
  | [] => []
  | (key, value) :: fields => (Text.quoted key ++ ": " ++ value.shown) :: shownFields fields

end

end Datum

end PropTable
