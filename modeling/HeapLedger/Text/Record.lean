/-!
# Records and lists as text

The written forms of named fields, of wrapped values and of lists.
-/

namespace HeapLedger.Text

def commaSeparated (items : List String) : String := String.intercalate ", " items

def record (name : String) (fields : List (String × String)) : String :=
  name ++ " \x7b " ++ commaSeparated (fields.map fun f => f.1 ++ ": " ++ f.2) ++ " \x7d"

/-- A record that does not show all of its fields. -/
def openRecord (name : String) (fields : List (String × String)) : String :=
  name ++ " \x7b " ++ commaSeparated (fields.map (fun f => f.1 ++ ": " ++ f.2) ++ [".."]) ++ " \x7d"

def wrapped (name value : String) : String := name ++ "(" ++ value ++ ")"

def bracketed (items : List String) : String := "[" ++ commaSeparated items ++ "]"

def bool (b : Bool) : String := if b then "true" else "false"

def int (n : Int) : String :=
  match n with
  | .ofNat k => toString k
  | .negSucc k => "-" ++ toString (k + 1)

def option (value : Option String) : String :=
  match value with
  | none => "None"
  | some v => wrapped "Some" v

end HeapLedger.Text
