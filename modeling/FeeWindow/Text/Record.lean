/-!
The notation in which records appear inside messages: `Name`, then the fields with their names
between braces or the bare arguments between parentheses. Absent values are `None`, present
ones stand in `Some(...)`.
-/

namespace FeeWindow.Text

def record (name : String) (fields : List (String × String)) : String :=
  let shown := fields.map fun (field, value) => field ++ ": " ++ value
  name ++ " \x7b " ++ String.intercalate ", " shown ++ " \x7d"

def wrapped (name argument : String) : String := name ++ "(" ++ argument ++ ")"

/-- A value that may be absent. -/
def maybe {α : Type} (render : α → String) : Option α → String
  | none => "None"
  | some a => wrapped "Some" (render a)

def list {α : Type} (render : α → String) (items : List α) : String :=
  "[" ++ String.intercalate ", " (items.map render) ++ "]"

end FeeWindow.Text
