import FeeWindow.Binary64.Arithmetic

/-!
JSON values, and the two ways in which records and choices are written in them. A number written
without fraction and exponent is kept apart from all other numbers, as only the former can be
counts.
-/

namespace FeeWindow

/-- A JSON value. The fields of an object are in the order of the text and have distinct names. -/
inductive Json where
  | null
  | bool (b : Bool)
  | int (n : Int)
  | float (x : Binary64)
  | str (s : String)
  | arr (items : List Json)
  | obj (fields : List (String × Json))

def Binary64.ofInt (n : Int) : Binary64 := ofUnits (n < 0) (n.natAbs * unitsPerOne) 1

namespace Json

instance : Inhabited Json := ⟨.null⟩

/-- A count of at most 64 bits. -/
def count? : Json → Option UInt64
  | .int n => if 0 ≤ n ∧ n < UInt64.size then some (UInt64.ofNat n.toNat) else none
  | _ => none

/-- A limb of 32 bits. -/
def limb? : Json → Option UInt32
  | .int n => if 0 ≤ n ∧ n < UInt32.size then some (UInt32.ofNat n.toNat) else none
  | _ => none

/-- Any number, as a binary64 number. -/
def float? : Json → Option Binary64
  | .int n => some (Binary64.ofInt n)
  | .float x => some x
  | _ => none

def str? : Json → Option String
  | .str s => some s
  | _ => none

/-- A list whose items are all read by `read`. -/
def list? {α : Type} (read : Json → Option α) : Json → Option (List α)
  | .arr items => items.mapM read
  | _ => none

/-- The values of a record's fields, in the order of `names`. A record is an object, whose other
fields do not matter, or the array of its fields' values, of which the last `omittable` ones may
be left out. -/
def record? (names : List String) (omittable : Nat) : Json → Option (List (Option Json))
  | .obj fields => some (names.map fun name => fields.lookup name)
  | .arr items =>
      if items.length ≤ names.length ∧ names.length ≤ items.length + omittable then
        some (items.map some ++ List.replicate (names.length - items.length) none)
      else none
  | _ => none

/-- The values of the fields of a record that is written as an object only. -/
def objectRecord? (names : List String) : Json → Option (List (Option Json))
  | .obj fields => some (names.map fun name => fields.lookup name)
  | _ => none

def required {α : Type} (read : Json → Option α) (field : Option Json) : Option α :=
  field.bind read

def optional {α : Type} (read : Json → Option α) : Option Json → Option (Option α)
  | none | some .null => some none
  | some value => (read value).map some

/-- A choice among named alternatives: the name, and the content if there is one. A bare name
has no content, and an object has to hold exactly one name. -/
def choice? : Json → Option (String × Option Json)
  | .str name => some (name, none)
  | .obj [(name, content)] => some (name, some content)
  | _ => none

/-- Whether the content of an alternative is none, or null in its place. -/
def isBare : Option Json → Bool
  | none | some .null => true
  | _ => false

def ofOption {α : Type} (write : α → Json) : Option α → Json
  | none => .null
  | some a => write a

def ofList {α : Type} (write : α → Json) (items : List α) : Json := .arr (items.map write)

end Json

end FeeWindow
