import FeeWindow.Request
import Std.Data.ExtTreeMap

/-!
Counters of the requests answered: how many there were, how many blocks their answers reported,
and how many failed with which code and kind of error.
-/

namespace FeeWindow

/-- What tells failures apart. -/
structure ErrorLabel where
  code : String
  kind : String
  deriving DecidableEq

namespace ErrorLabel

@[ext] theorem ext {a b : ErrorLabel} (hcode : a.code = b.code) (hkind : a.kind = b.kind) :
    a = b := by
  cases a; cases b; cases hcode; cases hkind; rfl

instance : Ord ErrorLabel := ⟨compareLex (compareOn code) (compareOn kind)⟩

instance : Std.TransOrd ErrorLabel :=
  inferInstanceAs (Std.TransCmp (compareLex (compareOn code) (compareOn kind)))

instance : Std.LawfulEqOrd ErrorLabel where
  eq_of_compare {a b} h := by
    have h : (compareOn code a b).then (compareOn kind a b) = .eq := h
    rw [Ordering.then_eq_eq] at h
    exact ext (Std.LawfulEqOrd.eq_of_compare (α := String) h.1)
      (Std.LawfulEqOrd.eq_of_compare (α := String) h.2)

def ofError (error : HistoryError) : ErrorLabel := ⟨toString error.code, error.kind⟩

def pairs (label : ErrorLabel) : List (String × String) :=
  [("code", label.code), ("kind", label.kind)]

end ErrorLabel

/-- Counters of 64 bits. -/
structure Counters where
  requests : UInt64
  blocksServed : UInt64
  errors : Std.ExtTreeMap ErrorLabel UInt64

namespace Counters

def empty : Counters := ⟨0, 0, ∅⟩

def addRequests (counters : Counters) (amount : UInt64) : Counters :=
  { counters with requests := counters.requests + amount }

def addBlocksServed (counters : Counters) (amount : UInt64) : Counters :=
  { counters with blocksServed := counters.blocksServed + amount }

/-- How many failures were counted under a label. -/
def errorCount (counters : Counters) (label : ErrorLabel) : UInt64 := counters.errors[label]?.getD 0

/-- Adds to the counter of a label. Adding nothing makes no counter. -/
def addErrors (counters : Counters) (label : ErrorLabel) (amount : UInt64) : Counters :=
  if amount = 0 then counters
  else { counters with errors := counters.errors.insert label (counters.errorCount label + amount) }

end Counters

end FeeWindow
