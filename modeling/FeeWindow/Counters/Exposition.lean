import FeeWindow.Binary64.Style
import FeeWindow.Counters

/-!
The counters as lines of text for a collector. A sample line names a counter with its labels and
gives its value and the time in milliseconds; lines that start with a hash describe the counter
whose samples follow. Every labelled sample comes with a description of its own.
-/

namespace FeeWindow

/-- A line of an exposition. -/
inductive ExpositionLine where
  | help (name text : String)
  | counterType (name : String)
  | sample (name : String) (labels : List (String × String)) (value : Binary64) (time : Int)

namespace ExpositionLine

/-- A character of a label's value. -/
def escapedChar : Char → List Char
  | '\\' => ['\\', '\\']
  | '"' => ['\\', '"']
  | '\n' => ['\\', 'n']
  | c => [c]

def label (pair : String × String) : String :=
  pair.1 ++ "=\"" ++ String.ofList (pair.2.toList.flatMap escapedChar) ++ "\""

/-- Labels in braces; no labels are not written. -/
def labelSet (labels : List (String × String)) : String :=
  if labels = [] then "" else "\x7b" ++ String.intercalate "," (labels.map label) ++ "\x7d"

def text : ExpositionLine → String
  | .help name text => s!"# HELP {name} {text}"
  | .counterType name => s!"# TYPE {name} counter"
  | .sample name labels value time =>
      s!"{name}{labelSet labels} {NumberStyle.message.render value} {time}"

end ExpositionLine

namespace Counters

/-- A counter's description and one sample. -/
def counterLines (name help : String) (labels : List (String × String)) (value : UInt64)
    (time : Int) : List ExpositionLine :=
  [.help name help, .counterType name, .sample name labels (Binary64.ofNat value.toNat) time]

/-- The lines of the counters without labels. -/
def plainLines (counters : Counters) (time : Int) : List ExpositionLine :=
  counterLines "fee_history_requests" "Number of fee history requests" [] counters.requests time ++
  counterLines "fee_history_blocks_served"
    "Number of blocks reported in successful fee history responses" [] counters.blocksServed time

/-- The lines of each counter of failures. -/
def errorLines (counters : Counters) (time : Int) : List (List ExpositionLine) :=
  counters.errors.toList.map fun (label, count) =>
    counterLines "fee_history_errors" "Number of failed fee history requests" label.pairs count time

def exposition (counters : Counters) (time : Int) : List ExpositionLine :=
  counters.plainLines time ++ (counters.errorLines time).flatten

/-- The text of an exposition, with a newline after every line. -/
def expositionText (counters : Counters) (time : Int) : String :=
  String.join ((counters.exposition time).map fun line => line.text ++ "\n")

end Counters

end FeeWindow
