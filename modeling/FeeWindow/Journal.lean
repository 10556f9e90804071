/-!
The log. There are two levels with a buffer each, and one counter numbers the entries of both in
the order in which they were made. A full buffer drops its oldest entry.
-/

namespace FeeWindow

/-- Failed requests and changes of settings are for information, summaries of answers for
debugging. -/
inductive Level where
  | info
  | debug
  deriving DecidableEq

def Level.label : Level → String
  | .info => "INFO"
  | .debug => "DEBUG"

/-- Where in a program an event arose. -/
structure Origin where
  file : String
  line : Nat
  deriving DecidableEq

structure Event where
  level : Level
  origin : Origin
  message : String

/-- An event as one line. -/
def Event.line (event : Event) : String :=
  s!"{event.level.label} {event.origin.file}:{event.origin.line} {event.message}"

/-- A logged message with its origin and its number. -/
structure Entry where
  counter : Nat
  origin : Origin
  message : String
  deriving DecidableEq

/-- How many entries a buffer keeps. -/
def bufferCapacity : Nat := 1000

/-- The entries of one level, newest first. -/
structure Buffer where
  newestFirst : List Entry

namespace Buffer

def empty : Buffer := ⟨[]⟩

/-- Adds an entry, and drops the oldest one if there are too many then. -/
def push (buffer : Buffer) (entry : Entry) : Buffer :=
  ⟨(entry :: buffer.newestFirst).take bufferCapacity⟩

def toList (buffer : Buffer) : List Entry := buffer.newestFirst.reverse

end Buffer

/-- Both buffers and the number of entries ever made. -/
structure Journal where
  count : Nat
  info : Buffer
  debug : Buffer

namespace Journal

def empty : Journal := ⟨0, .empty, .empty⟩

/-- Adds an event under the next number. -/
def append (journal : Journal) (event : Event) : Journal :=
  let entry : Entry := ⟨journal.count + 1, event.origin, event.message⟩
  match event.level with
  | .info => { journal with count := journal.count + 1, info := journal.info.push entry }
  | .debug => { journal with count := journal.count + 1, debug := journal.debug.push entry }

def entries (journal : Journal) : Level → List Entry
  | .info => journal.info.toList
  | .debug => journal.debug.toList

/-- The kept entries of some levels, level by level. -/
def snapshot (journal : Journal) (levels : List Level) : List (Level × Entry) :=
  levels.flatMap fun level => (journal.entries level).map (level, ·)

/-- All kept entries, those for information first. -/
def all (journal : Journal) : List (Level × Entry) := journal.snapshot [.info, .debug]

end Journal

end FeeWindow
