import FeeWindow.Journal
import FeeWindow.LineFilter
import FeeWindow.Counters
import FeeWindow.Query

/-!
What surrounds the computation of fee histories: the log filter, the log and the counters, and
the operations that go through them. Each operation gives its result, the events that it logged,
and the state after it.
-/

namespace FeeWindow

/-- What is set on installation. A filter that is not given is left as it is. -/
structure InstallSettings where
  filter : Option LineFilter
  market : Option FeeMarketSettings

/-- The refusal of a filter whose text is no pattern. -/
inductive InstallError where
  | invalidFilter
  deriving DecidableEq

/-- A logged event, and whether the filter showed its line. -/
structure Notice where
  event : Event
  shown : Bool

variable [PatternSearch]

/-- The state around the computation. -/
structure Service where
  screen : LineScreen
  journal : Journal
  counters : Counters

/-- A result, the events logged on the way to it, and the state after it. -/
structure Outcome (α : Type) where
  result : α
  notices : List Notice
  service : Service

namespace Service

/-- Everything shown, nothing logged, nothing counted. -/
def initial : Service := ⟨LineFilter.showAll.screen, .empty, .empty⟩

def installOrigin : Origin := ⟨"src/lifecycle.rs", 25⟩

def failureOrigin : Origin := ⟨"src/fee_history/mod.rs", 97⟩

def summaryOrigin : Origin := ⟨"src/fee_history/mod.rs", 129⟩

def filter (service : Service) : LineFilter := service.screen.filter

def setFilter (service : Service) (filter : LineFilter) : Service :=
  { service with screen := filter.screen }

/-- Logs an event. The filter decides whether its line is shown; the log keeps it either way. -/
def log (service : Service) (event : Event) : Notice × Service :=
  (⟨event, service.screen.shows event.line⟩,
    { service with journal := service.journal.append event })

/-- A result with one logged event. -/
def conclude {α : Type} (service : Service) (event : Event) (result : α) : Outcome α :=
  let (notice, service) := service.log event
  ⟨result, [notice], service⟩

/-- The event that tells which market is set. -/
def installEvent (schedule : FeeSchedule) : Event :=
  ⟨.info, installOrigin, "[init]: fee market schedule " ++ schedule.record⟩

def failureEvent (request : Request) (error : HistoryError) : Event :=
  ⟨.info, failureOrigin,
    "[compute_fee_history]: failed for " ++ request.record ++ ": " ++ error.message⟩

def summaryEvent (request : Request) (history : History) : Event :=
  let newest := request.highestBlock.grouped
  let next := (history.baseFees.getLast?.getD Amount.zero).grouped
  ⟨.debug, summaryOrigin,
    s!"[compute_fee_history]: blocks {history.oldestBlock.grouped}..={newest} with " ++
    s!"{history.gasUsedRatios.length} headers, next base fee {next}"⟩

/-- Sets filter and fee market. A filter that is refused changes nothing. -/
def install (service : Service) (settings : InstallSettings) :
    Outcome (Except InstallError FeeSchedule) :=
  if settings.filter.all LineFilter.isValid then
    let service := service.setFilter (settings.filter.getD service.filter)
    let schedule := FeeSchedule.ofSettings settings.market
    service.conclude (installEvent schedule) (.ok schedule)
  else ⟨.error .invalidFilter, [], service⟩

/-- Counts and logs the outcome of a request. -/
def settle (service : Service) (request : Request) (result : Except HistoryError History) :
    Outcome (Except HistoryError History) :=
  let counters := service.counters.addRequests 1
  match result with
  | .ok history =>
      let served := UInt64.ofNat history.gasUsedRatios.length
      { service with counters := counters.addBlocksServed served }.conclude
        (summaryEvent request history) (.ok history)
  | .error error =>
      { service with counters := counters.addErrors (.ofError error) 1 }.conclude
        (failureEvent request error) (.error error)

def history (service : Service) (chain : ChainView) (schedule : FeeSchedule)
    (request : Request) : Outcome (Except HistoryError History) :=
  service.settle request (History.compute chain schedule request)

def report (service : Service) (chain : ChainView) (schedule : FeeSchedule) (query : Query) :
    Outcome (Except HistoryError Report) :=
  let outcome := service.history chain schedule (query.request chain)
  { outcome with result := outcome.result.map Report.ofHistory }

end Service

end FeeWindow
