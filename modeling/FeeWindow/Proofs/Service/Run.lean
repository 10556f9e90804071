import FeeWindow.Proofs.Journal
import FeeWindow.Service.Run

/-!
Runs of a service, told without its state. What a call answers and which events it logs is given
by the call alone. So the counters after a run are the counters before it, moved on by the
outcomes of the fee-history calls in turn, and the log is the log before it with the events of all
calls appended in turn.
-/

namespace FeeWindow

variable [PatternSearch]

/-- Whether a call asks for a fee history. -/
def ServiceCall.asksHistory : ServiceCall → Bool
  | .history .. | .report .. => true
  | .install _ | .setFilter _ => false

/-- What came of a request for a fee history: the number of blocks reported, or the error. -/
def ServiceReply.outcome? : ServiceReply → Option (Except HistoryError Nat)
  | .answered result => some (result.map fun history => history.gasUsedRatios.length)
  | .reported result => some (result.map fun report => report.gasUsedRatios.length)
  | .installed _ | .filterSet => none

def ServedCall.events (served : ServedCall) : List Event := served.notices.map Notice.event

/-- The outcomes of the fee-history calls of a run, in order. -/
def Service.outcomes (run : List ServedCall) : List (Except HistoryError Nat) :=
  run.filterMap fun served => served.reply.outcome?

/-- The event that tells the outcome of a request. -/
def Service.outcomeEvent (request : Request) : Except HistoryError History → Event
  | .ok history => summaryEvent request history
  | .error error => failureEvent request error

namespace ServiceCall

/-- What a call answers, in whatever state it meets the service. -/
def reply : ServiceCall → ServiceReply
  | .install settings => .installed
      (if settings.filter.all LineFilter.isValid then .ok (.ofSettings settings.market)
        else .error .invalidFilter)
  | .setFilter _ => .filterSet
  | .history chain schedule request => .answered (History.compute chain schedule request)
  | .report chain schedule query => .reported
      ((History.compute chain schedule (query.request chain)).map Report.ofHistory)

/-- The events that a call logs, in whatever state it meets the service. -/
def events : ServiceCall → List Event
  | .install settings =>
      if settings.filter.all LineFilter.isValid then
        [Service.installEvent (.ofSettings settings.market)]
      else []
  | .setFilter _ => []
  | .history chain schedule request =>
      [Service.outcomeEvent request (History.compute chain schedule request)]
  | .report chain schedule query =>
      let request := query.request chain
      [Service.outcomeEvent request (History.compute chain schedule request)]

theorem isSome_outcome?_reply (call : ServiceCall) :
    call.reply.outcome?.isSome = call.asksHistory := by
  cases call <;> rfl

end ServiceCall

/-- The counters after one more request with the given outcome. -/
def Counters.account (counters : Counters) : Except HistoryError Nat → Counters
  | .ok blocks => (counters.addRequests 1).addBlocksServed (UInt64.ofNat blocks)
  | .error error => (counters.addRequests 1).addErrors (.ofError error) 1

namespace Service

variable (service : Service)

section Settling

variable (request : Request) (result : Except HistoryError History)

@[simp] theorem result_settle : (service.settle request result).result = result := by
  cases result <;> rfl

theorem events_settle :
    (service.settle request result).notices.map Notice.event = [outcomeEvent request result] := by
  cases result <;> rfl

theorem counters_settle :
    (service.settle request result).service.counters =
      service.counters.account (result.map fun history => history.gasUsedRatios.length) := by
  cases result <;> rfl

theorem journal_settle :
    (service.settle request result).service.journal =
      service.journal.append (outcomeEvent request result) := by
  cases result <;> rfl

end Settling

section Serving

variable (call : ServiceCall)

theorem reply_serve : (service.serve call).1.reply = call.reply := by
  cases call with
  | install settings =>
      simp only [serve, install, ServiceCall.reply]
      split <;> rfl
  | setFilter filter => rfl
  | history chain schedule request => simp [serve, history, ServiceCall.reply]
  | report chain schedule query => simp [serve, report, history, ServiceCall.reply]

theorem events_serve : (service.serve call).1.events = call.events := by
  cases call with
  | install settings =>
      simp only [serve, install, ServiceCall.events]
      split <;> rfl
  | setFilter filter => rfl
  | history chain schedule request => exact events_settle service request _
  | report chain schedule query => exact events_settle service (query.request chain) _

/-- A call moves the counters on by its outcome, if it has one. -/
theorem counters_serve : (service.serve call).2.counters =
    call.reply.outcome?.elim service.counters service.counters.account := by
  cases call with
  | install settings =>
      simp only [serve, install, ServiceCall.reply, ServiceReply.outcome?]
      split <;> rfl
  | setFilter filter => rfl
  | history chain schedule request => exact counters_settle service request _
  | report chain schedule query =>
      -- The report is made from the history after the counters have moved on.
      have h := counters_settle service (query.request chain)
        (History.compute chain schedule (query.request chain))
      refine h.trans ?_
      simp only [ServiceCall.reply, ServiceReply.outcome?, Option.elim_some]
      cases History.compute chain schedule (query.request chain) with
      | error error => rfl
      | ok history => simp [Except.map, Report.ofHistory]

theorem journal_serve : (service.serve call).2.journal =
    service.journal.appendAll call.events := by
  cases call with
  | install settings =>
      simp only [serve, install, ServiceCall.events]
      split <;> rfl
  | setFilter filter => rfl
  | history chain schedule request => exact journal_settle service request _
  | report chain schedule query => exact journal_settle service (query.request chain) _

/-- Counters are written but never read: the same service with other counters serves a call in
the same way. -/
theorem serve_with_counters (counters : Counters) :
    ({ service with counters }.serve call).1 = (service.serve call).1 ∧
      ∃ after, ({ service with counters }.serve call).2 =
        { (service.serve call).2 with counters := after } := by
  cases call with
  | install settings =>
      simp only [serve, install]
      split
      · exact ⟨rfl, counters, rfl⟩
      · exact ⟨rfl, counters, rfl⟩
  | setFilter filter => exact ⟨rfl, counters, rfl⟩
  | history chain schedule request =>
      simp only [serve, history]
      cases History.compute chain schedule request with
      | error error => exact ⟨rfl, _, rfl⟩
      | ok history => exact ⟨rfl, _, rfl⟩
  | report chain schedule query =>
      simp only [serve, report, history]
      cases History.compute chain schedule (query.request chain) with
      | error error => exact ⟨rfl, _, rfl⟩
      | ok history => exact ⟨rfl, _, rfl⟩

end Serving

@[simp] theorem counters_install (settings : InstallSettings) :
    (service.install settings).service.counters = service.counters := by
  unfold install
  split <;> rfl

section Running

variable (calls : List ServiceCall)

theorem replies_serveAll :
    (service.serveAll calls).1.map ServedCall.reply = calls.map ServiceCall.reply := by
  induction calls generalizing service with
  | nil => rfl
  | cons call rest ih => simp only [serveAll, List.map_cons, reply_serve, ih]

/-- Every fee-history call of a run has an outcome, and no other call has one. -/
theorem length_outcomes_serveAll :
    (outcomes (service.serveAll calls).1).length = calls.countP ServiceCall.asksHistory := by
  have houtcomes : outcomes (service.serveAll calls).1 =
      (calls.map ServiceCall.reply).filterMap ServiceReply.outcome? := by
    rw [← replies_serveAll service calls, List.filterMap_map]
    rfl
  rw [houtcomes, List.filterMap_map, List.length_filterMap_eq_countP]
  apply List.countP_congr
  intro call _
  rw [Function.comp_apply, ServiceCall.isSome_outcome?_reply]

theorem events_serveAll :
    (service.serveAll calls).1.flatMap ServedCall.events = calls.flatMap ServiceCall.events := by
  induction calls generalizing service with
  | nil => rfl
  | cons call rest ih => simp only [serveAll, List.flatMap_cons, events_serve, ih]

theorem counters_serveAll : (service.serveAll calls).2.counters =
    (outcomes (service.serveAll calls).1).foldl Counters.account service.counters := by
  induction calls generalizing service with
  | nil => rfl
  | cons call rest ih =>
      simp only [serveAll, outcomes, ih, counters_serve]
      rw [List.filterMap_cons, reply_serve]
      cases call.reply.outcome? with
      | none => rfl
      | some outcome => rfl

theorem journal_serveAll : (service.serveAll calls).2.journal =
    service.journal.appendAll (calls.flatMap ServiceCall.events) := by
  induction calls generalizing service with
  | nil => rfl
  | cons call rest ih =>
      simp only [serveAll, ih, journal_serve, Journal.appendAll, List.flatMap_cons,
        List.foldl_append]

theorem serveAll_with_counters (counters : Counters) :
    ({ service with counters }.serveAll calls).1 = (service.serveAll calls).1 := by
  induction calls generalizing service counters with
  | nil => rfl
  | cons call rest ih =>
      obtain ⟨hserved, after, hafter⟩ := serve_with_counters service call counters
      simp only [serveAll, hserved, hafter, ih]

end Running

end Service

end FeeWindow
