import FeeWindow.Service

/-!
Whole runs of a service: calls of every kind, each possibly with a chain and a fee market of its
own, served one after another.
-/

namespace FeeWindow

/-- A call to a service. -/
inductive ServiceCall where
  | install (settings : InstallSettings)
  | setFilter (filter : LineFilter)
  | history (chain : ChainView) (schedule : FeeSchedule) (request : Request)
  | report (chain : ChainView) (schedule : FeeSchedule) (query : Query)

/-- What a call gives back. -/
inductive ServiceReply where
  | installed (result : Except InstallError FeeSchedule)
  | filterSet
  | answered (result : Except HistoryError History)
  | reported (result : Except HistoryError Report)

/-- A call together with what it gave back and the events that it logged. -/
structure ServedCall where
  call : ServiceCall
  reply : ServiceReply
  notices : List Notice

namespace Service

variable [PatternSearch]

def serve (service : Service) (call : ServiceCall) : ServedCall × Service :=
  match call with
  | .install settings =>
      let outcome := service.install settings
      (⟨call, .installed outcome.result, outcome.notices⟩, outcome.service)
  | .setFilter filter => (⟨call, .filterSet, []⟩, service.setFilter filter)
  | .history chain schedule request =>
      let outcome := service.history chain schedule request
      (⟨call, .answered outcome.result, outcome.notices⟩, outcome.service)
  | .report chain schedule query =>
      let outcome := service.report chain schedule query
      (⟨call, .reported outcome.result, outcome.notices⟩, outcome.service)

def serveAll (service : Service) : List ServiceCall → List ServedCall × Service
  | [] => ([], service)
  | call :: rest =>
      let (served, next) := service.serve call
      let (others, last) := next.serveAll rest
      (served :: others, last)

end Service

end FeeWindow
