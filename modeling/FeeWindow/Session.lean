import FeeWindow.Chain.Store
import FeeWindow.Pattern.Library
import FeeWindow.Service

/-!
A running service together with the chain that it reads and the fee market that was set last. It
searches with the library of this project.
-/

namespace FeeWindow

/-- A stored chain, the market set last, and the state of the service. -/
structure Session where
  store : ChainStore
  schedule : FeeSchedule
  service : Service

namespace Session

/-- An empty chain at genesis, without fee market. -/
def initial : Session := ⟨.empty Amount.zero, .free, .initial⟩

/-- Sets filter and fee market; a refusal keeps the market that was set before. -/
def install (session : Session) (settings : InstallSettings) :
    Outcome (Except InstallError FeeSchedule) × Session :=
  let outcome := session.service.install settings
  let schedule := match outcome.result with
    | .ok schedule => schedule
    | .error _ => session.schedule
  (outcome, { session with schedule, service := outcome.service })

def history (session : Session) (request : Request) :
    Outcome (Except HistoryError History) × Session :=
  let outcome := session.service.history session.store.view session.schedule request
  (outcome, { session with service := outcome.service })

def report (session : Session) (query : Query) :
    Outcome (Except HistoryError Report) × Session :=
  let outcome := session.service.report session.store.view session.schedule query
  (outcome, { session with service := outcome.service })

end Session

end FeeWindow
