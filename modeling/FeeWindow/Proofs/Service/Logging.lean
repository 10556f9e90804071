import FeeWindow.Proofs.Service.Run

/-!
The log of every run. An answered request makes one entry for debugging, a failed one and a
successful installation one for information, and a refused installation none. What is kept of
these entries hangs on their number alone: whichever filters are stored meanwhile decide what is
shown, not what is logged.
-/

namespace FeeWindow

variable [PatternSearch]

/-- The levels of the entries that go with a reply. -/
def ServiceReply.levels : ServiceReply → List Level
  | .installed (.ok _) => [.info]
  | .installed (.error _) => []
  | .filterSet => []
  | .answered (.ok _) | .reported (.ok _) => [.debug]
  | .answered (.error _) | .reported (.error _) => [.info]

theorem ServiceCall.map_level_events (call : ServiceCall) :
    call.events.map Event.level = call.reply.levels := by
  cases call with
  | install settings =>
      simp only [events, reply]
      split <;> rfl
  | setFilter filter => rfl
  | history chain schedule request =>
      simp only [events, reply]
      cases History.compute chain schedule request <;> rfl
  | report chain schedule query =>
      simp only [events, reply]
      cases History.compute chain schedule (query.request chain) <;> rfl

namespace Service

/-- A run leaves the log that all events of its calls make from an empty one. -/
theorem journal_serveAll_initial (calls : List ServiceCall) :
    (initial.serveAll calls).2.journal =
      Journal.empty.appendAll ((initial.serveAll calls).1.flatMap ServedCall.events) := by
  rw [journal_serveAll, events_serveAll]
  rfl

/-- A call appends the entries that go with its reply, one for every event. After a run each
buffer holds the last thousand of the entries made at its level, in order, and both together are
listed level by level. The entries are numbered one after another across the levels, so in a
buffer the numbers ascend and in both together none occurs twice. Another filter in place of the
stored one changes nothing of this. -/
theorem journal_of_run (calls : List ServiceCall) :
    let journal := (initial.serveAll calls).2.journal
    let made := Journal.empty.made ((initial.serveAll calls).1.flatMap ServedCall.events)
    (∀ (service : Service) (call : ServiceCall),
      (service.serve call).2.journal =
        service.journal.appendAll (service.serve call).1.events ∧
      (service.serve call).1.events.map Event.level = (service.serve call).1.reply.levels) ∧
    (∀ level, journal.entries level <:+ Journal.atLevel level made ∧
      (journal.entries level).length = min 1000 (Journal.atLevel level made).length) ∧
    journal.all = (journal.entries .info).map (Level.info, ·) ++
      (journal.entries .debug).map (Level.debug, ·) ∧
    made.map (fun entry => entry.2.counter) = List.range' 1 made.length ∧
    (∀ level, (journal.entries level).Pairwise fun a b => a.counter < b.counter) ∧
    (journal.all.map fun entry => entry.2.counter).Nodup ∧
    ∀ (service : Service) (screen : LineScreen) (later : List ServiceCall),
      ({ service with screen }.serveAll later).2.journal =
        (service.serveAll later).2.journal := by
  intro journal made
  have hjournal : journal = Journal.empty.appendAll _ := journal_serveAll_initial calls
  refine ⟨?_, ?_, journal.all_eq_append, ?_, ?_, ?_, ?_⟩
  · intro service call
    rw [journal_serve, events_serve, reply_serve]
    exact ⟨rfl, call.map_level_events⟩
  · intro level
    have hentries : journal.entries level =
        (Journal.atLevel level made).drop
          ((Journal.atLevel level made).length - bufferCapacity) := by
      rw [hjournal]
      exact Journal.entries_appendAll _ level
    have hcapacity : bufferCapacity = 1000 := rfl
    rw [hentries]
    refine ⟨List.drop_suffix _ _, ?_⟩
    rw [List.length_drop]
    omega
  · rw [Journal.length_made]
    exact Journal.map_counter_made Journal.empty _
  · intro level
    rw [hjournal]
    exact Journal.pairwise_counter_entries _ level
  · rw [hjournal]
    exact Journal.nodup_counter_all _
  · intro service screen later
    rw [journal_serveAll, journal_serveAll]

end Service

end FeeWindow
