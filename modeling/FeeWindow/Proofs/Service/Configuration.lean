import FeeWindow.Chain.Store
import FeeWindow.Pattern.Library
import FeeWindow.Proofs.Service.Run

/-!
The settings of every run. An installation is refused exactly where it brings a filter whose text
is no pattern, and a refused one leaves no trace. So the filter in force is always the one that the
last successful installation brought, and its pattern can be read; the fee market that an
installation gives back hangs on its own settings alone.
-/

namespace FeeWindow

section Libraries

variable [PatternSearch]

namespace LineFilter

variable {filter : LineFilter} {text : String}

/-- Whether a filter has a text that is no pattern. -/
def Broken (filter : LineFilter) : Prop :=
  ∃ text, (filter = .showPattern text ∨ filter = .hidePattern text) ∧
    PatternSearch.compile? text = none

theorem isValid_eq_false_iff : filter.isValid = false ↔ filter.Broken := by
  cases filter with
  | showAll => simp [isValid, Broken]
  | hideAll => simp [isValid, Broken]
  | showPattern text => simp [isValid, pattern?, Broken]
  | hidePattern text => simp [isValid, pattern?, Broken]

/-- A line in which the pattern is found is shown by one of the two filters with that pattern, and
any other line by the other one. -/
theorem shows_hidePattern_of_isValid (hvalid : (showPattern text).isValid = true)
    (line : String) : (hidePattern text).shows line = !(showPattern text).shows line := by
  obtain ⟨compiled, hcompiled⟩ := Option.isSome_iff_exists.mp hvalid
  have hcompiled : PatternSearch.compile? text = some compiled := hcompiled
  simp [shows_hidePattern, shows_showPattern, findPattern?, hcompiled]

end LineFilter

/-- Whether settings bring a filter whose text is no pattern. -/
def InstallSettings.Broken (settings : InstallSettings) : Prop :=
  ∃ filter, settings.filter = some filter ∧ filter.Broken

theorem InstallSettings.all_isValid_iff {settings : InstallSettings} :
    settings.filter.all LineFilter.isValid = true ↔ ¬ settings.Broken := by
  unfold Broken
  cases settings.filter with
  | none => simp
  | some filter => simp [← LineFilter.isValid_eq_false_iff]

/-- The filter that a call stores, if it stores one. -/
def ServiceCall.newFilter? : ServiceCall → Option LineFilter
  | .install settings => if settings.filter.all LineFilter.isValid then settings.filter else none
  | .setFilter filter => some filter
  | .history .. | .report .. => none

/-- The filter that a call brought, if it was an installation that succeeded. -/
def ServedCall.installedFilter? (served : ServedCall) : Option LineFilter :=
  match served.call, served.reply with
  | .install settings, .installed (.ok _) => settings.filter
  | _, _ => none

/-- What a call stores has passed the check, unless it is stored as it is. -/
theorem ServiceCall.isValid_of_newFilter? {call : ServiceCall}
    (hcall : ∀ filter, call ≠ .setFilter filter) {filter : LineFilter}
    (h : call.newFilter? = some filter) : filter.isValid = true := by
  cases call with
  | install settings =>
      simp only [newFilter?] at h
      split at h
      · next hvalid =>
          rw [h] at hvalid
          exact hvalid
      · cases h
  | setFilter filter => exact absurd rfl (hcall filter)
  | history chain schedule request => cases h
  | report chain schedule query => cases h

namespace Service

variable (service : Service)

/-- A service puts no other filter to work than the one it tells. -/
theorem screen_eq : service.screen = service.filter.screen := by
  obtain ⟨⟨filter, pattern, rfl⟩, _, _⟩ := service
  rfl

section Installing

variable {settings : InstallSettings}

theorem install_of_broken (h : settings.Broken) :
    service.install settings = ⟨.error .invalidFilter, [], service⟩ := by
  unfold install
  rw [if_neg]
  rwa [InstallSettings.all_isValid_iff, not_not]

theorem result_install_of_not_broken (h : ¬ settings.Broken) :
    (service.install settings).result = .ok (.ofSettings settings.market) := by
  unfold install
  rw [if_pos (InstallSettings.all_isValid_iff.mpr h)]
  rfl

theorem result_install_eq_error_iff :
    (service.install settings).result = .error .invalidFilter ↔ settings.Broken := by
  constructor
  · intro h
    by_contra hsound
    rw [result_install_of_not_broken service hsound] at h
    cases h
  · intro h
    rw [install_of_broken service h]

end Installing

section Serving

variable (call : ServiceCall)

theorem filter_settle (request : Request) (result : Except HistoryError History) :
    (service.settle request result).service.filter = service.filter := by
  cases result <;> rfl

theorem filter_serve : (service.serve call).2.filter =
    call.newFilter?.getD service.filter := by
  cases call with
  | install settings =>
      simp only [serve, install, ServiceCall.newFilter?]
      split <;> rfl
  | setFilter filter => rfl
  | history chain schedule request => exact filter_settle service request _
  | report chain schedule query => exact filter_settle service (query.request chain) _

theorem installedFilter?_serve (hcall : ∀ filter, call ≠ .setFilter filter) :
    (service.serve call).1.installedFilter? = call.newFilter? := by
  cases call with
  | install settings =>
      simp only [serve, install, ServiceCall.newFilter?]
      split <;> rfl
  | setFilter filter => exact absurd rfl (hcall filter)
  | history chain schedule request => rfl
  | report chain schedule query => rfl

end Serving

section Running

variable (calls : List ServiceCall)

/-- A run leaves the filter that it stored last. -/
theorem filter_serveAll : (service.serveAll calls).2.filter =
    (calls.filterMap ServiceCall.newFilter?).getLast?.getD service.filter := by
  induction calls generalizing service with
  | nil => rfl
  | cons call rest ih =>
      simp only [serveAll, ih, filter_serve, List.filterMap_cons]
      cases call.newFilter? with
      | none => rfl
      | some filter =>
          rw [List.getLast?_cons]
          rfl

theorem filterMap_installedFilter?_serveAll (hcalls : ∀ filter, .setFilter filter ∉ calls) :
    (service.serveAll calls).1.filterMap ServedCall.installedFilter? =
      calls.filterMap ServiceCall.newFilter? := by
  induction calls generalizing service with
  | nil => rfl
  | cons call rest ih =>
      have hcall : ∀ filter, call ≠ .setFilter filter := by
        rintro filter rfl
        exact hcalls filter List.mem_cons_self
      have hrest : ∀ filter, .setFilter filter ∉ rest := by
        intro filter hmem
        exact hcalls filter (List.mem_cons_of_mem _ hmem)
      simp only [serveAll, List.filterMap_cons, installedFilter?_serve service call hcall,
        ih _ hrest]

/-- A valid filter stays valid where every new one passes the check. -/
theorem isValid_filter_serveAll (hvalid : service.filter.isValid = true)
    (hcalls : ∀ filter, .setFilter filter ∉ calls) :
    (service.serveAll calls).2.filter.isValid = true := by
  rw [filter_serveAll]
  cases hlast : (calls.filterMap ServiceCall.newFilter?).getLast? with
  | none => exact hvalid
  | some filter =>
      obtain ⟨call, hmem, hnew⟩ := List.mem_filterMap.mp (List.mem_of_getLast? hlast)
      apply ServiceCall.isValid_of_newFilter? _ hnew
      rintro other rfl
      exact hcalls other hmem

end Running

/-- Settings with a filter of each kind: one that can be used, one that cannot, and none. -/
def mixedCalls : List ServiceCall := [
  .install ⟨some (.hidePattern "^DEBUG "), some ⟨5, none, none, none⟩⟩,
  .install ⟨some (.showPattern "([a-z]"), some ⟨7, none, none, none⟩⟩,
  .report (ChainStore.empty Amount.zero).view .free ⟨0, .latest, none⟩,
  .install ⟨none, none⟩]

/-- Take any run of installations and requests for fee histories. An installation after it is
refused exactly where its filter has a text that is no pattern, and then leaves the whole state as
it was and logs nothing; otherwise it gives back the fee market of its own settings, and keeps the
filter if it brings none. The filter in force is the one that the last successful installation
brought, if any did, and otherwise everything is shown. It passes the check, so that of the two
filters with its pattern exactly one shows a line. -/
theorem settings_of_run (calls : List ServiceCall)
    (hcalls : ∀ filter, .setFilter filter ∉ calls) :
    let run := initial.serveAll calls
    (∀ settings,
      let next := run.2.serve (.install settings)
      (next.1.reply = .installed (.error .invalidFilter) ↔ settings.Broken) ∧
      (settings.Broken → next.1.notices = [] ∧ next.2 = run.2) ∧
      (¬ settings.Broken → next.1.reply = .installed (.ok (.ofSettings settings.market))) ∧
      (settings.filter = none → next.2.filter = run.2.filter)) ∧
    run.2.filter = (run.1.filterMap ServedCall.installedFilter?).getLast?.getD .showAll ∧
    run.2.filter.isValid = true ∧
    run.2.screen = run.2.filter.screen ∧
    ∀ text, run.2.filter = .showPattern text ∨ run.2.filter = .hidePattern text →
      ∀ line, (LineFilter.hidePattern text).shows line =
        !(LineFilter.showPattern text).shows line := by
  intro run
  have hvalid : run.2.filter.isValid = true :=
    isValid_filter_serveAll initial calls rfl hcalls
  refine ⟨?_, ?_, hvalid, screen_eq run.2, ?_⟩
  · intro settings next
    refine ⟨?_, ?_, ?_, ?_⟩
    · show ServiceReply.installed _ = _ ↔ _
      rw [ServiceReply.installed.injEq]
      exact result_install_eq_error_iff run.2
    · intro h
      simp only [next, serve, install_of_broken run.2 h, and_self]
    · intro h
      exact congrArg ServiceReply.installed (result_install_of_not_broken run.2 h)
    · intro hnone
      rw [filter_serve, ServiceCall.newFilter?, hnone]
      rfl
  · rw [filterMap_installedFilter?_serveAll initial calls hcalls]
    exact filter_serveAll initial calls
  · rintro text (hfilter | hfilter) line
    · rw [hfilter] at hvalid
      exact LineFilter.shows_hidePattern_of_isValid hvalid line
    · rw [hfilter] at hvalid
      exact LineFilter.shows_hidePattern_of_isValid hvalid line

end Service

end Libraries

namespace Service

theorem settings_of_mixedCalls :
    (∀ filter, .setFilter filter ∉ mixedCalls) ∧
    (initial.serveAll mixedCalls).2.filter = .hidePattern "^DEBUG " ∧
    InstallSettings.Broken ⟨some (.showPattern "([a-z]"), none⟩ ∧
    ((initial.serveAll mixedCalls).2.serve
      (.install ⟨some (.showPattern "([a-z]"), none⟩)).2 = (initial.serveAll mixedCalls).2 ∧
    (LineFilter.hidePattern "^DEBUG ").shows (installEvent .free).line =
      !(LineFilter.showPattern "^DEBUG ").shows (installEvent .free).line := by
  have hcalls : ∀ filter, .setFilter filter ∉ mixedCalls := by
    intro filter hmem
    simp [mixedCalls] at hmem
  have hbroken : InstallSettings.Broken ⟨some (.showPattern "([a-z]"), none⟩ :=
    ⟨_, rfl, _, .inl rfl, by decide +kernel⟩
  have hfilters : (initial.serveAll mixedCalls).1.filterMap ServedCall.installedFilter? =
      [.hidePattern "^DEBUG "] := by decide +kernel
  obtain ⟨hinstall, hfilter, _, _, hshows⟩ := settings_of_run mixedCalls hcalls
  rw [hfilters] at hfilter
  exact ⟨hcalls, hfilter, hbroken, ((hinstall _).2.1 hbroken).2,
    hshows _ (.inr hfilter) _⟩

end Service

end FeeWindow
