import FeeWindow.Proofs.History.Alignment
import Mathlib.Data.Option.NAry

/-!
Neighbouring windows join. A request for a window asks for the same as two requests that cut the
window anywhere above its oldest block: it succeeds if both do, fails as the older one does or
else as the newer one, and its lists are those of the older window followed by those of the newer
one. The base fee that the older window projects for the block after it is dropped, and it is the
first base fee of the newer window where that block is stored.
-/

namespace FeeWindow

/-- Requests with the same percentiles and with counts in range are judged alike. -/
theorem Request.validate_congr {a b : Request} (ha : a.CountInRange) (hb : b.CountInRange)
    (hpercentiles : a.percentiles = b.percentiles) : a.validate = b.validate := by
  have ha := mt outOfRange_iff.mp (not_not.mpr ha)
  have hb := mt outOfRange_iff.mp (not_not.mpr hb)
  unfold validate
  rw [if_neg ha, if_neg hb, hpercentiles]

namespace Window

variable {older newer joint : Window} {chain : ChainView} {schedule : FeeSchedule}

theorem rewards_append (h : joint.numbers = older.numbers ++ newer.numbers)
    (percentiles : List Binary64) :
    joint.rewards chain percentiles = (do
      let old ← older.rewards chain percentiles
      let new ← newer.rewards chain percentiles
      return old ++ new) := by
  unfold rewards
  rw [blocks_append chain h, List.mapM_append]

/-- The priority fees of two neighbouring windows, of which the older one is asked first. -/
theorem rewardsFor_append (h : joint.numbers = older.numbers ++ newer.numbers)
    (asked : Option (List Binary64)) :
    joint.rewardsFor chain asked =
      match older.rewardsFor chain asked, newer.rewardsFor chain asked with
      | .error missing, _ => .error missing
      | .ok _, .error missing => .error missing
      | .ok old, .ok new => .ok (Option.map₂ (· ++ ·) old new) := by
  cases asked with
  | none => rfl
  | some percentiles =>
      simp only [rewardsFor, rewards_append h]
      cases older.rewards chain (sortedPercentiles percentiles) with
      | error missing => rfl
      | ok old =>
          cases newer.rewards chain (sortedPercentiles percentiles) with
          | error missing => rfl
          | ok new => rfl

/-- The base fee of the next block hangs on the newest number and on the last header only. -/
theorem nextBaseFee_congr (hnewest : joint.newest = newer.newest)
    (hlast : (joint.headers chain).getLast? = (newer.headers chain).getLast?) :
    joint.nextBaseFee chain schedule = newer.nextBaseFee chain schedule := by
  unfold Window.nextBaseFee next?
  rw [hnewest, hlast]

variable {store : ChainStore}

theorem headers_ne_nil {window : Window} {n : BlockNumber} (hlow : window.oldest ≤ n)
    (hhigh : n ≤ window.newest) (hstored : (store.block? n).isSome = true) :
    window.headers store.view ≠ [] := by
  obtain ⟨block, hblock⟩ := Option.isSome_iff_exists.mp hstored
  have hmem := mem_blocks_of_stored hlow hhigh hblock
  rw [headers_eq_map_blocks]
  exact List.ne_nil_of_mem (List.mem_map_of_mem hmem)

/-- The last header of neighbouring windows is that of the newer one, if that has a header. -/
theorem getLast?_headers_append (h : joint.numbers = older.numbers ++ newer.numbers)
    (hne : newer.headers chain ≠ []) :
    (joint.headers chain).getLast? = (newer.headers chain).getLast? := by
  rw [headers_append chain h]
  exact List.getLast?_append_of_ne_nil _ hne

theorem head?_headers {window : Window} {header : BlockHeader}
    (h : chain.header? window.oldest = some header) :
    (window.headers chain).head? = some header := by
  have hfirst : window.numbers[0]? = some window.oldest :=
    getElem?_numbers.mpr ⟨rfl, window.oldest_le_newest⟩
  unfold headers
  cases hnumbers : window.numbers with
  | nil => rw [hnumbers] at hfirst; cases hfirst
  | cons n rest =>
      rw [hnumbers] at hfirst
      obtain rfl := Option.some.inj hfirst
      rw [List.filterMap_cons_some h]
      rfl

end Window

namespace History

variable {store : ChainStore} {schedule : FeeSchedule}

/-- What the answers of two neighbouring windows have to do with the answer of the window that
covers both and ends at `newest`. -/
structure Joins (old new joined : History) (store : ChainStore)
    (middle newest : BlockNumber) : Prop where
  oldestBlock : joined.oldestBlock = old.oldestBlock
  gasUsedRatios : joined.gasUsedRatios = old.gasUsedRatios ++ new.gasUsedRatios
  rewards : joined.rewards = Option.map₂ (· ++ ·) old.rewards new.rewards
  dropLast_baseFees : joined.baseFees.dropLast = old.baseFees.dropLast ++ new.baseFees.dropLast
  baseFees : (∃ n, middle < n ∧ (n ≤ newest ∨ n.val = newest.val + 1) ∧
      (store.block? n).isSome = true) →
    joined.baseFees = old.baseFees.dropLast ++ new.baseFees
  dropped : ∀ first : BlockNumber, first.val = middle.val + 1 →
    (store.block? first).isSome = true → old.baseFees.getLast? = new.baseFees.head?

theorem ofWindow_joins {older newer joint : Window} (old new : Option (List (List GasPrice)))
    (hnext : newer.oldest.val = older.newest.val + 1)
    (holdest : joint.oldest = older.oldest) (hnewest : joint.newest = newer.newest) :
    Joins (ofWindow older store.view schedule old) (ofWindow newer store.view schedule new)
      (ofWindow joint store.view schedule (Option.map₂ (· ++ ·) old new)) store
      older.newest newer.newest := by
  have hnumbers := Window.numbers_append hnext holdest hnewest
  have hheaders := Window.headers_append store.view hnumbers
  refine ⟨holdest, ?_, rfl, ?_, ?_, ?_⟩
  · simp only [ofWindow, hheaders, List.map_append]
  · simp only [dropLast_baseFees_ofWindow, hheaders, List.map_append]
  · rintro ⟨n, hlow, hplace, hstored⟩
    have hfee : joint.nextBaseFee store.view schedule = newer.nextBaseFee store.view schedule := by
      rcases hplace with hinside | hafter
      · have hlow : older.newest.val < n.val := hlow
        have hstart : newer.oldest ≤ n := show newer.oldest.val ≤ n.val by omega
        have hne := Window.headers_ne_nil hstart hinside hstored
        exact Window.nextBaseFee_congr hnewest (Window.getLast?_headers_append hnumbers hne)
      · obtain ⟨block, hblock⟩ := Option.isSome_iff_exists.mp hstored
        have hheader : store.view.header? n = some block.header :=
          ChainStore.header?_of_block? hblock
        rw [Window.nextBaseFee_of_stored (hnewest ▸ hafter) hheader,
          Window.nextBaseFee_of_stored hafter hheader]
    rw [dropLast_baseFees_ofWindow]
    simp only [ofWindow, hheaders, hfee, List.map_append, List.append_assoc]
  · intro first hfirst hstored
    obtain ⟨block, hblock⟩ := Option.isSome_iff_exists.mp hstored
    have hheader : store.view.header? first = some block.header :=
      ChainStore.header?_of_block? hblock
    have holdest : first = newer.oldest := Amount.ext (by omega)
    have hhead := Window.head?_headers (holdest ▸ hheader)
    rw [getLast?_baseFees_ofWindow, Window.nextBaseFee_of_stored hfirst hheader]
    simp only [ofWindow, List.head?_append, List.head?_map, hhead]
    rfl

/-- Three requests that are judged alike, where the windows of the first two make up that of
the third. -/
theorem compute_join_requests {older newer joint : Request}
    (holderValid : older.validate = joint.validate)
    (hnewerValid : newer.validate = joint.validate)
    (holderAsked : older.percentiles = joint.percentiles)
    (hnewerAsked : newer.percentiles = joint.percentiles)
    (holderHead : older.highestBlock ≤ store.head) (hhead : joint.highestBlock ≤ store.head)
    (hhighest : joint.highestBlock = newer.highestBlock)
    (hnext : newer.window.oldest.val = older.highestBlock.val + 1)
    (holdest : joint.window.oldest = older.window.oldest) :
    ((∃ joined, compute store.view schedule joint = .ok joined) ↔
      (∃ old, compute store.view schedule older = .ok old) ∧
        ∃ new, compute store.view schedule newer = .ok new) ∧
    (∀ old new joined, compute store.view schedule older = .ok old →
      compute store.view schedule newer = .ok new →
      compute store.view schedule joint = .ok joined →
        Joins old new joined store older.highestBlock joint.highestBlock) ∧
    ∀ error, compute store.view schedule joint = .error error ↔
      compute store.view schedule older = .error error ∨
        (∃ old, compute store.view schedule older = .ok old) ∧
          compute store.view schedule newer = .error error := by
  cases hvalid : joint.validate with
  | error error =>
      rw [compute_eq_of_invalid hvalid, compute_eq_of_invalid (holderValid.trans hvalid),
        compute_eq_of_invalid (hnewerValid.trans hvalid)]
      simp
  | ok =>
      have hnumbers : joint.window.numbers = older.window.numbers ++ newer.window.numbers :=
        Window.numbers_append hnext holdest hhighest
      have hrewards : joint.window.rewardsFor store.view joint.percentiles = _ :=
        Window.rewardsFor_append hnumbers joint.percentiles
      rw [compute_eq hvalid hhead, compute_eq (holderValid.trans hvalid) holderHead,
        compute_eq (hnewerValid.trans hvalid) (hhighest ▸ hhead), holderAsked, hnewerAsked,
        hrewards]
      cases older.window.rewardsFor store.view joint.percentiles with
      | error missing => simp
      | ok a =>
          cases newer.window.rewardsFor store.view joint.percentiles with
          | error missing => simp
          | ok b =>
              refine ⟨by simp, ?_, by simp⟩
              rintro _ _ _ ⟨rfl⟩ ⟨rfl⟩ ⟨rfl⟩
              rw [hhighest]
              exact ofWindow_joins a b hnext holdest hhighest

/-- A request for `older + newer` blocks is answered as the requests for its older and for its
newer blocks are, wherever the window is cut. -/
theorem compute_join (store : ChainStore) (schedule : FeeSchedule)
    (percentiles : Option (List Binary64)) (highest middle : BlockNumber) (older newer : UInt64)
    (hhead : highest ≤ store.head) (holder : 1 ≤ older.toNat) (hnewer : 1 ≤ newer.toNat)
    (hcount : older.toNat + newer.toNat ≤ 1024)
    (hmiddle : middle.val + newer.toNat = highest.val) :
    let older' := compute store.view schedule ⟨older, middle, percentiles⟩
    let newer' := compute store.view schedule ⟨newer, highest, percentiles⟩
    let joint := compute store.view schedule ⟨older + newer, highest, percentiles⟩
    ((∃ joined, joint = .ok joined) ↔ (∃ old, older' = .ok old) ∧ ∃ new, newer' = .ok new) ∧
    (∀ old new joined, older' = .ok old → newer' = .ok new → joint = .ok joined →
      Joins old new joined store middle highest) ∧
    ∀ error, joint = .error error ↔
      older' = .error error ∨ (∃ old, older' = .ok old) ∧ newer' = .error error := by
  have hsum : (older + newer).toNat = older.toNat + newer.toNat := by
    rw [UInt64.toNat_add]
    omega
  have hhead' : highest.val ≤ store.head.val := hhead
  have hinRange (count : UInt64) (h : BlockNumber) (hlow : 1 ≤ count.toNat)
      (hhigh : count.toNat ≤ 1024) : (⟨count, h, percentiles⟩ : Request).CountInRange :=
    ⟨hlow, hhigh⟩
  have hjoint := hinRange (older + newer) highest (by omega) (by omega)
  apply compute_join_requests
  · exact Request.validate_congr (hinRange older middle holder (by omega)) hjoint rfl
  · exact Request.validate_congr (hinRange newer highest hnewer (by omega)) hjoint rfl
  · rfl
  · rfl
  · show middle.val ≤ store.head.val
    omega
  · exact hhead
  · rfl
  · show (Window.ending newer highest).oldest.val = middle.val + 1
    rw [Window.val_oldest_ending]
    omega
  · apply Amount.ext
    show (Window.ending (older + newer) highest).oldest.val =
      (Window.ending older middle).oldest.val
    rw [Window.val_oldest_ending, Window.val_oldest_ending]
    omega

/-- The window of blocks 3 to 5 cut below block 5: the fee projected for block 5 is dropped. -/
theorem compute_join_at_five :
    ∃ old new joined,
      compute gapStore.view gapSchedule ⟨2, .ofUInt64 4, gapRequest.percentiles⟩ = .ok old ∧
      compute gapStore.view gapSchedule ⟨1, .ofUInt64 5, gapRequest.percentiles⟩ = .ok new ∧
      compute gapStore.view gapSchedule ⟨2 + 1, .ofUInt64 5, gapRequest.percentiles⟩ =
        .ok joined ∧
      joined.baseFees = old.baseFees.dropLast ++ new.baseFees ∧
      old.baseFees.getLast? = new.baseFees.head? := by
  obtain ⟨hok, hjoins, _⟩ := compute_join gapStore gapSchedule gapRequest.percentiles
    (.ofUInt64 5) (.ofUInt64 4) 2 1 (by decide) (by decide) (by decide) (by decide) (by decide)
  let request : Request := ⟨2 + 1, .ofUInt64 5, gapRequest.percentiles⟩
  obtain ⟨rewards, hjoint⟩ : ∃ rewards, compute gapStore.view gapSchedule request =
      .ok (ofWindow request.window gapStore.view gapSchedule rewards) :=
    exists_compute_eq_ofWindow gapSchedule (by decide +kernel) (by decide) (by decide +kernel)
  obtain ⟨⟨old, hold⟩, ⟨new, hnew⟩⟩ := hok.mp ⟨_, hjoint⟩
  have hjoined := hjoins old new _ hold hnew hjoint
  have hfive : (gapStore.block? (.ofUInt64 5)).isSome = true := by decide +kernel
  exact ⟨old, new, _, hold, hnew, hjoint,
    hjoined.baseFees ⟨.ofUInt64 5, by decide, .inl (by decide), hfive⟩,
    hjoined.dropped (.ofUInt64 5) rfl hfive⟩

end History

end FeeWindow
