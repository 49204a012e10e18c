import SSize.Lib.Rounds
import SSize.Site.Clock

/-!
# The timetable of the worker

How far apart the refreshes and the calls of `maintenance` are. The lower bounds hold of
every run. The upper bounds hold of runs that are `Punctual`, where no round of the loop
takes longer than some length and no start-up longer than that once it has begun to read;
and of these, the one on refreshes asks that no refresh fails.
-/

namespace SSize

open Lib Site

namespace Clockwork

variable {c c' : Clockwork} {a : SiteAct} {length interval : Nat}

/-! ## Runs that are on time -/

/-- When the round, or the start-up, has to be over. -/
def deadline (length : Nat) (c : Clockwork) : Option Int :=
  match c.stage with
  | .down => none
  | .booting _ => if c.reading then some (c.times.asked + length) else none
  | .booted _ _ => some (c.times.stamp + length)
  | .started | .serving | .stopping => some (c.times.round + length)

def OnTime (length : Nat) (c : Clockwork) : Prop := ∀ t ∈ c.deadline length, c.clock ≤ t

/-- Time does not pass beyond the deadline. -/
def Punctual (length : Nat) (c : Clockwork) : SiteAct → Prop
  | .elapse d => ∀ t ∈ c.deadline length, c.clock + d ≤ t
  | _ => True

instance (c : Clockwork) : DecidablePred (c.Punctual length) := by
  intro a
  cases a
  case elapse d => exact inferInstanceAs (Decidable (∀ t ∈ c.deadline length, _))
  all_goals exact isTrue trivial

theorem deadline_working (h : c.stage.working = true) :
    c.deadline length = some (c.times.round + length) := by
  rw [deadline]
  split
  · next hstage => rw [hstage] at h; cases h
  · next hstage => rw [hstage] at h; cases h
  · next hstage => rw [hstage] at h; cases h
  all_goals rfl

theorem onTime_working (h : c.stage.working = true) :
    c.OnTime length ↔ c.clock ≤ c.times.round + length := by
  simp [OnTime, deadline_working h]

theorem OnTime.worker (h : c.OnTime length) (hworking : c.stage.working = true)
    {dial : Dial} {maintenances : List Int} :
    OnTime length { c with
      dial := dial
      times := { c.times with
        round := if c.dial.phase = .head then c.clock else c.times.round
        maintenances := maintenances } } := by
  rw [onTime_working hworking] at h
  refine (onTime_working (by exact hworking)).2 ?_
  simp only
  split
  · omega
  · exact h

theorem OnTime.tick (h : c.OnTime length) (hpunctual : c.Punctual length a)
    (ht : c.Ticks a c') : c'.OnTime length := by
  cases ht with
  | elapse => exact hpunctual
  | commit | stay => exact h
  | boot | down => simp [OnTime, deadline]
  | ask hready hreading =>
      rcases hready with ⟨cfg, hstage⟩ | hdue
      · simp [OnTime, deadline, hstage]
      · rw [onTime_working hdue.1] at h
        exact (onTime_working (by exact hdue.1)).2 h
  | booted hstage hreading =>
      simp only [OnTime, deadline, hstage, hreading, if_true] at h
      simpa [OnTime, deadline] using h
  | swap hdue hreading =>
      rw [onTime_working hdue.1] at h
      exact (onTime_working (by exact hdue.1)).2 h
  | refreshFails hdue =>
      rw [onTime_working hdue.1] at h
      exact (onTime_working (by exact hdue.1)).2 h
  | startWorker hstage => simp [OnTime, deadline]
  | startServer hstage =>
      rw [onTime_working (by rw [hstage]; rfl)] at h
      exact (onTime_working rfl).2 h
  | stopServer hstage =>
      rw [onTime_working (Stage.working_of_up hstage)] at h
      exact (onTime_working rfl).2 h
  | stopWorker hstage => exact h
  | worker hworking hdue hturns => exact h.worker hworking

/-! ## Refreshes -/

/-- The loop has looked at the timer of the refresh in this round. -/
def pastRefresh (c : Clockwork) : Bool := decide (c.dial.phase ≠ .refresh)

/-- The configuration of the process that is starting. -/
def starting (c : Clockwork) : Option Config :=
  match c.stage with
  | .booting cfg | .booted cfg _ => some cfg
  | .down | .started | .serving | .stopping => none

/-- Punctual, with refreshes that are asked for at least every `interval` and do not fail
once the worker is up. -/
def Prompt (interval length : Nat) (c : Clockwork) (a : SiteAct) : Prop :=
  c.Punctual length a ∧
    match a with
    | .boot cfg => cfg.refreshMs ≤ interval
    | .selectFails => c.stage.up = false
    | _ => True

instance (c : Clockwork) : DecidablePred (c.Prompt interval length) := by
  intro a
  unfold Prompt
  cases a <;> exact inferInstance

structure Refreshing (interval length : Nat) (c : Clockwork) : Prop where
  onTime : c.OnTime length
  asked : ∀ cfg ∈ c.starting, cfg.refreshMs ≤ interval
  kept : c.stage.up = true → c.interval ≤ interval
  polled : c.stage.up = true →
    Polled (max interval length) length c.nextRefresh c.times.stamp c.times.round c.pastRefresh

/-- The loop goes round. -/
theorem Refreshing.turns (h : c.Refreshing interval length) (hregular : c.Regular)
    (hup : c.stage.up = true) (hdue : ¬ c.Due) {dial : Dial}
    (hturns : c.dial.Turns c.running c.clock dial) :
    Polled (max interval length) length c.nextRefresh c.times.stamp
      (if c.dial.phase = .head then c.clock else c.times.round) (decide (dial.phase ≠ .refresh)) := by
  have hworking := Stage.working_of_up hup
  have honTime := (onTime_working hworking).1 h.onTime
  have hpolled := h.polled hup
  rw [pastRefresh] at hpolled
  cases hturns with
  | enter hphase hrunning =>
      simp only [hphase, if_true] at hpolled ⊢
      simpa using Polled.next (by simpa using hpolled) honTime
  | leave hphase hrunning =>
      rw [hregular.running hup] at hrunning
      cases hrunning
  | refresh hphase =>
      have hloop := hregular.loopStart hworking (by rw [hphase]; rfl)
      have hlater : c.times.round < c.nextRefresh := by
        by_contra hle
        exact hdue ⟨hworking, hphase, by omega⟩
      simp only [hphase] at hpolled ⊢
      simpa using Polled.skip (by simpa using hpolled) hlater
  | flush hphase | flushed hphase | maintain hphase _ | later hphase _ | wake hphase
  | gone hphase =>
      simpa [hphase] using hpolled

theorem Refreshing.tick (h : c.Refreshing interval length) (hregular : c.Regular)
    (hprompt : c.Prompt interval length a) (ht : c.Ticks a c') :
    c'.Refreshing interval length := by
  have honTime := h.onTime.tick hprompt.1 ht
  refine ⟨honTime, ?_, ?_, ?_⟩
  · cases ht with
    | boot hstage =>
        intro cfg hcfg
        have hsame := Option.some.inj hcfg
        exact hsame ▸ hprompt.2
    | booted hstage hreading =>
        intro cfg hcfg
        exact h.asked cfg (by simpa [starting, hstage] using hcfg)
    | startWorker | startServer | stopServer | down => simp [starting]
    | _ => exact h.asked
  · cases ht with
    | boot | booted | stopServer | down => simp [Stage.up]
    | startWorker hstage => exact fun _ => h.asked _ (by simp [starting, hstage])
    | startServer hstage => exact fun _ => h.kept (by rw [hstage]; rfl)
    | _ => exact h.kept
  · cases ht with
    | boot | booted | stopServer | down => simp [Stage.up]
    | swap hdue hreading =>
        intro hup
        obtain ⟨-, hasked⟩ := hregular.reading hdue.1 hreading
        have hloop := hregular.due_round hdue
        have hkept := h.kept hup
        apply Polled.start
        · simp only [afterRefresh]
          omega
        · simp only [afterRefresh]
          omega
    | refreshFails hdue =>
        intro hup
        have hnot := hprompt.2
        rw [show c.stage.up = true from hup] at hnot
        cases hnot
    | startWorker hstage =>
        intro _
        have hbooted := h.onTime
        simp only [OnTime, deadline, hstage, Option.mem_some_iff, forall_eq'] at hbooted
        apply Polled.start
        · simp only
          omega
        · simp only
          omega
    | startServer hstage => exact fun _ => h.polled (by rw [hstage]; rfl)
    | worker hworking hdue hturns => exact fun hup => h.turns hregular hup hdue hturns
    | _ => exact h.polled

/-- How old the snapshot can be. -/
theorem Refreshing.age (h : c.Refreshing interval length) (hup : c.stage.up = true) :
    c.clock ≤ c.times.stamp + max interval length + 2 * length := by
  have honTime := (onTime_working (Stage.working_of_up hup)).1 h.onTime
  have hage := (h.polled hup).age (by omega) honTime
  omega

/-! ## Maintenance -/

/-- The loop has looked at the timer of the maintenance in this round. -/
def pastMaintenance (c : Clockwork) : Bool :=
  decide (c.dial.phase = .sleep ∨ c.dial.phase = .head)

/-- How far apart the rounds with a maintenance are, and those with a refresh. -/
structure Spaced (c : Clockwork) : Prop where
  maintenances : c.times.maintenances.Pairwise fun m n => m + 3600000 ≤ n
  firstHour : ∀ m ∈ c.times.maintenances, m ≤ c.times.started ∨ c.times.started + 3600000 ≤ m
  pastMaintenances : ∀ m ∈ c.times.maintenances, m ≤ c.times.round
  next : c.stage.working = true → ∀ m ∈ c.times.started :: c.times.maintenances,
    m + 3600000 ≤ c.dial.nextMaintenance
  refreshes : c.stage.working = true → c.times.refreshes.Pairwise fun m n => m + c.interval ≤ n
  pastRefreshes : c.stage.working = true → ∀ m ∈ c.times.refreshes, m ≤ c.times.round
  nextRefresh : c.stage.working = true → ∀ m ∈ c.times.refreshes, m + c.interval ≤ c.nextRefresh

/-- A round that is not before any of the others plus the period may be added. -/
theorem pairwise_concat_of_le {l : List Int} {period due m : Int}
    (h : l.Pairwise fun m n => m + period ≤ n) (hl : ∀ k ∈ l, k + period ≤ due) (hdue : due ≤ m) :
    (l ++ [m]).Pairwise fun m n => m + period ≤ n := by
  rw [List.pairwise_append]
  refine ⟨h, List.pairwise_singleton _ _, fun k hk n hn => ?_⟩
  rw [List.mem_singleton.1 hn]
  exact (hl k hk).trans hdue

theorem Spaced.afterRefresh (h : c.Spaced) (hregular : c.Regular) (hdue : c.Due) (stamp : Int) :
    Spaced (Clockwork.afterRefresh { c with times := { c.times with stamp := stamp } }) := by
  have hspaced := h.refreshes hdue.1
  have hpast := h.pastRefreshes hdue.1
  have hnext := h.nextRefresh hdue.1
  have hloop := hregular.due_round hdue
  refine ⟨h.maintenances, h.firstHour, h.pastMaintenances, h.next, ?_, ?_, ?_⟩
  · exact fun _ => pairwise_concat_of_le hspaced hnext hdue.2.2
  all_goals
    intro _ m hm
    simp only [Clockwork.afterRefresh] at hm ⊢
    rcases List.mem_append.1 hm with hm | hm
    · have hle := hpast m hm
      omega
    · have hsame := List.mem_singleton.1 hm
      omega

/-- The loop goes round, and does a maintenance when it is time for one. -/
theorem Spaced.worker (h : c.Spaced) (hregular : c.Regular) (hworking : c.stage.working = true)
    {dial : Dial} (hturns : c.dial.Turns c.running c.clock dial) :
    Spaced { c with
      dial := dial
      times := { c.times with
        round := if c.dial.phase = .head then c.clock else c.times.round
        maintenances :=
          if c.MaintenanceDue then c.times.maintenances ++ [c.dial.loopStart]
          else c.times.maintenances } } := by
  have hround := hregular.round_le
  have hlater : c.times.round ≤ if c.dial.phase = .head then c.clock else c.times.round := by
    split
    · exact hround
    · exact le_rfl
  have hpast := fun m hm => (h.pastMaintenances m hm).trans hlater
  have hpast' := fun m hm => (h.pastRefreshes hworking m hm).trans hlater
  have hnext := h.next hworking
  by_cases hdue : c.MaintenanceDue
  · obtain ⟨hphase, hle⟩ := hdue
    have hloop := hregular.loopStart hworking (by rw [hphase]; rfl)
    have hdial : dial.nextMaintenance = c.dial.loopStart + 3600000 := by
      cases hturns with
      | maintain => rfl
      | later _ hlt => omega
      | enter hother | leave hother | refresh hother | flush hother | flushed hother
      | wake hother | gone hother =>
          rw [hphase] at hother
          cases hother
    simp only [if_pos (show c.MaintenanceDue from ⟨hphase, hle⟩)]
    refine ⟨?_, ?_, ?_, ?_, fun _ => h.refreshes hworking, fun _ => hpast',
      fun _ => h.nextRefresh hworking⟩
    · have hold : ∀ m ∈ c.times.maintenances, m + 3600000 ≤ c.dial.nextMaintenance :=
        fun m hm => hnext m (List.mem_cons_of_mem _ hm)
      exact pairwise_concat_of_le h.maintenances hold hle
    · intro m hm
      rcases List.mem_append.1 hm with hm | hm
      · exact h.firstHour m hm
      · have hstarted := hnext _ List.mem_cons_self
        rw [List.mem_singleton.1 hm]
        right
        simp only
        omega
    · intro m hm
      rcases List.mem_append.1 hm with hm | hm
      · exact hpast m hm
      · rw [List.mem_singleton.1 hm, hloop]
        exact hlater
    · intro _ m hm
      rw [hdial]
      rw [← List.cons_append] at hm
      rcases List.mem_append.1 hm with hm | hm
      · have hm' := hnext m hm
        omega
      · rw [List.mem_singleton.1 hm]
  · have hdial : dial.nextMaintenance = c.dial.nextMaintenance := by
      cases hturns with
      | maintain hphase hle => exact absurd ⟨hphase, hle⟩ hdue
      | _ => rfl
    simp only [if_neg hdue]
    refine ⟨h.maintenances, h.firstHour, hpast, ?_, fun _ => h.refreshes hworking, fun _ => hpast',
      fun _ => h.nextRefresh hworking⟩
    intro _
    rw [hdial]
    exact hnext

theorem Spaced.tick (h : c.Spaced) (hregular : c.Regular) (ht : c.Ticks a c') : c'.Spaced := by
  cases ht with
  | elapse | commit | stay | ask | stopWorker =>
      exact ⟨h.maintenances, h.firstHour, h.pastMaintenances, h.next, h.refreshes,
        h.pastRefreshes, h.nextRefresh⟩
  | boot | booted | down =>
      exact ⟨h.maintenances, h.firstHour, h.pastMaintenances, by simp [Stage.working],
        by simp [Stage.working], by simp [Stage.working], by simp [Stage.working]⟩
  | swap hdue hreading => exact h.afterRefresh hregular hdue c.times.asked
  | refreshFails hdue => exact h.afterRefresh hregular hdue c.times.stamp
  | startWorker hstage =>
      have hpast : ∀ m ∈ c.times.maintenances, m ≤ c.clock :=
        fun m hm => (h.pastMaintenances m hm).trans hregular.round_le
      refine ⟨h.maintenances, fun m hm => Or.inl (hpast m hm), hpast, ?_, by simp, by simp,
        by simp⟩
      intro _ m hm
      rcases List.mem_cons.1 hm with rfl | hm
      · exact le_rfl
      · have hle := hpast m hm
        simp only
        omega
  | startServer hstage =>
      have hworking : c.stage.working = true := by rw [hstage]; rfl
      exact ⟨h.maintenances, h.firstHour, h.pastMaintenances, fun _ => h.next hworking,
        fun _ => h.refreshes hworking, fun _ => h.pastRefreshes hworking,
        fun _ => h.nextRefresh hworking⟩
  | stopServer hstage =>
      have hworking := Stage.working_of_up hstage
      exact ⟨h.maintenances, h.firstHour, h.pastMaintenances, fun _ => h.next hworking,
        fun _ => h.refreshes hworking, fun _ => h.pastRefreshes hworking,
        fun _ => h.nextRefresh hworking⟩
  | worker hworking hdue hturns => exact h.worker hregular hworking hturns

/-- The last maintenance, or the start of the worker, in the sense of `Polled`. -/
def Maintained (length : Nat) (c : Clockwork) : Prop :=
  c.stage.up = true → ∃ m ∈ c.times.started :: c.times.maintenances,
    Polled 3600000 length c.dial.nextMaintenance m c.times.round c.pastMaintenance

theorem Maintained.worker (h : c.Maintained length) (honTime : c.OnTime length)
    (hregular : c.Regular) {dial : Dial} (hturns : c.dial.Turns c.running c.clock dial) :
    Maintained length { c with
      dial := dial
      times := { c.times with
        round := if c.dial.phase = .head then c.clock else c.times.round
        maintenances :=
          if c.MaintenanceDue then c.times.maintenances ++ [c.dial.loopStart]
          else c.times.maintenances } } := by
  intro hup
  obtain ⟨m, hm, hpolled⟩ := h hup
  have hworking := Stage.working_of_up hup
  have honTime := (onTime_working (c := c) hworking).1 honTime
  have hloop := hregular.loopStart hworking
  rw [pastMaintenance] at hpolled
  simp only [pastMaintenance]
  cases hturns with
  | maintain hphase hle =>
      rw [if_pos ⟨hphase, hle⟩]
      have hloop := hloop (by rw [hphase]; rfl)
      refine ⟨c.dial.loopStart, by simp, ?_⟩
      simp only [hphase]
      apply Polled.start
      · simp
      · simp only [hloop, reduceCtorEq, if_false]
        omega
  | later hphase hlt =>
      have hloop := hloop (by rw [hphase]; rfl)
      rw [if_neg fun hdue => absurd hdue.2 (by omega)]
      refine ⟨m, hm, ?_⟩
      simp only [hphase] at hpolled ⊢
      simpa using Polled.skip (by simpa using hpolled) (by omega)
  | enter hphase hrunning =>
      have hnot : ¬ c.MaintenanceDue := fun hdue => by rw [hdue.1] at hphase; cases hphase
      rw [if_neg hnot]
      refine ⟨m, hm, ?_⟩
      simp only [hphase] at hpolled ⊢
      simpa using Polled.next (by simpa using hpolled) honTime
  | leave hphase hrunning =>
      rw [hregular.running hup] at hrunning
      cases hrunning
  | refresh hphase | flush hphase | flushed hphase | wake hphase | gone hphase =>
      have hnot : ¬ c.MaintenanceDue := fun hdue => by rw [hdue.1] at hphase; cases hphase
      rw [if_neg hnot]
      exact ⟨m, hm, by simpa [hphase] using hpolled⟩

theorem Maintained.tick (h : c.Maintained length) (honTime : c.OnTime length)
    (hregular : c.Regular) (ht : c.Ticks a c') : c'.Maintained length := by
  cases ht with
  | boot | booted | stopServer | down =>
      intro hup
      simp [Stage.up] at hup
  | swap hdue _ | refreshFails hdue =>
      intro hup
      obtain ⟨m, hm, hpolled⟩ := h hup
      refine ⟨m, hm, ?_⟩
      simpa [pastMaintenance, Clockwork.afterRefresh, hdue.2.1] using hpolled
  | startWorker hstage =>
      intro _
      refine ⟨_, List.mem_cons_self, ?_⟩
      apply Polled.start
      · exact le_rfl
      · simp only
        omega
  | startServer hstage => exact fun _ => h (by rw [hstage]; rfl)
  | worker hworking hdue hturns => exact h.worker honTime hregular hturns
  | _ => exact h

end Clockwork

/-! ## Of every run -/

variable {lib : Library} {s : Site} {db : CatalogDb} {clock : Int} {as : List SiteAct}
  {interval length : Nat}

theorem regular_run (hrun : Runs.exec (siteStep lib) (.init db clock) as = some s) :
    s.clockwork.Regular := by
  refine Runs.exec_invariant (I := fun s => s.clockwork.Regular) ?_ (regular_init db clock) hrun
  intro u a v hu huv
  exact hu.tick (siteStep_moves huv).ticks

/-- On time, the worker that is up has not been without a maintenance for longer than an
hour and two rounds. -/
theorem maintenance_punctual
    (halong : Runs.Along (siteStep lib) (fun s a => s.clockwork.Punctual length a)
      (.init db clock) as)
    (hrun : Runs.exec (siteStep lib) (.init db clock) as = some s) (hup : s.stage.up = true) :
    ∃ m ∈ s.times.started :: s.times.maintenances, s.clock ≤ m + 3600000 + 2 * length := by
  have hkept : s.clockwork.Regular ∧ s.clockwork.OnTime length ∧ s.clockwork.Maintained length := by
    refine Runs.exec_invariant_along (I := fun s => s.clockwork.Regular ∧
      s.clockwork.OnTime length ∧ s.clockwork.Maintained length) ?_ ?_ halong hrun
    · rintro u a v ⟨hregular, honTime, hmaintained⟩ hpunctual huv
      have hticks := (siteStep_moves huv).ticks
      exact ⟨hregular.tick hticks, honTime.tick hpunctual hticks,
        hmaintained.tick honTime hregular hticks⟩
    · refine ⟨regular_init db clock, by simp [Clockwork.OnTime, Clockwork.deadline,
        Site.clockwork, Site.init], fun hup => ?_⟩
      simp [Site.clockwork, Site.init, Stage.up] at hup
  obtain ⟨hregular, honTime, hmaintained⟩ := hkept
  obtain ⟨m, hm, hpolled⟩ := hmaintained hup
  have hclock := (Clockwork.onTime_working (Stage.working_of_up hup)).1 honTime
  exact ⟨m, hm, hpolled.age (by omega) hclock⟩

theorem maintenance_punctual_round :
    ∃ s, Runs.exec (siteStep .bare) (.init .migrated 0)
        (startUp {} ++ idleRound ++ [.elapse 1000, .worker {}]) = some s ∧
      ∃ m ∈ s.times.started :: s.times.maintenances, s.clock ≤ m + 3600000 + 2 * (1000 : Nat) := by
  have hrun : (Runs.exec (siteStep .bare) (.init .migrated 0)
      (startUp {} ++ idleRound ++ [.elapse 1000, .worker {}])).map (fun s => s.stage.up) =
        some true := by
    decide
  have halong : Runs.Along (siteStep .bare) (fun s a => s.clockwork.Punctual 1000 a)
      (.init .migrated 0) (startUp {} ++ idleRound ++ [.elapse 1000, .worker {}]) := by
    decide
  obtain ⟨s, hs, hup⟩ := Option.map_eq_some_iff.1 hrun
  exact ⟨s, hs, maintenance_punctual halong hs hup⟩

end SSize
