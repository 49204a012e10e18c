import SSize.Server.Calm
import SSize.Site.Moves
import SSize.Worker.Rounds

/-!
# The clockwork of the process

The stages of `main`, the dial of the worker and the times, with everything else left out.
`Clockwork.Ticks` is what can happen to them, and `SiteMoves.ticks` says that the process
goes like this. `Clockwork.Regular` is what every run keeps, however long anything takes.
-/

namespace SSize

open Lib Site

structure Clockwork where
  stage : Stage
  dial : Dial
  running : Bool
  /-- A refresh is between its first and its last `SELECT`. -/
  reading : Bool
  clock : Int
  nextRefresh : Int
  interval : Int
  times : Times

namespace Clockwork

def Due (c : Clockwork) : Prop :=
  c.stage.working = true ∧ c.dial.phase = .refresh ∧ c.nextRefresh ≤ c.dial.loopStart

/-- The loop is at a maintenance that it will not leave out. -/
def MaintenanceDue (c : Clockwork) : Prop :=
  c.dial.phase = .maintenance ∧ c.dial.nextMaintenance ≤ c.dial.loopStart

instance (c : Clockwork) : Decidable c.MaintenanceDue := inferInstanceAs (Decidable (_ ∧ _))

/-- The loop goes on behind a refresh. -/
def afterRefresh (c : Clockwork) : Clockwork :=
  { c with
    dial := { c.dial with phase := .flush }
    reading := false
    nextRefresh := c.dial.loopStart + c.interval
    times := { c.times with refreshes := c.times.refreshes ++ [c.dial.loopStart] } }

inductive Ticks (c : Clockwork) : SiteAct → Clockwork → Prop
  | elapse {d : Nat} : Ticks c (.elapse d) { c with clock := c.clock + d }
  | commit {tx : List WriterOp} :
      Ticks c (.commit tx) { c with times := { c.times with lastCommit := c.clock } }
  | boot {cfg : Config} (hstage : c.stage = .down) :
      Ticks c (.boot cfg) { c with stage := .booting cfg, reading := false }
  | ask {a : SiteAct} (hready : (∃ cfg, c.stage = .booting cfg) ∨ c.Due)
      (hreading : c.reading = false) :
      Ticks c a { c with reading := true, times := { c.times with asked := c.clock } }
  | booted {a : SiteAct} {cfg : Config} {catalog : Catalog} (hstage : c.stage = .booting cfg)
      (hreading : c.reading = true) :
      Ticks c a { c with
        stage := .booted cfg catalog
        reading := false
        times := { c.times with stamp := c.times.asked } }
  | swap {a : SiteAct} (hdue : c.Due) (hreading : c.reading = true) :
      Ticks c a { c with times := { c.times with stamp := c.times.asked } }.afterRefresh
  | refreshFails (hdue : c.Due) : Ticks c .selectFails c.afterRefresh
  | startWorker {a : SiteAct} {cfg : Config} {catalog : Catalog}
      (hstage : c.stage = .booted cfg catalog) :
      Ticks c a { c with
        stage := .started
        dial := ⟨.head, 0, c.clock + 3600000⟩
        running := true
        nextRefresh := c.clock
        interval := cfg.refreshMs
        times := { c.times with started := c.clock, round := c.clock, refreshes := [] } }
  | startServer {a : SiteAct} (hstage : c.stage = .started) :
      Ticks c a { c with stage := .serving }
  | stay {a : SiteAct} : Ticks c a c
  | stopServer {a : SiteAct} (hstage : c.stage.up = true) : Ticks c a { c with stage := .stopping }
  | stopWorker {a : SiteAct} (hstage : c.stage = .stopping) : Ticks c a { c with running := false }
  | worker {a : SiteAct} {dial : Dial} (hworking : c.stage.working = true) (hdue : ¬ c.Due)
      (hturns : c.dial.Turns c.running c.clock dial) :
      Ticks c a { c with
        dial := dial
        times := { c.times with
          round := if c.dial.phase = .head then c.clock else c.times.round
          maintenances :=
            if c.MaintenanceDue then c.times.maintenances ++ [c.dial.loopStart]
            else c.times.maintenances } }
  | down {a : SiteAct} {reading : Bool} : Ticks c a { c with stage := .down, reading := reading }

end Clockwork

def Site.clockwork (s : Site) : Clockwork where
  stage := s.stage
  dial := s.server.pipeline.dial
  running := s.server.pipeline.running
  reading := decide (s.refresher.pc ≠ .start)
  clock := s.clock
  nextRefresh := s.nextRefresh
  interval := s.server.cfg.refreshMs
  times := s.times

/-! ## The process goes like this -/

variable {lib : Library} {s t : Site} {a : SiteAct}

/-- The loop stands where it stood. -/
structure Server.SameLoop (s t : Server) : Prop where
  cfg : t.cfg = s.cfg
  dial : t.pipeline.dial = s.pipeline.dial
  running : t.pipeline.running = s.pipeline.running

theorem serverStep_request {s t : Server} {amb : Ambient} {req : HttpRequest} {peer : Text}
    (h : serverStep lib s (.request amb req peer) = some t) : s.SameLoop t := by
  rw [serverStep, Option.ite_none_right_eq_some] at h
  obtain ⟨-, h⟩ := h
  cases h
  exact ⟨rfl, rfl, rfl⟩

theorem serverStep_push {s t : Server} (h : serverStep lib s .push = some t) : s.SameLoop t := by
  rw [serverStep] at h
  split at h
  · simp at h
  · next effect rest htodo =>
      obtain ⟨p, hp, rfl⟩ := pipelineStep_eq_some.1 h
      have hm := step_moves _ _ hp
      refine ⟨rfl, hm.dial_eq (by cases effect <;> simp [Effect.act]), ?_⟩
      cases effect <;> cases hm <;> rfl

theorem serverStep_stopServer {s t : Server} (h : serverStep lib s .stopServer = some t) :
    s.SameLoop t := by
  rw [serverStep, Option.ite_none_right_eq_some] at h
  obtain ⟨p, hp, rfl⟩ := pipelineStep_eq_some.1 h.2
  cases hp
  exact ⟨rfl, rfl, rfl⟩

theorem serverStep_stopWorker {s t : Server} (h : serverStep lib s .stopWorker = some t) :
    t.cfg = s.cfg ∧ t.pipeline.dial = s.pipeline.dial ∧ t.pipeline.running = false := by
  obtain ⟨p, hp, rfl⟩ := pipelineStep_eq_some.1 h
  rw [step, Option.ite_none_left_eq_some] at hp
  obtain ⟨-, hp⟩ := hp
  cases hp
  exact ⟨rfl, rfl, rfl⟩

theorem serverStep_worker {s t : Server} {env : Env}
    (h : serverStep lib s (.worker env) = some t) :
    t.cfg = s.cfg ∧ s.pipeline.dial.Turns s.pipeline.running env.steady t.pipeline.dial ∧
      t.pipeline.running = s.pipeline.running := by
  obtain ⟨p, hp, rfl⟩ := pipelineStep_eq_some.1 h
  have hm := step_moves _ _ hp
  exact ⟨rfl, hm.turns, hm.running_worker⟩

theorem due_clockwork : s.clockwork.Due ↔ s.RefreshDue := by
  rw [Clockwork.Due, RefreshDue, ← Pc.phase_eq_refresh]
  rfl

theorem head_clockwork : s.clockwork.dial.phase = .head ↔ s.server.pipeline.pc = .loopHead :=
  Pc.phase_eq_head

theorem maintenanceDue_clockwork (env : Env) :
    s.clockwork.MaintenanceDue ↔ (s.server.pipeline.maintaining (.worker env)).isSome = true := by
  rw [Pipeline.maintaining, Clockwork.MaintenanceDue]
  split
  · next h => exact ⟨fun _ => rfl, fun _ => ⟨Pc.phase_eq_maintenance.2 h.1, h.2⟩⟩
  · next h =>
      constructor
      · exact fun hdue => absurd ⟨Pc.phase_eq_maintenance.1 hdue.1, hdue.2⟩ h
      · simp

/-- A refresh that is at its last `SELECT` or past the first. -/
theorem select_reading {r : Refresher} (hselect : refreshStep s.refresher .select = some r) :
    (s.completes = none → r.pc ≠ .start) ∧
      (∀ catalog, s.completes = some catalog → s.refresher.pc ≠ .start ∧ r.pc = .start) := by
  rw [refreshStep] at hselect
  split at hselect
  all_goals
    next hpc =>
      cases hselect
      simp [completes, hpc]

theorem SiteMoves.ticks (hm : SiteMoves lib s a t) : s.clockwork.Ticks a t.clockwork := by
  cases hm with
  | elapse => exact .elapse
  | @commit tx r hcommit =>
      have hpc : r.pc = s.refresher.pc := by
        rw [refreshStep] at hcommit
        split at hcommit <;> cases hcommit <;> rfl
      have hticks : s.clockwork.Ticks (.commit tx) _ := .commit
      simpa [Site.clockwork, hpc] using hticks
  | @boot cfg hstage =>
      have hticks : s.clockwork.Ticks (.boot cfg) _ := .boot hstage
      simpa [Site.clockwork] using hticks
  | bootFails hstage => exact .down
  | read hready hmore hselect =>
      have hreading := (select_reading hselect).1 hmore
      by_cases hpc : s.refresher.pc = .start
      · have hready' : (∃ cfg, s.clockwork.stage = .booting cfg) ∨ s.clockwork.Due := by
          rwa [due_clockwork]
        have hticks : s.clockwork.Ticks .select _ :=
          .ask hready' (by simp [Site.clockwork, hpc])
        simpa [Site.clockwork, hpc, hreading] using hticks
      · have hticks : s.clockwork.Ticks .select _ := .stay
        simpa [Site.clockwork, hpc, hreading] using hticks
  | @booted cfg catalog r hstage hlast hselect =>
      obtain ⟨hpc, hdone⟩ := (select_reading hselect).2 catalog hlast
      have hticks : s.clockwork.Ticks .select { s.clockwork with
          stage := .booted cfg catalog
          reading := false
          times := { s.clockwork.times with stamp := s.clockwork.times.asked } } :=
        .booted hstage (by simp [Site.clockwork, hpc])
      simpa [Site.clockwork, hdone] using hticks
  | @swap catalog r hdue hlast hselect =>
      obtain ⟨hpc, hdone⟩ := (select_reading hselect).2 catalog hlast
      have hticks : s.clockwork.Ticks .select _ :=
        .swap (due_clockwork.2 hdue) (by simp [Site.clockwork, hpc])
      simpa [Site.clockwork, Site.refreshed, Server.pastRefresh, Server.setCatalog,
        Clockwork.afterRefresh, Pipeline.dial, Pc.phase, hdone] using hticks
  | refreshFails hdue =>
      have hticks := Clockwork.Ticks.refreshFails (due_clockwork.2 hdue)
      simpa [Site.clockwork, Site.refreshed, Server.pastRefresh, Clockwork.afterRefresh,
        Pipeline.dial, Pc.phase] using hticks
  | startWorker hstage =>
      have hticks := Clockwork.Ticks.startWorker (c := s.clockwork) (a := .startWorker) hstage
      exact hticks
  | startServer hstage => exact .startServer hstage
  | request hstage hstep =>
      have hsame := serverStep_request hstep
      simpa only [Site.clockwork, hsame.cfg, hsame.dial, hsame.running] using
        Clockwork.Ticks.stay (c := s.clockwork)
  | push hstage hstep =>
      have hsame := serverStep_push hstep
      simpa only [Site.clockwork, hsame.cfg, hsame.dial, hsame.running] using
        Clockwork.Ticks.stay (c := s.clockwork)
  | stopServer hstage hstep =>
      have hsame := serverStep_stopServer hstep
      simpa only [Site.clockwork, hsame.cfg, hsame.dial, hsame.running] using
        Clockwork.Ticks.stopServer (c := s.clockwork) hstage
  | stopWorker hstage hstep =>
      obtain ⟨hcfg, hdial, hrunning⟩ := serverStep_stopWorker hstep
      have hticks := Clockwork.Ticks.stopWorker (c := s.clockwork) (a := .stopWorker) hstage
      simpa [Site.clockwork, hcfg, hdial, hrunning] using hticks
  | @worker env server hworking hdue hwake hstep =>
      obtain ⟨hcfg, hturns, hrunning⟩ := serverStep_worker hstep
      have hticks := Clockwork.Ticks.worker (c := s.clockwork) (a := .worker env) hworking
        (fun h => hdue (due_clockwork.1 h)) hturns
      simp only [maintenanceDue_clockwork env, head_clockwork] at hticks
      simpa only [Site.clockwork, Pipeline.dial, hcfg, hrunning] using hticks
  | down => exact .down

/-! ## What every run keeps -/

/-- `loop_start` is that of the round. -/
def Phase.timed : Phase → Bool
  | .refresh | .flush | .maintenance | .sleep => true
  | .head | .leaving => false

namespace Clockwork

structure Regular (c : Clockwork) : Prop where
  round_le : c.times.round ≤ c.clock
  started_le : c.times.started ≤ c.times.round
  asked_le : c.times.asked ≤ c.clock
  stamp_le : c.times.stamp ≤ c.clock
  loopStart : c.stage.working = true → c.dial.phase.timed = true →
    c.dial.loopStart = c.times.round
  running : c.stage.up = true → c.running = true
  leaving : c.stage.working = true → c.dial.phase = .leaving → c.running = false
  /-- A refresh that is running began in this round. -/
  reading : c.stage.working = true → c.reading = true → c.Due ∧ c.times.round ≤ c.times.asked
  idle : ∀ cfg catalog, c.stage = .booted cfg catalog → c.reading = false

variable {c c' : Clockwork} {a : SiteAct}

theorem Regular.up_phase (h : c.Regular) (hup : c.stage.up = true) : c.dial.phase ≠ .leaving := by
  intro hphase
  have hrunning := h.leaving (Stage.working_of_up hup) hphase
  rw [h.running hup] at hrunning
  cases hrunning

theorem Regular.due_round (h : c.Regular) (hdue : c.Due) : c.dial.loopStart = c.times.round :=
  h.loopStart hdue.1 (by rw [hdue.2.1]; rfl)

/-- The dial in one step of the loop. -/
theorem Regular.worker (h : c.Regular) {dial : Dial} (hworking : c.stage.working = true)
    (hdue : ¬ c.Due) (hturns : c.dial.Turns c.running c.clock dial) {maintenances : List Int} :
    Regular { c with
      dial := dial
      times := { c.times with
        round := if c.dial.phase = .head then c.clock else c.times.round
        maintenances := maintenances } } := by
  have hidle : c.reading = true → False := fun hreading => hdue (h.reading hworking hreading).1
  have hloop := h.loopStart hworking
  have hround := h.round_le
  have hstarted := h.started_le
  cases hturns with
  | enter hphase hrunning =>
      refine ⟨?_, ?_, h.asked_le, h.stamp_le, ?_, h.running, ?_, ?_, h.idle⟩
      · simp [hphase]
      · simp only [hphase, if_true]
        omega
      · simp [hphase]
      · simp
      · exact fun _ hreading => absurd hreading hidle
  | leave hphase hrunning =>
      refine ⟨?_, ?_, h.asked_le, h.stamp_le, ?_, h.running, ?_, ?_, h.idle⟩
      · simp [hphase]
      · simp only [hphase, if_true]
        omega
      · simp [Phase.timed]
      · exact fun _ _ => hrunning
      · exact fun _ hreading => absurd hreading hidle
  | refresh hphase | flushed hphase | maintain hphase _ | later hphase _ =>
      have hsame : c.dial.phase ≠ .head := by rw [hphase]; simp
      rw [hphase] at hloop
      simp only [if_neg hsame]
      refine ⟨hround, hstarted, h.asked_le, h.stamp_le, fun _ _ => hloop rfl, h.running, ?_, ?_,
        h.idle⟩
      · simp
      · exact fun _ hreading => absurd hreading hidle
  | flush hphase =>
      have hsame : c.dial.phase ≠ .head := by rw [hphase]; simp
      simp only [if_neg hsame]
      exact ⟨hround, hstarted, h.asked_le, h.stamp_le, h.loopStart, h.running, h.leaving,
        fun _ hreading => absurd hreading hidle, h.idle⟩
  | wake hphase =>
      have hsame : c.dial.phase ≠ .head := by rw [hphase]; simp
      simp only [if_neg hsame]
      refine ⟨hround, hstarted, h.asked_le, h.stamp_le, ?_, h.running, ?_, ?_, h.idle⟩
      · simp [Phase.timed]
      · simp
      · exact fun _ hreading => absurd hreading hidle
  | gone hphase =>
      have hsame : c.dial.phase ≠ .head := by rw [hphase]; simp
      simp only [if_neg hsame]
      exact ⟨hround, hstarted, h.asked_le, h.stamp_le, h.loopStart, h.running, h.leaving,
        fun _ hreading => absurd hreading hidle, h.idle⟩

/-- The loop behind a refresh. -/
theorem Regular.afterRefresh (h : c.Regular) (hdue : c.Due) {stamp : Int} (hstamp : stamp ≤ c.clock) :
    Regular (Clockwork.afterRefresh { c with times := { c.times with stamp := stamp } }) where
  round_le := h.round_le
  started_le := h.started_le
  asked_le := h.asked_le
  stamp_le := hstamp
  loopStart _ _ := h.due_round hdue
  running := h.running
  leaving _ hphase := by simp [Clockwork.afterRefresh] at hphase
  reading _ hreading := by simp [Clockwork.afterRefresh] at hreading
  idle cfg catalog _ := rfl

theorem Regular.tick (h : c.Regular) (ht : c.Ticks a c') : c'.Regular := by
  have hround := h.round_le
  have hasked := h.asked_le
  have hstamp := h.stamp_le
  cases ht with
  | @elapse d =>
      refine ⟨?_, h.started_le, ?_, ?_, h.loopStart, h.running, h.leaving, h.reading, h.idle⟩
      all_goals simp only; omega
  | commit =>
      exact ⟨hround, h.started_le, hasked, hstamp, h.loopStart, h.running, h.leaving, h.reading,
        h.idle⟩
  | boot hstage =>
      exact ⟨hround, h.started_le, hasked, hstamp, by simp [Stage.working], by simp [Stage.up],
        by simp [Stage.working], by simp [Stage.working], by simp⟩
  | ask hready hreading =>
      refine ⟨hround, h.started_le, le_rfl, hstamp, h.loopStart, h.running, h.leaving, ?_, ?_⟩
      · intro hworking _
        rcases hready with ⟨cfg, hstage⟩ | hdue
        · rw [show c.stage = _ from hstage] at hworking
          cases hworking
        · exact ⟨hdue, hround⟩
      · intro cfg catalog hbooted
        rcases hready with ⟨cfg', hstage⟩ | hdue
        · rw [show c.stage = _ from hbooted] at hstage
          cases hstage
        · have hworking := hdue.1
          rw [show c.stage = _ from hbooted] at hworking
          cases hworking
  | booted hstage hreading =>
      exact ⟨hround, h.started_le, hasked, hasked, by simp [Stage.working], by simp [Stage.up],
        by simp [Stage.working], by simp [Stage.working], by simp⟩
  | swap hdue hreading => exact h.afterRefresh hdue hasked
  | refreshFails hdue => exact h.afterRefresh hdue hstamp
  | startWorker hstage =>
      refine ⟨le_rfl, le_rfl, hasked, hstamp, ?_, fun _ => rfl, ?_, ?_, ?_⟩
      · simp [Phase.timed]
      · simp
      · intro _ hreading
        rw [h.idle _ _ hstage] at hreading
        cases hreading
      · simp
  | startServer hstage =>
      have hworking : c.stage.working = true := by rw [hstage]; rfl
      have hup : c.stage.up = true := by rw [hstage]; rfl
      exact ⟨hround, h.started_le, hasked, hstamp, fun _ => h.loopStart hworking,
        fun _ => h.running hup, fun _ => h.leaving hworking,
        fun _ hreading => ⟨⟨rfl, (h.reading hworking hreading).1.2⟩,
          (h.reading hworking hreading).2⟩, by simp⟩
  | stay => exact h
  | stopServer hstage =>
      have hworking := Stage.working_of_up hstage
      exact ⟨hround, h.started_le, hasked, hstamp, fun _ => h.loopStart hworking,
        by simp [Stage.up], fun _ => h.leaving hworking,
        fun _ hreading => ⟨⟨rfl, (h.reading hworking hreading).1.2⟩,
          (h.reading hworking hreading).2⟩, by simp⟩
  | stopWorker hstage =>
      refine ⟨hround, h.started_le, hasked, hstamp, h.loopStart, ?_, fun _ _ => rfl, h.reading,
        h.idle⟩
      intro hup
      rw [show c.stage = _ from hstage] at hup
      cases hup
  | worker hworking hdue hturns => exact h.worker hworking hdue hturns
  | down =>
      exact ⟨hround, h.started_le, hasked, hstamp, by simp [Stage.working], by simp [Stage.up],
        by simp [Stage.working], by simp [Stage.working], by simp⟩

end Clockwork

theorem regular_init (db : CatalogDb) (clock : Int) :
    (Site.init db clock).clockwork.Regular where
  round_le := le_refl clock
  started_le := le_refl clock
  asked_le := le_refl clock
  stamp_le := le_refl clock
  loopStart h := by simp [Site.clockwork, Site.init, Stage.working] at h
  running h := by simp [Site.clockwork, Site.init, Stage.up] at h
  leaving h := by simp [Site.clockwork, Site.init, Stage.working] at h
  reading h := by simp [Site.clockwork, Site.init, Stage.working] at h
  idle cfg catalog h := by simp [Site.clockwork, Site.init] at h

end SSize
