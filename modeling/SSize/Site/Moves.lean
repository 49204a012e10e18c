import SSize.Site.Process

/-!
# What one step of the process can do

`SiteMoves` lists the steps with the state each leads to, as `Moves` does for the
pipeline, and `siteStep_moves` says that the list is complete. Every step takes the HTTP
side and the worker through steps of `serverStep`, and the refresh and the writers
through steps of `refreshStep` (`SiteMoves.server`, `SiteMoves.refresher`).
-/

namespace SSize

open Lib Site

variable {lib : Library} {s t : Site} {a : SiteAct}

/-- `loop_start >= next_refresh` has been answered, and the loop goes on behind it. -/
def Server.pastRefresh (s : Server) : Server :=
  { s with pipeline := { s.pipeline with pc := .drainEvents } }

def Server.setCatalog (s : Server) (catalog : Catalog) : Server :=
  { s with catalog := ⟨s.catalog.serial + 1, catalog⟩ }

/-- The round had a refresh to do. -/
def Site.refreshed (s : Site) : Site :=
  { s with
    server := s.server.pastRefresh
    nextRefresh := s.server.pipeline.loopStart + s.server.cfg.refreshMs
    times := { s.times with refreshes := s.times.refreshes ++ [s.server.pipeline.loopStart] } }

inductive SiteMoves (lib : Library) (s : Site) : SiteAct → Site → Prop
  | elapse {d : Nat} : SiteMoves lib s (.elapse d) { s with clock := s.clock + d }
  | commit {tx : List WriterOp} {r : Refresher}
      (hcommit : refreshStep s.refresher (.commit tx) = some r) :
      SiteMoves lib s (.commit tx)
        { s with refresher := r, times := { s.times with lastCommit := s.clock } }
  | boot {cfg : Config} (hstage : s.stage = .down) :
      SiteMoves lib s (.boot cfg)
        { s with refresher := { s.refresher with pc := .start }, stage := .booting cfg }
  | bootFails {cfg : Config} (hstage : s.stage = .booting cfg) :
      SiteMoves lib s .selectFails
        { s with refresher := { s.refresher with pc := .start }, stage := .down }
  | read {r : Refresher} (hready : (∃ cfg, s.stage = .booting cfg) ∨ s.RefreshDue)
      (hmore : s.completes = none) (hselect : refreshStep s.refresher .select = some r) :
      SiteMoves lib s .select { s with
        refresher := r
        times := { s.times with
          asked := if s.refresher.pc = .start then s.clock else s.times.asked } }
  | booted {cfg : Config} {catalog : Catalog} {r : Refresher} (hstage : s.stage = .booting cfg)
      (hlast : s.completes = some catalog) (hselect : refreshStep s.refresher .select = some r) :
      SiteMoves lib s .select { s with
        refresher := r
        stage := .booted cfg catalog
        times := { s.times with stamp := s.times.asked } }
  | swap {catalog : Catalog} {r : Refresher} (hdue : s.RefreshDue)
      (hlast : s.completes = some catalog) (hselect : refreshStep s.refresher .select = some r) :
      SiteMoves lib s .select
        { s with
          refresher := r
          server := s.server.setCatalog catalog
          times := { s.times with stamp := s.times.asked } }.refreshed
  | refreshFails (hdue : s.RefreshDue) :
      SiteMoves lib s .selectFails
        { s with refresher := { s.refresher with pc := .start } }.refreshed
  | startWorker {cfg : Config} {catalog : Catalog} (hstage : s.stage = .booted cfg catalog) :
      SiteMoves lib s .startWorker { s with
        server := Server.setCatalog
          { cfg := cfg
            pipeline := .init cfg s.server.pipeline.db s.clock
            redirects := s.server.redirects } catalog
        stage := .started
        nextRefresh := s.clock
        times := { s.times with started := s.clock, round := s.clock, refreshes := [] } }
  | startServer (hstage : s.stage = .started) :
      SiteMoves lib s .startServer { s with stage := .serving }
  | request {amb : Ambient} {req : HttpRequest} {peer : Text} {server : Server}
      (hstage : s.stage = .serving)
      (hstep : serverStep lib s.server (.request amb req peer) = some server) :
      SiteMoves lib s (.request amb req peer) { s with server := server }
  | push {server : Server} (hstage : s.stage = .serving)
      (hstep : serverStep lib s.server .push = some server) :
      SiteMoves lib s .push { s with server := server }
  | stopServer {a : SiteAct} {server : Server} (hstage : s.stage.up = true)
      (hstep : serverStep lib s.server .stopServer = some server) :
      SiteMoves lib s a { s with server := server, stage := .stopping }
  | stopWorker {server : Server} (hstage : s.stage = .stopping)
      (hstep : serverStep lib s.server .stopWorker = some server) :
      SiteMoves lib s .stopWorker { s with server := server }
  | worker {env : Env} {server : Server} (hworking : s.stage.working = true)
      (hdue : ¬ s.RefreshDue) (hwake : s.server.pipeline.pc = .sleep → s.wake ≤ s.clock)
      (hstep : serverStep lib s.server (.worker { env with steady := s.clock }) = some server) :
      SiteMoves lib s (.worker env) { s with
        server := server
        wake :=
          if server.pipeline.pc = .sleep then s.clock + s.server.cfg.eventFlushInterval
          else s.wake
        times := { s.times with
          round := if s.server.pipeline.pc = .loopHead then s.clock else s.times.round
          maintenances :=
            if (s.server.pipeline.maintaining (.worker env)).isSome then
              s.times.maintenances ++ [s.server.pipeline.loopStart]
            else s.times.maintenances } }
  | down {a : SiteAct} : SiteMoves lib s a { s with stage := .down }

theorem Stage.working_of_up {stage : Stage} (h : stage.up = true) : stage.working = true := by
  cases stage with
  | started | serving => rfl
  | down | booting | booted | stopping => exact absurd h (by simp [Stage.up])

theorem Site.abandon_eq : s.abandon = some { s with refresher := { s.refresher with pc := .start } } :=
  rfl

theorem Server.pastRefresh_eq {s : Server} (hpc : s.pipeline.pc = .refresh) :
    serverStep lib s (.worker {}) = some s.pastRefresh := by
  simp only [serverStep, Server.pipelineStep, step, workerStep, hpc, Option.map_some]
  rfl

theorem Site.RefreshDue.endRefresh (hdue : s.RefreshDue) : s.endRefresh lib = some s.refreshed := by
  rw [Site.endRefresh, Server.pastRefresh_eq hdue.2.1]
  rfl

theorem select_moves (h : siteStep lib s .select = some t) : SiteMoves lib s .select t := by
  rw [siteStep] at h
  split at h
  · next cfg hstage =>
      obtain ⟨u, hu, ht⟩ := Option.map_eq_some_iff.1 h
      obtain ⟨r, hselect, rfl⟩ := Option.map_eq_some_iff.1 hu
      split at ht
      · next catalog hlast =>
          subst ht
          have hpc : s.refresher.pc ≠ .start := by
            intro hpc
            simp [completes, hpc] at hlast
          rw [if_neg hpc]
          exact .booted hstage hlast hselect
      · next hmore =>
          subst ht
          exact .read (Or.inl ⟨cfg, hstage⟩) hmore hselect
  · split at h
    · next hdue =>
        split at h
        · next catalog hlast =>
            obtain ⟨u, hu, h⟩ := Option.bind_eq_some_iff.1 h
            obtain ⟨r, hselect, rfl⟩ := Option.map_eq_some_iff.1 hu
            obtain ⟨server, hserver, h⟩ := Option.bind_eq_some_iff.1 h
            cases hserver
            have hpc : s.refresher.pc ≠ .start := by
              intro hpc
              simp [completes, hpc] at hlast
            rw [if_neg hpc] at h
            rw [RefreshDue.endRefresh (by exact hdue), Option.some.injEq] at h
            subst h
            exact .swap hdue hlast hselect
        · next hmore =>
            obtain ⟨r, hselect, rfl⟩ := Option.map_eq_some_iff.1 h
            exact .read (Or.inr hdue) hmore hselect
    · simp at h

theorem siteStep_moves (h : siteStep lib s a = some t) : SiteMoves lib s a t := by
  cases a with
  | elapse d =>
      cases h
      exact .elapse
  | commit tx =>
      obtain ⟨r, hcommit, rfl⟩ := Option.map_eq_some_iff.1 h
      exact .commit hcommit
  | boot cfg =>
      rw [siteStep] at h
      split at h
      · next hstage =>
          cases h
          exact .boot hstage
      · simp at h
  | select => exact select_moves h
  | selectFails =>
      rw [siteStep] at h
      split at h
      · next cfg hstage =>
          cases h
          exact .bootFails hstage
      · split at h
        · next hdue =>
            rw [abandon_eq, Option.bind_some, RefreshDue.endRefresh (by exact hdue)] at h
            cases h
            exact .refreshFails hdue
        · simp at h
  | startWorker =>
      rw [siteStep] at h
      split at h
      · next cfg catalog hstage =>
          cases h
          exact .startWorker hstage
      · simp at h
  | startServer =>
      rw [siteStep] at h
      split at h
      · next hstage =>
          cases h
          exact .startServer hstage
      · simp at h
  | serverThrows =>
      rw [siteStep] at h
      split at h
      · next hstage =>
          obtain ⟨server, hstep, rfl⟩ := Option.map_eq_some_iff.1 h
          exact .stopServer (by rw [hstage]; rfl) hstep
      · simp at h
  | request amb req peer =>
      rw [siteStep] at h
      split at h
      · next hstage =>
          obtain ⟨server, hstep, rfl⟩ := Option.map_eq_some_iff.1 h
          exact .request hstage hstep
      · simp at h
  | push =>
      rw [siteStep] at h
      split at h
      · next hstage =>
          obtain ⟨server, hstep, rfl⟩ := Option.map_eq_some_iff.1 h
          exact .push hstage hstep
      · simp at h
  | stopServer =>
      rw [siteStep] at h
      split at h
      · next hstage =>
          obtain ⟨server, hstep, rfl⟩ := Option.map_eq_some_iff.1 h
          exact .stopServer (by rw [hstage]; rfl) hstep
      · simp at h
  | stopWorker =>
      rw [siteStep] at h
      split at h
      · next hstage =>
          obtain ⟨server, hstep, rfl⟩ := Option.map_eq_some_iff.1 h
          exact .stopWorker hstage hstep
      · simp at h
  | worker env =>
      rw [siteStep] at h
      split at h
      · simp at h
      · next hready =>
          obtain ⟨server, hstep, rfl⟩ := Option.map_eq_some_iff.1 h
          push Not at hready
          obtain ⟨hworking, hdue, hwake⟩ := hready
          exact .worker (by simpa using hworking) hdue hwake hstep
  | exit =>
      rw [siteStep] at h
      split at h
      · split at h
        · cases h
          exact .down
        · simp at h
      · simp at h
  | kill =>
      cases h
      exact .down

/-! ## The two sides of a step -/

/-- The process takes the server of `Server.Run` through its steps. -/
theorem SiteMoves.server (hm : SiteMoves lib s a t) :
    ∃ as, Runs.exec (serverStep lib) s.server as = some t.server := by
  cases hm with
  | elapse | commit | boot | bootFails | read | booted | startServer | down =>
      exact ⟨[], rfl⟩
  | @swap catalog r hdue hlast hselect =>
      refine ⟨[.setCatalog catalog, .worker {}], ?_⟩
      have hpast : serverStep lib (s.server.setCatalog catalog) (.worker {}) =
          some (s.server.setCatalog catalog).pastRefresh := Server.pastRefresh_eq hdue.2.1
      exact Runs.exec_cons_eq_some.2 ⟨_, rfl, Runs.exec_cons_eq_some.2 ⟨_, hpast, rfl⟩⟩
  | refreshFails hdue =>
      have hpast : serverStep lib s.server (.worker {}) = some s.server.pastRefresh :=
        Server.pastRefresh_eq hdue.2.1
      exact ⟨[.worker {}], Runs.exec_cons_eq_some.2 ⟨_, hpast, rfl⟩⟩
  | @startWorker cfg catalog hstage => exact ⟨[.restart cfg s.clock, .setCatalog catalog], rfl⟩
  | request _ hstep | push _ hstep | stopServer _ hstep | stopWorker _ hstep
  | worker _ _ _ hstep =>
      exact ⟨[_], Runs.exec_cons_eq_some.2 ⟨_, hstep, rfl⟩⟩

/-- It takes the refresh and the writers of `Catalog.Refresh` through theirs. -/
theorem SiteMoves.refresher (hm : SiteMoves lib s a t) :
    t.refresher = s.refresher ∨ ∃ b, refreshStep s.refresher b = some t.refresher := by
  cases hm with
  | elapse | startWorker | startServer | request | push | stopServer | stopWorker | worker
  | down => exact Or.inl rfl
  | commit hcommit => exact Or.inr ⟨_, hcommit⟩
  | boot | bootFails | refreshFails => exact Or.inr ⟨.fail, rfl⟩
  | read _ _ hselect | booted _ _ hselect | swap _ _ hselect => exact Or.inr ⟨_, hselect⟩

end SSize
