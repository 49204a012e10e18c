import SSize.Catalog.Refresh
import SSize.Server.Run
import SSize.Worker.Flow

/-!
# The process with its clock (`main.cpp`, `db_worker.cpp`)

The stages of `main`, the worker with its timers and the six `SELECT`s of a refresh, in
one system with the transactions of `ssize-admin`. The HTTP thread, the queues and the
metrics tables are those of `Server.Run`, the refresh and the catalog tables those of
`Catalog.Refresh`; what is new here is when their steps can be taken.

Times are readings of the steady clock in milliseconds, and time passes at `elapse` only.
`kill` is any end of the process that `main` has no part in.
-/

namespace SSize

inductive Stage where
  /-- No process runs. -/
  | down
  /-- `refresh_now`, before there is any thread. -/
  | booting (cfg : Config)
  /-- The first snapshot is in the handle. -/
  | booted (cfg : Config) (catalog : Catalog)
  /-- The worker runs, and `HttpServer` is made. -/
  | started
  | serving
  /-- The HTTP thread is joined, the worker is not yet. -/
  | stopping

/-- The worker has its thread. -/
def Stage.working : Stage → Bool
  | .started | .serving | .stopping => true
  | .down | .booting _ | .booted _ _ => false

/-- The worker runs, and nobody has asked it to stop. -/
def Stage.up : Stage → Bool
  | .started | .serving => true
  | .down | .booting _ | .booted _ _ | .stopping => false

/-- When things happened. Only the proofs read it, no step does. -/
structure Times where
  /-- The worker of the last process. -/
  started : Int
  /-- The last round of its loop. -/
  round : Int
  /-- The first `SELECT` of the last refresh, and of the one that made the snapshot. -/
  asked : Int
  stamp : Int
  lastCommit : Int
  /-- The rounds of this process that had a refresh to do. -/
  refreshes : List Int := []
  /-- The rounds of all processes that had a maintenance to do. -/
  maintenances : List Int := []

structure Site where
  server : Server
  refresher : Refresher
  stage : Stage := .down
  clock : Int
  nextRefresh : Int
  /-- When `sleep_for` may return. -/
  wake : Int
  times : Times

/-- Before the first process, with the catalog tables `db`. -/
def Site.init (db : CatalogDb) (clock : Int) : Site where
  server := .init {} clock
  refresher := .init db
  clock := clock
  nextRefresh := clock
  wake := clock
  times := ⟨clock, clock, clock, clock, clock, [], []⟩

inductive SiteAct where
  | elapse (d : Nat)
  | commit (tx : List WriterOp)
  | boot (cfg : Config)
  /-- One `SELECT` of the refresh that is running. -/
  | select
  | selectFails
  | startWorker
  | startServer
  /-- The constructor of `HttpServer` throws. -/
  | serverThrows
  | request (amb : Ambient) (req : HttpRequest) (peer : Text)
  | push
  | stopServer
  | stopWorker
  /-- A step of the worker outside the refresh. -/
  | worker (env : Env)
  | exit
  | kill

/-- The interval in the unit of the clock. -/
def Config.refreshMs (cfg : Config) : Int := cfg.refreshInterval * 1000

namespace Site

/-- `loop_start >= next_refresh`, at the top of the loop. -/
def RefreshDue (s : Site) : Prop :=
  s.stage.working = true ∧ s.server.pipeline.pc = .refresh ∧
    s.server.pipeline.loopStart ≥ s.nextRefresh

instance (s : Site) : Decidable s.RefreshDue := inferInstanceAs (Decidable (_ ∧ _))

/-- What the next `SELECT` completes, if it is the last. -/
def completes (s : Site) : Option Catalog :=
  match s.refresher.pc with
  | .partners items => some (.ofRows items s.refresher.db.listPartners)
  | _ => none

/-- The state after one `SELECT`, but for what becomes of its result. -/
def afterSelect (s : Site) : Option Site :=
  (refreshStep s.refresher .select).map fun r =>
    { s with
      refresher := r
      times := { s.times with
        asked := if s.refresher.pc = .start then s.clock else s.times.asked } }

/-- The local vectors of a refresh are gone. -/
def abandon (s : Site) : Option Site :=
  (refreshStep s.refresher .fail).map fun r => { s with refresher := r }

/-- The loop goes on behind the refresh, done or failed. -/
def endRefresh (lib : Library) (s : Site) : Option Site :=
  (serverStep lib s.server (.worker {})).map fun server =>
    { s with
      server := server
      nextRefresh := s.server.pipeline.loopStart + s.server.cfg.refreshMs
      times := { s.times with
        refreshes := s.times.refreshes ++ [s.server.pipeline.loopStart] } }

end Site

open Site

def siteStep (lib : Library) (s : Site) : SiteAct → Option Site
  | .elapse d => some { s with clock := s.clock + d }
  | .commit tx =>
      (refreshStep s.refresher (.commit tx)).map fun r =>
        { s with refresher := r, times := { s.times with lastCommit := s.clock } }
  | .boot cfg =>
      match s.stage with
      | .down => s.abandon.map fun s => { s with stage := .booting cfg }
      | _ => none
  | .select =>
      match s.stage with
      | .booting cfg =>
          s.afterSelect.map fun t =>
            match s.completes with
            | some catalog =>
                { t with
                  stage := .booted cfg catalog
                  times := { t.times with stamp := s.times.asked } }
            | none => t
      | _ =>
          if s.RefreshDue then
            match s.completes with
            | some catalog => do
                let t ← s.afterSelect
                let server ← serverStep lib s.server (.setCatalog catalog)
                { t with
                  server := server
                  times := { t.times with stamp := s.times.asked } }.endRefresh lib
            | none => s.afterSelect
          else none
  | .selectFails =>
      match s.stage with
      | .booting _ => s.abandon.map fun s => { s with stage := .down }
      | _ => if s.RefreshDue then s.abandon.bind (endRefresh lib) else none
  | .startWorker =>
      match s.stage with
      | .booted cfg catalog => do
          let server ← serverStep lib s.server (.restart cfg s.clock)
          let server ← serverStep lib server (.setCatalog catalog)
          some { s with
            server := server
            stage := .started
            nextRefresh := s.clock
            times := { s.times with started := s.clock, round := s.clock, refreshes := [] } }
      | _ => none
  | .startServer =>
      match s.stage with
      | .started => some { s with stage := .serving }
      | _ => none
  | .serverThrows =>
      match s.stage with
      | .started =>
          (serverStep lib s.server .stopServer).map fun server =>
            { s with server := server, stage := .stopping }
      | _ => none
  | .request amb req peer =>
      match s.stage with
      | .serving =>
          (serverStep lib s.server (.request amb req peer)).map fun server =>
            { s with server := server }
      | _ => none
  | .push =>
      match s.stage with
      | .serving => (serverStep lib s.server .push).map fun server => { s with server := server }
      | _ => none
  | .stopServer =>
      match s.stage with
      | .serving =>
          (serverStep lib s.server .stopServer).map fun server =>
            { s with server := server, stage := .stopping }
      | _ => none
  | .stopWorker =>
      match s.stage with
      | .stopping =>
          (serverStep lib s.server .stopWorker).map fun server => { s with server := server }
      | _ => none
  | .worker env =>
      if s.stage.working = false ∨ s.RefreshDue ∨
          s.server.pipeline.pc = .sleep ∧ s.clock < s.wake then none
      else
        (serverStep lib s.server (.worker { env with steady := s.clock })).map fun server =>
          { s with
            server := server
            wake :=
              if server.pipeline.pc = .sleep then s.clock + s.server.cfg.eventFlushInterval
              else s.wake
            times := { s.times with
              round := if s.server.pipeline.pc = .loopHead then s.clock else s.times.round
              maintenances :=
                if (s.server.pipeline.maintaining (.worker env)).isSome then
                  s.times.maintenances ++ [s.server.pipeline.loopStart]
                else s.times.maintenances } }
  | .exit =>
      match s.stage with
      | .stopping => if s.server.pipeline.pc = .exited then some { s with stage := .down } else none
      | _ => none
  | .kill => some { s with stage := .down }

/-- The start of a process in which nothing throws. -/
def startUp (cfg : Config) : List SiteAct :=
  .boot cfg :: List.replicate 6 .select ++ [.startWorker, .startServer]

/-- A round with a refresh and with empty queues, up to its sleep. -/
def idleRound : List SiteAct :=
  .worker {} :: List.replicate 6 .select ++ List.replicate 5 (.worker {})

end SSize
