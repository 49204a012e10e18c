import SSize.Lib.Runs
import SSize.Events
import SSize.Handlers.Postback
import SSize.Worker.Maintenance

/-!
# The HTTP thread, the two queues and the database thread

One `Act` is one atomic step of a party: a locked queue operation of a handler,
the two shutdown calls of `main`, or the next step of `DbWorker::run`, whose
position is the program counter `Pc`. A drained batch lives in the program
counter between its drain and the statement that takes it, as the local vector
does in the sources. A run is a list of acts, so every interleaving is a run.

The refresh is a step of its own that changes nothing here: it reads the catalog
tables and swaps the catalog handle.
-/

namespace SSize

open Lib

inductive Pc where
  | loopHead
  | refresh
  | drainEvents
  | insertEvents (batch : List Event)
  | drainConversions
  | recordConversions (batch : List Conversion)
  | maintenance
  | sleep
  | finalDrain
  | finalInsert (batch : List Event)
  | exited
deriving DecidableEq

/-- The events that are in nobody's queue and in no table yet. -/
def Pc.events : Pc → List Event
  | .insertEvents batch => batch
  | .finalInsert batch => batch
  | _ => []

def Pc.conversions : Pc → List Conversion
  | .recordConversions batch => batch
  | _ => []

def Pc.leaving : Pc → Bool
  | .finalDrain => true
  | .finalInsert _ => true
  | .exited => true
  | _ => false

structure Judgement where
  conversion : Conversion
  /-- How many events had been written by then. -/
  flushed : Nat
  known : Bool

/-- What has happened so far. Only the proofs read it, no step does. -/
structure History where
  accepted : List Event := []
  refused : Nat := 0
  /-- The postbacks answered 200, each with the number of events accepted
  before it. -/
  acked : List (Conversion × Nat) := []
  written : List Event := []
  lostEvents : List Event := []
  judged : List Judgement := []
  lostConversions : List Conversion := []
  pruned : List EventRow := []
  failures : Nat := 0

structure Pipeline where
  db : Db
  events : EventQueue
  conversions : ConversionQueue := {}
  serving : Bool := true
  running : Bool := true
  pc : Pc := .loopHead
  loopStart : Int := 0
  nextMaintenance : Int
  seen : History := {}

/-- A process that was just started on `db`, at `started` on the steady clock. -/
def Pipeline.init (cfg : Config) (db : Db) (started : Int) : Pipeline where
  db := db
  events := .empty cfg.eventQueueCapacity
  nextMaintenance := started + 3600000

inductive Act where
  | push (ev : Event)
  | postback (now : TsMs) (q : Query)
  | stopServer
  | stopWorker
  | worker (env : Env)

/-- One step of `DbWorker::run` and of the functions it calls. -/
def workerStep (cfg : Config) (env : Env) (s : Pipeline) : Option Pipeline :=
  match s.pc with
  | .loopHead =>
      if s.running then some { s with pc := .refresh, loopStart := env.steady }
      else some { s with pc := .finalDrain }
  | .refresh => some { s with pc := .drainEvents }
  | .drainEvents =>
      let (q, batch) := s.events.drain []
      some { s with events := q, pc := .insertEvents batch }
  | .insertEvents batch =>
      match insertEvents env.insert s.db batch with
      | (db, .ok ()) =>
          some { s with
            db := db
            pc := .drainConversions
            seen := { s.seen with written := s.seen.written ++ batch } }
      | (db, .error _) =>
          -- The exception skips `flush_conversions` and takes the batch with it.
          some { s with
            db := db
            pc := .maintenance
            seen := { s.seen with
              lostEvents := s.seen.lostEvents ++ batch
              failures := s.seen.failures + 1 } }
  | .drainConversions =>
      let (q, batch) := s.conversions.drain []
      some { s with conversions := q, pc := .recordConversions batch }
  | .recordConversions [] => some { s with pc := .maintenance }
  | .recordConversions (c :: rest) =>
      match recordConversion env.record s.db c with
      | (db, .ok known) =>
          some { s with
            db := db
            pc := .recordConversions rest
            seen := { s.seen with
              judged := s.seen.judged ++ [⟨c, s.seen.written.length, known⟩] } }
      | (db, .error _) =>
          -- So does this one, with what is left of the batch.
          some { s with
            db := db
            pc := .maintenance
            seen := { s.seen with
              lostConversions := s.seen.lostConversions ++ c :: rest
              failures := s.seen.failures + 1 } }
  | .maintenance =>
      if s.loopStart ≥ s.nextMaintenance then
        match maintenance env cfg.eventRetentionDays s.db with
        | (db, .ok _) =>
            some { s with
              db := db
              pc := .sleep
              nextMaintenance := s.loopStart + 3600000
              seen := { s.seen with
                pruned := s.seen.pruned ++
                  s.db.events.rows.filter (expired cfg.eventRetentionDays env.now) } }
        | (db, .error _) =>
            some { s with
              db := db
              pc := .sleep
              nextMaintenance := s.loopStart + 3600000
              seen := { s.seen with failures := s.seen.failures + 1 } }
      else some { s with pc := .sleep }
  | .sleep => some { s with pc := .loopHead }
  | .finalDrain =>
      let (q, batch) := s.events.drain []
      some { s with events := q, pc := .finalInsert batch }
  | .finalInsert batch =>
      match insertEvents env.insert s.db batch with
      | (db, .ok ()) =>
          some { s with
            db := db
            pc := .exited
            seen := { s.seen with written := s.seen.written ++ batch } }
      | (db, .error _) =>
          some { s with
            db := db
            pc := .exited
            seen := { s.seen with
              lostEvents := s.seen.lostEvents ++ batch
              failures := s.seen.failures + 1 } }
  | .exited => none

/-- One step of a party. `main` calls `db.stop()` after `server.stop()` returned. -/
def step (kopeksOf : Text → Option Kopek) (cfg : Config) (s : Pipeline) :
    Act → Option Pipeline
  | .push ev =>
      if s.serving then
        match s.events.push ev with
        | (q, true) =>
            some { s with
              events := q
              seen := { s.seen with accepted := s.seen.accepted ++ [ev] } }
        | (q, false) =>
            some { s with events := q, seen := { s.seen with refused := s.seen.refused + 1 } }
      else none
  | .postback now q =>
      if s.serving then
        match (handlePostback kopeksOf cfg now q).2 with
        | none => some s
        | some conv =>
            let (cq, _) := s.conversions.push conv
            some { s with
              conversions := cq
              seen := { s.seen with
                acked := s.seen.acked ++ [(conv, s.seen.accepted.length)] } }
      else none
  | .stopServer => some { s with serving := false }
  | .stopWorker => if s.serving then none else some { s with running := false }
  | .worker env => workerStep cfg env s

end SSize
