import SSize.Db.Rollup
import SSize.Db.Conversions

/-!
# `DbWorker::maintenance`

First the rollup of yesterday and today, then the prune. The environment of a
worker step is here because this is the first function that needs it.
-/

namespace SSize

open Lib

/-- What the outside world answers to one step of the worker. -/
structure Env where
  steady : Int := 0
  now : TsMs := 0
  insert : InsertFaults := {}
  record : RecordFaults := {}
  rollupFails : Bool := false
  pruneFails : Bool := false

/-- `DbWorker::maintenance`. A throwing rollup leaves the prune undone. -/
def maintenance (env : Env) (retentionDays : Int) (db : Db) :
    Db × Except SqliteError Nat :=
  let today := env.now.tdiv dayMs
  if env.rollupFails then (db, .error .busy)
  else
    let db := rollupDaily (today - 1) today db
    let cutoff := env.now - retentionDays * dayMs
    if env.pruneFails then (db, .error .busy)
    else
      let (db, removed) := pruneEvents cutoff db
      (db, .ok removed)

def expired (days : Int) (now : TsMs) (r : EventRow) : Bool :=
  decide (r.ts < now - days * dayMs)

theorem maintenance_error {env : Env} {days : Int} {db db' : Db} {e : SqliteError}
    (h : maintenance env days db = (db', .error e)) : db'.events = db.events := by
  unfold maintenance at h
  split at h
  · cases h; rfl
  · split at h
    · cases h; rfl
    · simp at h

/-- A call that returns has met no fault. -/
theorem maintenance_of_ok {env : Env} {days : Int} {db : Db} {removed : Nat}
    (h : (maintenance env days db).2 = .ok removed) :
    maintenance env days db = maintenance { now := env.now } days db := by
  unfold maintenance at h ⊢
  split at h
  · simp at h
  · next hrollup =>
      split at h
      · simp at h
      · next hprune => simp [hrollup, hprune]

theorem maintenance_ok {env : Env} {days : Int} {db : Db} {removed : Nat}
    (h : (maintenance env days db).2 = .ok removed) :
    (maintenance env days db).1.events.rows =
      db.events.rows.filter fun r => !expired days env.now r := by
  rw [maintenance_of_ok h]
  rfl

@[simp] theorem maintenance_conversions (env : Env) (days : Int) (db : Db) :
    (maintenance env days db).1.conversions = db.conversions := by
  unfold maintenance
  split
  · rfl
  · split <;> rfl

theorem maintenance_clean (now : TsMs) (days : Int) (db : Db) :
    maintenance { now := now } days db =
      ((pruneEvents (now - days * dayMs)
          (rollupDaily (now.tdiv dayMs - 1) (now.tdiv dayMs) db)).1,
        .ok (pruneEvents (now - days * dayMs)
          (rollupDaily (now.tdiv dayMs - 1) (now.tdiv dayMs) db)).2) := rfl

end SSize
