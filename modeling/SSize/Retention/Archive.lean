import SSize.Lib.Runs
import SSize.Worker.Maintenance

/-!
# The event log over months

The database as it goes through process starts and stops, event insertions and
maintenance calls, each at a time that is not before the previous one. A failed
insertion changes nothing and is not a step. `stored` lists the rows of
`events`, each with whether some rollup has counted its day while it was there;
`pruned` lists those that were deleted.
-/

namespace SSize

open Lib

structure Archive where
  db : Db
  clock : TsMs
  stored : List (EventRow × Bool) := []
  pruned : List (EventRow × Bool) := []

def Archive.init (clock : TsMs) : Archive where
  db := {}
  clock := clock

inductive ArchiveAct where
  | start (now : TsMs)
  | stop (now : TsMs)
  | insert (now : TsMs) (batch : List Event)
  | maintain (now : TsMs)

def ArchiveAct.time : ArchiveAct → TsMs
  | .start now => now
  | .stop now => now
  | .insert now _ => now
  | .maintain now => now

/-- The day of the row is one of the two that a maintenance call at `now` rolls up. -/
def rollupCovers (now : TsMs) (r : EventRow) : Bool :=
  decide (now.tdiv dayMs - 1 ≤ dayOf r.ts ∧ dayOf r.ts ≤ now.tdiv dayMs)

def rolledUp (now : TsMs) (stored : List (EventRow × Bool)) : List (EventRow × Bool) :=
  stored.map fun p => (p.1, p.2 || rollupCovers now p.1)

def archiveStep (days : Int) (s : Archive) (a : ArchiveAct) : Option Archive :=
  if a.time < s.clock then none
  else
    match a with
    | .start now => some { s with clock := now }
    | .stop now => some { s with clock := now }
    | .insert now batch =>
        match insertEvents {} s.db batch with
        | (db, .ok ()) => some { s with
            db := db
            clock := now
            stored := s.stored ++ batch.map fun ev => (eventRow ev, false) }
        | (_, .error _) => none
    | .maintain now =>
        match maintenance { now := now } days s.db with
        | (db, .ok _) => some { s with
            db := db
            clock := now
            stored := (rolledUp now s.stored).filter fun p => !expired days now p.1
            pruned := s.pruned ++ (rolledUp now s.stored).filter fun p => expired days now p.1 }
        | (_, .error _) => none

variable {days : Int} {s t : Archive}

theorem archiveStep_cases {a : ArchiveAct} (h : archiveStep days s a = some t) :
    s.clock ≤ a.time ∧ t.clock = a.time ∧
      (((∃ now, a = .start now ∨ a = .stop now) ∧ t.db = s.db ∧ t.stored = s.stored ∧
          t.pruned = s.pruned) ∨
        (∃ now batch, a = .insert now batch ∧ insertEvents {} s.db batch = (t.db, .ok ()) ∧
          t.stored = s.stored ++ (batch.map fun ev => (eventRow ev, false)) ∧
          t.pruned = s.pruned) ∨
        ∃ now, a = .maintain now ∧
          t.db = (maintenance { now := now } days s.db).1 ∧
          t.stored = ((rolledUp now s.stored).filter fun p => !expired days now p.1) ∧
          t.pruned = s.pruned ++ (rolledUp now s.stored).filter fun p => expired days now p.1) := by
  unfold archiveStep at h
  split at h
  · simp at h
  · next htime =>
      have hle : s.clock ≤ a.time := Int.not_lt.1 htime
      cases a with
      | start now =>
          cases h
          exact ⟨hle, rfl, Or.inl ⟨⟨now, Or.inl rfl⟩, rfl, rfl, rfl⟩⟩
      | stop now =>
          cases h
          exact ⟨hle, rfl, Or.inl ⟨⟨now, Or.inr rfl⟩, rfl, rfl, rfl⟩⟩
      | insert now batch =>
          simp only at h
          split at h
          · next db hcall =>
              cases h
              exact ⟨hle, rfl, Or.inr (Or.inl ⟨now, batch, rfl, hcall, rfl, rfl⟩)⟩
          · simp at h
      | maintain now =>
          cases h
          exact ⟨hle, rfl, Or.inr (Or.inr ⟨now, rfl, rfl, rfl, rfl⟩)⟩

/-- The marks are kept for exactly the rows of `events`. -/
def Archive.Tracked (s : Archive) : Prop := s.stored.map Prod.fst = s.db.events.rows

theorem Archive.Tracked.step {a : ArchiveAct} (hs : s.Tracked)
    (h : archiveStep days s a = some t) : t.Tracked := by
  unfold Archive.Tracked at hs ⊢
  obtain ⟨-, -, ⟨-, hdb, hstored, -⟩ | ⟨now, batch, -, hcall, hstored, -⟩ |
    ⟨now, -, hdb, hstored, -⟩⟩ := archiveStep_cases h
  · rw [hdb, hstored, hs]
  · have hrows := (insertEvents_ok hcall).1
    rw [hrows, hstored, List.map_append, hs, List.map_map]
    rfl
  · have hrolled : (rolledUp now s.stored).map Prod.fst = s.stored.map Prod.fst := by
      unfold rolledUp
      rw [List.map_map]
      rfl
    have hrows : t.db.events.rows = s.db.events.rows.filter fun r => !expired days now r := by
      rw [hdb]
      exact maintenance_ok (congrArg Prod.snd (maintenance_clean now days s.db))
    rw [hrows, hstored, ← hs, ← hrolled, List.filter_map]
    rfl

theorem Archive.tracked_run {clock : TsMs} {as : List ArchiveAct}
    (hrun : Runs.exec (archiveStep days) (Archive.init clock) as = some t) : t.Tracked := by
  have hinit : (Archive.init clock).Tracked := rfl
  apply Runs.exec_invariant ?_ hinit hrun
  intro u a v hu huv
  exact hu.step huv

/-- A rollup that covers a countable row of `events` counts it. -/
theorem maintenance_counts {now : TsMs} {r : EventRow} {item : Int} {db : Db}
    (hr : r ∈ db.events.rows) (hitem : r.itemId = some item) (hcountable : r.countable = true)
    (hcovers : rollupCovers now r = true) :
    (maintenance { now := now } days db).1.dailyItemStats.find? (dayOf r.ts, item) =
        some (recount db.events.rows (dayOf r.ts) item) ∧
      r ∈ countedOn db.events.rows (dayOf r.ts) item := by
  simp only [rollupCovers, decide_eq_true_eq] at hcovers
  have hmem : r ∈ countedOn db.events.rows (dayOf r.ts) item :=
    mem_countedOn.2 ⟨hr, hitem, hcountable, rfl⟩
  rw [maintenance_clean, pruneEvents_dailyItemStats, find?_rollupDaily]
  rw [if_pos ⟨hcovers.1, hcovers.2, countedOn_ne_nil.2 ⟨r, hmem⟩⟩]
  exact ⟨rfl, hmem⟩

end SSize
