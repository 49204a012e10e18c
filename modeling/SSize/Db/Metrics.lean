import SSize.Lib.Tables
import SSize.Models
import Mathlib.Data.List.Dedup

/-!
# The metrics tables and their statements (`db.cpp`, `001_init.sql`)

The nullable columns are options, the three unique indexes are the keys of the
tables. `id` columns are left out: nothing reads them.

A statement that the outside world makes fail (a lock held past the busy
timeout, a full disk) is a flag of the call's `Faults`; what fails because of
the data, a unique index or a `CHECK`, fails here by itself.
-/

namespace SSize

open Lib

structure EventRow where
  ts : TsMs
  anonId : Text
  sessionId : Text
  type : Text
  itemId : Option Int := none
  position : Option Int := none
  surface : Option Text := none
  clickToken : Option Text := none
  source : Option Text := none
  uaClass : Option Text := none
  ipHash : Option (List UInt8) := none
  payload : Option Text := none
deriving DecidableEq, Repr

structure ConversionRow where
  clickToken : Text
  ts : TsMs
  orderRef : Option Text := none
  amountKopek : Option Kopek := none
  status : Text
  raw : Option Text := none
deriving DecidableEq, Repr

structure DailyRow where
  day : Int
  itemId : Int
  impressions : Int := 0
  cardClicks : Int := 0
  outbounds : Int := 0
deriving DecidableEq, Repr

/-- `PRIMARY KEY (day, item_id)`. -/
def DailyRow.key (r : DailyRow) : Option (Int × Int) := some (r.day, r.itemId)

/-- `idx_events_token`. -/
abbrev EventsTable := Table EventRow EventRow.clickToken

/-- `idx_conversions_order`. -/
abbrev ConversionsTable := Table ConversionRow ConversionRow.orderRef

abbrev DailyTable := Table DailyRow DailyRow.key

structure Db where
  events : EventsTable := .empty
  conversions : ConversionsTable := .empty
  dailyItemStats : DailyTable := .empty

inductive SqliteError where
  | busy
  | constraint
deriving DecidableEq, Repr

/-! ## `DbConn::insert_events` -/

structure InsertFaults where
  beginImmediate : Bool := false
  row : Nat → Bool := fun _ => false
  commit : Bool := false

/-- The row that the `bind` calls build. An empty token and an empty hash are
bound as `NULL`. -/
def eventRow (ev : Event) : EventRow where
  ts := ev.ts
  anonId := ev.anonId
  sessionId := ev.sessionId
  type := ev.type.toString
  itemId := ev.itemId
  position := ev.position
  surface := some ev.surface
  clickToken := if ev.clickToken.isEmpty then none else some ev.clickToken
  source := some ev.source
  uaClass := some ev.uaClass
  ipHash := if ev.ipHash.isEmpty then none else some ev.ipHash
  payload := some ev.payload

/-- The loop over the batch, from its `i`-th row on. -/
def insertRows (fault : Nat → Bool) :
    Nat → List Event → EventsTable → Except SqliteError EventsTable
  | _, [], t => .ok t
  | i, ev :: rest, t =>
      if fault i then .error .busy
      else
        match t.insert? (eventRow ev) with
        | none => .error .constraint
        | some t => insertRows fault (i + 1) rest t

/-- The batch in one transaction; whatever throws after `BEGIN IMMEDIATE` rolls
back. -/
def insertEvents (f : InsertFaults) (db : Db) (batch : List Event) :
    Db × Except SqliteError Unit :=
  if batch.isEmpty then (db, .ok ())
  else if f.beginImmediate then (db, .error .busy)
  else
    match insertRows f.row 0 batch db.events with
    | .error e => (db, .error e)
    | .ok t =>
        if f.commit then (db, .error .busy)
        else ({ db with events := t }, .ok ())

def batchTokens (batch : List Event) : List Text :=
  (batch.map eventRow).filterMap EventRow.clickToken

theorem insertRows_ok {fault : Nat → Bool} {i : Nat} {batch : List Event}
    {t u : EventsTable} (h : insertRows fault i batch t = .ok u) :
    u.rows = t.rows ++ batch.map eventRow := by
  induction batch generalizing i t with
  | nil =>
      rw [insertRows, Except.ok.injEq] at h
      rw [h, List.map_nil, List.append_nil]
  | cons ev rest ih =>
      rw [insertRows] at h
      split at h
      · simp at h
      · split at h
        · simp at h
        · next v hv =>
            have hrows := (Table.insert?_eq_some.1 hv).2
            rw [ih h, hrows, List.append_assoc, List.map_cons, List.singleton_append]

theorem insertRows_isOk_iff (fault : Nat → Bool) (i : Nat) (batch : List Event)
    (t : EventsTable) :
    (∃ u, insertRows fault i batch t = .ok u) ↔
      (∀ j < batch.length, fault (i + j) = false) ∧
        (t.keys ++ batchTokens batch).Nodup := by
  induction batch generalizing i t with
  | nil =>
      have hkeys : t.keys.Nodup := t.unique
      simp [insertRows, batchTokens, hkeys]
  | cons ev rest ih =>
      have hshift : (∀ j < (ev :: rest).length, fault (i + j) = false) ↔
          fault i = false ∧ ∀ j < rest.length, fault (i + 1 + j) = false := by
        constructor
        · intro h
          refine ⟨h 0 (by simp), fun j hj => ?_⟩
          have := h (j + 1) (by simpa using hj)
          rwa [show i + (j + 1) = i + 1 + j by omega] at this
        · rintro ⟨h0, h⟩ j hj
          cases j with
          | zero => exact h0
          | succ j =>
              rw [show i + (j + 1) = i + 1 + j by omega]
              exact h j (by simpa using hj)
      have htokens : batchTokens (ev :: rest) =
          (eventRow ev).clickToken.toList ++ batchTokens rest := by
        unfold batchTokens
        rw [List.map_cons, List.filterMap_cons]
        cases (eventRow ev).clickToken <;> rfl
      rw [hshift, htokens, insertRows]
      by_cases hf : fault i = true
      · simp [hf]
      · rw [if_neg hf]
        cases hins : t.insert? (eventRow ev) with
        | none =>
            have hnot := Table.insert?_eq_none.1 hins
            simp only [reduceCtorEq, exists_false, false_iff, not_and]
            intro _ hnd
            refine hnot fun k hk hmem => ?_
            rw [Option.mem_def.1 hk, Option.toList_some] at hnd
            exact (List.nodup_append.1 hnd).2.2 k hmem k (by simp) rfl
        | some u =>
            have hrows := (Table.insert?_eq_some.1 hins).2
            have hkeys : u.keys = t.keys ++ (eventRow ev).clickToken.toList := by
              unfold Table.keys
              rw [hrows, Table.filterMap_concat]
            have hff : fault i = false := by simpa using hf
            rw [ih (i + 1) u, hkeys, List.append_assoc]
            simp [hff]

/-- What the environment and the data must allow for `insert_events` to return. -/
structure InsertsCleanly (f : InsertFaults) (db : Db) (batch : List Event) : Prop where
  begins : f.beginImmediate = false
  steps : ∀ i < batch.length, f.row i = false
  commits : f.commit = false
  tokens : (db.events.keys ++ batchTokens batch).Nodup

instance (f : InsertFaults) (db : Db) (batch : List Event) :
    Decidable (InsertsCleanly f db batch) :=
  decidable_of_iff (f.beginImmediate = false ∧ (∀ i < batch.length, f.row i = false) ∧
      f.commit = false ∧ (db.events.keys ++ batchTokens batch).Nodup)
    ⟨fun h => ⟨h.1, h.2.1, h.2.2.1, h.2.2.2⟩,
      fun h => ⟨h.begins, h.steps, h.commits, h.tokens⟩⟩

theorem insertEvents_error {f : InsertFaults} {db db' : Db} {batch : List Event}
    {e : SqliteError} (h : insertEvents f db batch = (db', .error e)) : db' = db := by
  unfold insertEvents at h
  split at h
  · simp at h
  · split at h
    · simp only [Prod.mk.injEq] at h
      exact h.1.symm
    · split at h
      · simp only [Prod.mk.injEq] at h
        exact h.1.symm
      · split at h
        · simp only [Prod.mk.injEq] at h
          exact h.1.symm
        · simp at h

/-- A returning `insert_events` appends one row per event, in order, and touches
no other table. -/
theorem insertEvents_ok {f : InsertFaults} {db db' : Db} {batch : List Event}
    (h : insertEvents f db batch = (db', .ok ())) :
    db'.events.rows = db.events.rows ++ batch.map eventRow ∧
      db'.conversions = db.conversions ∧ db'.dailyItemStats = db.dailyItemStats := by
  unfold insertEvents at h
  split at h
  · next hempty =>
      simp only [Prod.mk.injEq, and_true] at h
      rw [List.isEmpty_iff] at hempty
      simp [← h, hempty]
  · split at h
    · simp at h
    · split at h
      · simp at h
      · next t ht =>
          split at h
          · simp at h
          · simp only [Prod.mk.injEq, and_true] at h
            subst h
            exact ⟨insertRows_ok ht, rfl, rfl⟩

theorem insertEvents_isOk_iff (f : InsertFaults) (db : Db) (batch : List Event) :
    (insertEvents f db batch).2 = .ok () ↔ batch = [] ∨ InsertsCleanly f db batch := by
  have hloop := insertRows_isOk_iff f.row 0 batch db.events
  simp only [Nat.zero_add] at hloop
  unfold insertEvents
  by_cases hempty : batch = []
  · simp [hempty]
  · rw [if_neg (by simpa using hempty)]
    simp only [hempty, false_or]
    by_cases hbegin : f.beginImmediate = true
    · rw [if_pos hbegin]
      simp only [reduceCtorEq, false_iff]
      intro hclean
      simp [hclean.begins] at hbegin
    · rw [if_neg hbegin]
      cases hrows : insertRows f.row 0 batch db.events with
      | error e =>
          simp only [reduceCtorEq, false_iff]
          intro hclean
          obtain ⟨u, hu⟩ := hloop.2 ⟨hclean.steps, hclean.tokens⟩
          simp [hu] at hrows
      | ok t =>
          obtain ⟨hsteps, htokens⟩ := hloop.1 ⟨t, hrows⟩
          by_cases hcommit : f.commit = true
          · simp only [hcommit, if_true, reduceCtorEq, false_iff]
            intro hclean
            simp [hclean.commits] at hcommit
          · simp only [hcommit]
            refine ⟨fun _ => ⟨by simpa using hbegin, hsteps, by simpa using hcommit, htokens⟩,
              fun _ => rfl⟩

end SSize
