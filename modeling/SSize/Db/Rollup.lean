import SSize.Db.Metrics
import Mathlib.Data.Int.Order.Basic

/-!
# `DbConn::rollup_daily` and `DbConn::prune_events`

The grouped `INSERT ... SELECT` is computed the way the statement reads: the
`WHERE` clause, the groups, one row of sums for each group, and an upsert of
these rows. `find?_rollupDaily` is what it comes to.
-/

namespace SSize

open Lib

def dayMs : Int := 86400000

/-- `ts / 86400000`. Both SQL and C++ truncate toward zero. -/
def dayOf (ts : TsMs) : Int := ts.tdiv dayMs

theorem dayOf_mono {s t : TsMs} (h : s ≤ t) : dayOf s ≤ dayOf t :=
  Int.tdiv_le_tdiv (by decide) h

/-- `item_id IS NOT NULL AND ua_class != 'bot'`. The comparison with a `NULL`
class is not true either. -/
def EventRow.countable (r : EventRow) : Bool :=
  match r.itemId, r.uaClass with
  | some _, some ua => ua != bytes "bot"
  | _, _ => false

/-- The `GROUP BY` key of a row that the `WHERE` clause keeps. -/
def rollupKey (dayFrom dayTo : Int) (r : EventRow) : Option (Int × Int) :=
  match r.itemId with
  | none => none
  | some item =>
      if r.countable ∧ dayFrom ≤ dayOf r.ts ∧ dayOf r.ts ≤ dayTo then
        some (dayOf r.ts, item)
      else none

/-- `SUM(type = ...)` over a group. -/
def sumType (type : EventType) (group : List EventRow) : Int :=
  group.countP fun r => r.type == type.toString

def rollupGroup (dayFrom dayTo : Int) (rows : List EventRow) (k : Int × Int) : DailyRow :=
  let group := rows.filter fun r => rollupKey dayFrom dayTo r == some k
  { day := k.1
    itemId := k.2
    impressions := sumType .impression group
    cardClicks := sumType .cardClick group
    outbounds := sumType .outbound group }

/-- `DO UPDATE SET impressions, card_clicks, outbounds`. -/
def onConflictDay : Table.Merge DailyRow.key where
  set old new := { old with
    impressions := new.impressions
    cardClicks := new.cardClicks
    outbounds := new.outbounds }
  key_set _ _ := rfl

def rollupDaily (dayFrom dayTo : Int) (db : Db) : Db :=
  let groups := (db.events.rows.filterMap (rollupKey dayFrom dayTo)).dedup
  { db with
    dailyItemStats :=
      (groups.map (rollupGroup dayFrom dayTo db.events.rows)).foldl
        (Table.upsert onConflictDay) db.dailyItemStats }

/-- The database after the `DELETE`, and `sqlite3_changes`. -/
def pruneEvents (olderThan : TsMs) (db : Db) : Db × Nat :=
  ({ db with events := db.events.delete fun r => decide (r.ts < olderThan) },
    db.events.rows.countP fun r => decide (r.ts < olderThan))

theorem rollupKey_eq_some {dayFrom dayTo : Int} {r : EventRow} {k : Int × Int} :
    rollupKey dayFrom dayTo r = some k ↔
      r.itemId = some k.2 ∧ r.countable = true ∧ dayOf r.ts = k.1 ∧
        dayFrom ≤ k.1 ∧ k.1 ≤ dayTo := by
  unfold rollupKey
  cases r.itemId with
  | none => simp
  | some item =>
      obtain ⟨day, item'⟩ := k
      simp only [Option.ite_none_right_eq_some, Option.some.injEq, Prod.mk.injEq]
      constructor
      · rintro ⟨⟨hc, hfrom, hto⟩, rfl, rfl⟩
        exact ⟨rfl, hc, rfl, hfrom, hto⟩
      · rintro ⟨rfl, hc, rfl, hfrom, hto⟩
        exact ⟨⟨hc, hfrom, hto⟩, rfl, rfl⟩

@[simp] theorem rollupGroup_key (dayFrom dayTo : Int) (rows : List EventRow)
    (k : Int × Int) : (rollupGroup dayFrom dayTo rows k).key = some k := rfl

def countedOn (rows : List EventRow) (day item : Int) : List EventRow :=
  rows.filter fun r => r.itemId == some item && r.countable && dayOf r.ts == day

theorem mem_countedOn {rows : List EventRow} {day item : Int} {r : EventRow} :
    r ∈ countedOn rows day item ↔
      r ∈ rows ∧ r.itemId = some item ∧ r.countable = true ∧ dayOf r.ts = day := by
  simp [countedOn, and_assoc]

theorem countedOn_ne_nil {rows : List EventRow} {day item : Int} :
    countedOn rows day item ≠ [] ↔ ∃ r, r ∈ countedOn rows day item := by
  constructor
  · exact List.exists_mem_of_ne_nil _
  · rintro ⟨r, hr⟩
    exact List.ne_nil_of_mem hr

/-- The counters that a recount of `rows` writes for a day and item. -/
def recount (rows : List EventRow) (day item : Int) : DailyRow where
  day := day
  itemId := item
  impressions := sumType .impression (countedOn rows day item)
  cardClicks := sumType .cardClick (countedOn rows day item)
  outbounds := sumType .outbound (countedOn rows day item)

theorem rollupGroup_eq_recount {dayFrom dayTo day item : Int} (rows : List EventRow)
    (hfrom : dayFrom ≤ day) (hto : day ≤ dayTo) :
    rollupGroup dayFrom dayTo rows (day, item) = recount rows day item := by
  have hgroup : (rows.filter fun r => rollupKey dayFrom dayTo r == some (day, item)) =
      countedOn rows day item := by
    apply List.filter_congr
    intro r _
    rw [Bool.eq_iff_iff, beq_iff_eq, rollupKey_eq_some]
    simp [hfrom, hto, and_assoc]
  simp only [rollupGroup, recount, hgroup]

/-- Exactly the days in range that have a countable event of the item are
recounted; every other row stays. -/
theorem find?_rollupDaily (dayFrom dayTo : Int) (db : Db) (day item : Int) :
    (rollupDaily dayFrom dayTo db).dailyItemStats.find? (day, item) =
      if dayFrom ≤ day ∧ day ≤ dayTo ∧ countedOn db.events.rows day item ≠ [] then
        some (recount db.events.rows day item)
      else db.dailyItemStats.find? (day, item) := by
  set groups := (db.events.rows.filterMap (rollupKey dayFrom dayTo)).dedup with hgroups
  have hmem : (day, item) ∈ groups ↔
      dayFrom ≤ day ∧ day ≤ dayTo ∧ countedOn db.events.rows day item ≠ [] := by
    rw [hgroups, List.mem_dedup, List.mem_filterMap, countedOn_ne_nil]
    simp only [rollupKey_eq_some, mem_countedOn]
    constructor
    · rintro ⟨r, hr, hi, hc, hd, hfrom, hto⟩
      exact ⟨hfrom, hto, r, hr, hi, hc, hd⟩
    · rintro ⟨hfrom, hto, r, hr, hi, hc, hd⟩
      exact ⟨r, hr, hi, hc, hd, hfrom, hto⟩
  have hfilter : ((groups.map (rollupGroup dayFrom dayTo db.events.rows)).filter
        fun r => decide (r.key = some (day, item))) =
      if (day, item) ∈ groups then
        [rollupGroup dayFrom dayTo db.events.rows (day, item)]
      else [] := by
    rw [List.filter_map]
    have hkeys : ((fun r : DailyRow => decide (r.key = some (day, item))) ∘
        rollupGroup dayFrom dayTo db.events.rows) = fun k => decide (k = (day, item)) := by
      funext k
      simp
    rw [hkeys]
    split
    · next h =>
        rw [List.filter_eq, List.count_eq_one_of_mem (List.nodup_dedup _) h]
        rfl
    · next h => rw [List.filter_eq, List.count_eq_zero_of_not_mem h]; rfl
  have hfind := Table.find?_foldl_upsert onConflictDay db.dailyItemStats
    (groups.map (rollupGroup dayFrom dayTo db.events.rows)) (day, item)
  simp only [rollupDaily]
  rw [hfind, hfilter]
  by_cases h : (day, item) ∈ groups
  · have hrange := hmem.1 h
    rw [if_pos h, if_pos hrange, ← rollupGroup_eq_recount _ hrange.1 hrange.2.1]
    cases hold : db.dailyItemStats.find? (day, item) with
    | none => rfl
    | some old =>
        have hkey := (Table.mem_of_find?_eq_some hold).2
        simp only [DailyRow.key, Option.some.injEq, Prod.mk.injEq] at hkey
        simp [Table.mergeInto, onConflictDay, rollupGroup, hkey.1, hkey.2]
  · rw [if_neg h, if_neg fun hc => h (hmem.2 hc)]
    rfl

@[simp] theorem pruneEvents_dailyItemStats (olderThan : TsMs) (db : Db) :
    (pruneEvents olderThan db).1.dailyItemStats = db.dailyItemStats := rfl

end SSize
