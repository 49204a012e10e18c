import SSize.Db.Rollup

/-!
# Rolling up again

`rollup_daily` overwrites a row with what `events` says and adds nothing to it. So
which ranges were rolled up, how often and in which order does not matter, as long
as they cover the same days. The hourly run of two overlapping days relies on that.
-/

namespace SSize

open Lib

/-- Nothing but the rows of `daily_item_stats` may differ, and they are the same. -/
structure Db.SameRows (db db' : Db) : Prop where
  events : db'.events = db.events
  conversions : db'.conversions = db.conversions
  stats : ∀ r, r ∈ db'.dailyItemStats.rows ↔ r ∈ db.dailyItemStats.rows

/-- One roll-up after the other. -/
def rollupAll (ranges : List (Int × Int)) (db : Db) : Db :=
  ranges.foldl (fun db range => rollupDaily range.1 range.2 db) db

def InRanges (ranges : List (Int × Int)) (day : Int) : Prop :=
  ∃ range ∈ ranges, range.1 ≤ day ∧ day ≤ range.2

instance (ranges : List (Int × Int)) (day : Int) : Decidable (InRanges ranges day) :=
  inferInstanceAs (Decidable (∃ range ∈ ranges, _))

/-- The days from `dayFrom` to `dayTo`, each as a range of its own. -/
def eachDay (dayFrom dayTo : Int) : List (Int × Int) :=
  (List.range (dayTo + 1 - dayFrom).toNat).map fun k : Nat => (dayFrom + k, dayFrom + k)

theorem inRanges_eachDay (dayFrom dayTo day : Int) :
    InRanges (eachDay dayFrom dayTo) day ↔ InRanges [(dayFrom, dayTo)] day := by
  simp only [InRanges, eachDay, List.mem_map, List.mem_range, List.mem_singleton,
    exists_eq_left]
  constructor
  · rintro ⟨range, ⟨k, hk, rfl⟩, hlow, hhigh⟩
    simp only at hlow hhigh
    omega
  · rintro ⟨hlow, hhigh⟩
    refine ⟨(day, day), ⟨(day - dayFrom).toNat, by omega, ?_⟩, le_refl day, le_refl day⟩
    have hday : dayFrom + ((day - dayFrom).toNat : Int) = day := by omega
    rw [hday]

theorem rollupAll_cons (range : Int × Int) (ranges : List (Int × Int)) (db : Db) :
    rollupAll (range :: ranges) db = rollupAll ranges (rollupDaily range.1 range.2 db) := rfl

theorem rollupAll_rest (ranges : List (Int × Int)) (db : Db) :
    (rollupAll ranges db).events = db.events ∧
      (rollupAll ranges db).conversions = db.conversions := by
  induction ranges generalizing db with
  | nil => exact ⟨rfl, rfl⟩
  | cons range ranges ih => exact ih (rollupDaily range.1 range.2 db)

/-- The days of any of the ranges are recounted, the rest stays. -/
theorem find?_rollupAll (ranges : List (Int × Int)) (db : Db) (day item : Int) :
    (rollupAll ranges db).dailyItemStats.find? (day, item) =
      if InRanges ranges day ∧ countedOn db.events.rows day item ≠ [] then
        some (recount db.events.rows day item)
      else db.dailyItemStats.find? (day, item) := by
  induction ranges generalizing db with
  | nil =>
      have hnone : ¬ InRanges [] day := by simp [InRanges]
      rw [if_neg fun h => hnone h.1]
      rfl
  | cons range ranges ih =>
      have hsplit : InRanges (range :: ranges) day ↔
          (range.1 ≤ day ∧ day ≤ range.2) ∨ InRanges ranges day := by
        simp [InRanges]
      have hevents : (rollupDaily range.1 range.2 db).events = db.events := rfl
      rw [rollupAll_cons, ih, hevents, find?_rollupDaily]
      by_cases hcounted : countedOn db.events.rows day item ≠ []
      · by_cases hlater : InRanges ranges day
        · rw [if_pos ⟨hlater, hcounted⟩, if_pos ⟨hsplit.2 (Or.inr hlater), hcounted⟩]
        · rw [if_neg fun h => hlater h.1]
          by_cases hfirst : range.1 ≤ day ∧ day ≤ range.2
          · rw [if_pos ⟨hfirst.1, hfirst.2, hcounted⟩,
              if_pos ⟨hsplit.2 (Or.inl hfirst), hcounted⟩]
          · rw [if_neg fun h => hfirst ⟨h.1, h.2.1⟩,
              if_neg fun h => (hsplit.1 h.1).elim hfirst hlater]
      · rw [if_neg fun h => hcounted h.2, if_neg fun h => hcounted h.2.2,
          if_neg fun h => hcounted h.2]

theorem dailyRow_keyed (r : DailyRow) : r.key.isSome = true := rfl

/-- Only the days that are covered matter. -/
theorem rollupAll_sameRows {ranges ranges' : List (Int × Int)}
    (h : ∀ day, InRanges ranges day ↔ InRanges ranges' day) (db : Db) :
    (rollupAll ranges db).SameRows (rollupAll ranges' db) where
  events := (rollupAll_rest ranges' db).1.trans (rollupAll_rest ranges db).1.symm
  conversions := (rollupAll_rest ranges' db).2.trans (rollupAll_rest ranges db).2.symm
  stats := by
    apply Table.mem_rows_congr dailyRow_keyed
    rintro ⟨day, item⟩
    simp only [find?_rollupAll, h day]

/-- Which rows a roll-up leaves: the recount of each day and item with a countable
event in the range, and every row of another day or item. -/
theorem mem_rollupDaily (dayFrom dayTo : Int) (db : Db) (r : DailyRow) :
    r ∈ (rollupDaily dayFrom dayTo db).dailyItemStats.rows ↔
      if dayFrom ≤ r.day ∧ r.day ≤ dayTo ∧ countedOn db.events.rows r.day r.itemId ≠ [] then
        r = recount db.events.rows r.day r.itemId
      else r ∈ db.dailyItemStats.rows := by
  have hrow : ∀ t : DailyTable, r ∈ t.rows ↔ t.find? (r.day, r.itemId) = some r := by
    intro t
    rw [Table.find?_eq_some_iff]
    exact ⟨fun hr => ⟨hr, rfl⟩, fun hr => hr.1⟩
  rw [hrow, find?_rollupDaily]
  split
  · rw [Option.some.injEq]
    exact eq_comm
  · rw [hrow]

/-- A roll-up is an exact recount that can be repeated, reordered, overlapped and cut
into its days. -/
theorem rollupDaily_exact (dayFrom dayTo : Int) (db : Db) :
    (∀ r, r ∈ (rollupDaily dayFrom dayTo db).dailyItemStats.rows ↔
      if dayFrom ≤ r.day ∧ r.day ≤ dayTo ∧ countedOn db.events.rows r.day r.itemId ≠ [] then
        r = recount db.events.rows r.day r.itemId
      else r ∈ db.dailyItemStats.rows) ∧
    (rollupDaily dayFrom dayTo db).events = db.events ∧
    (rollupDaily dayFrom dayTo db).conversions = db.conversions ∧
    (rollupDaily dayFrom dayTo db).SameRows
      (rollupDaily dayFrom dayTo (rollupDaily dayFrom dayTo db)) ∧
    (∀ ranges ranges' : List (Int × Int), ranges.Perm ranges' →
      (rollupAll ranges db).SameRows (rollupAll ranges' db)) ∧
    (∀ ranges ranges' : List (Int × Int),
      (∀ day, InRanges ranges day ↔ InRanges ranges' day) →
        (rollupAll ranges db).SameRows (rollupAll ranges' db)) ∧
    (rollupDaily dayFrom dayTo db).SameRows (rollupAll (eachDay dayFrom dayTo) db) := by
  refine ⟨mem_rollupDaily dayFrom dayTo db, rfl, rfl, ?_, ?_, ?_, ?_⟩
  · have htwice : ∀ day, InRanges [(dayFrom, dayTo)] day ↔
        InRanges [(dayFrom, dayTo), (dayFrom, dayTo)] day := by
      simp [InRanges]
    exact rollupAll_sameRows htwice db
  · intro ranges ranges' hperm
    have hsame : ∀ day, InRanges ranges day ↔ InRanges ranges' day := by
      intro day
      simp only [InRanges, hperm.mem_iff]
    exact rollupAll_sameRows hsame db
  · intro ranges ranges' hsame
    exact rollupAll_sameRows hsame db
  · have hdays : ∀ day, InRanges [(dayFrom, dayTo)] day ↔ InRanges (eachDay dayFrom dayTo) day :=
      fun day => (inRanges_eachDay dayFrom dayTo day).symm
    exact rollupAll_sameRows hdays db

end SSize
