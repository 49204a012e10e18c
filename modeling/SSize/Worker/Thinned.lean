import SSize.Lib.Thinning
import SSize.Worker.Maintenance

/-!
# The database with some bot events left out

The rollup sees countable rows only, so rows that are not countable can be missing
without a trace in the daily statistics. And what can be inserted, recorded and
maintained with them can be without them.
-/

namespace SSize

open Lib

/-- The row of the event takes part in the rollup. -/
def Event.countable (ev : Event) : Bool := (eventRow ev).countable

/-- `db'` has the same daily statistics and lacks events that do not count. -/
structure ThinnedLog (db db' : Db) : Prop where
  rows : Thinned EventRow.countable db.events.rows db'.events.rows
  daily : db'.dailyItemStats = db.dailyItemStats

variable {db db' : Db}

theorem Event.countable_of_bot {ev : Event} (h : ev.uaClass = bytes "bot") :
    ev.countable = false := by
  unfold Event.countable EventRow.countable eventRow
  simp only [h]
  cases ev.itemId <;> simp

theorem ThinnedLog.refl (db : Db) : ThinnedLog db db := ⟨.refl _ _, rfl⟩

theorem ThinnedLog.keys (h : ThinnedLog db db') : db'.events.keys.Sublist db.events.keys :=
  h.rows.sub.filterMap _

theorem ThinnedLog.knows (h : ThinnedLog db db') {token : Text}
    (hknows : db'.knows token = true) : db.knows token = true := by
  rw [Db.knows, decide_eq_true_eq] at hknows ⊢
  exact h.keys.subset hknows

/-! ## The statements -/

theorem ThinnedLog.insertEvents (h : ThinnedLog db db') {f : InsertFaults}
    {batch batch' : List Event} (hbatch : Thinned Event.countable batch batch')
    (hclean : batch = [] ∨ InsertsCleanly f db batch) :
    batch' = [] ∨ InsertsCleanly f db' batch' := by
  rcases hclean with rfl | hclean
  · exact Or.inl hbatch.eq_nil
  · right
    have htokens : (batchTokens batch').Sublist (batchTokens batch) :=
      (hbatch.sub.map eventRow).filterMap _
    refine ⟨hclean.begins, fun i hi => ?_, hclean.commits, ?_⟩
    · exact hclean.steps i (Nat.lt_of_lt_of_le hi hbatch.sub.length_le)
    · exact (h.keys.append htokens).nodup hclean.tokens

/-- A batch that goes through does so without its bot events. -/
theorem ThinnedLog.insertEvents_ok (h : ThinnedLog db db') {f : InsertFaults}
    {batch batch' : List Event} {u : Db} (hbatch : Thinned Event.countable batch batch')
    (hclean : batch = [] ∨ InsertsCleanly f db batch)
    (hcall : SSize.insertEvents f db batch = (u, .ok ())) :
    ∃ u', (batch' = [] ∨ InsertsCleanly f db' batch') ∧
      SSize.insertEvents f db' batch' = (u', .ok ()) ∧ ThinnedLog u u' := by
  have hclean' := h.insertEvents hbatch hclean
  have hok := (insertEvents_isOk_iff f db' batch').2 hclean'
  have hcall' : SSize.insertEvents f db' batch' = (_, .ok ()) := Prod.ext rfl hok
  obtain ⟨hrows, -, hdaily⟩ := SSize.insertEvents_ok hcall
  obtain ⟨hrows', -, hdaily'⟩ := SSize.insertEvents_ok hcall'
  refine ⟨_, hclean', hcall', ?_, by rw [hdaily, hdaily', h.daily]⟩
  rw [hrows, hrows']
  exact h.rows.append (hbatch.map eventRow fun _ => rfl)

theorem ThinnedLog.recordsCleanly (h : ThinnedLog db db') {f : RecordFaults} {c : Conversion}
    (hclean : RecordsCleanly f db c) : RecordsCleanly f db' c :=
  ⟨hclean.1, fun hknows => hclean.2 (h.knows hknows)⟩

theorem ThinnedLog.recorded (h : ThinnedLog db db') (f f' : RecordFaults) (c c' : Conversion) :
    ThinnedLog (recordConversion f db c).1 (recordConversion f' db' c').1 where
  rows := by
    rw [recordConversion_events, recordConversion_events]
    exact h.rows
  daily := by rw [recordConversion_dailyItemStats, recordConversion_dailyItemStats, h.daily]

/-- A recorded conversion does not show in the log. -/
theorem ThinnedLog.recorded_left (h : ThinnedLog db db') (f : RecordFaults) (c : Conversion) :
    ThinnedLog (recordConversion f db c).1 db' where
  rows := by
    rw [recordConversion_events]
    exact h.rows
  daily := by rw [recordConversion_dailyItemStats, h.daily]

/-! ## The rollup -/

theorem rollupKey_eq_none {dayFrom dayTo : Int} {r : EventRow} (h : r.countable = false) :
    rollupKey dayFrom dayTo r = none := by
  unfold rollupKey
  split
  · rfl
  · rw [if_neg (by simp [h])]

/-- The groups are those of the countable rows. -/
theorem filterMap_rollupKey (dayFrom dayTo : Int) (rows : List EventRow) :
    rows.filterMap (rollupKey dayFrom dayTo) =
      (rows.filter EventRow.countable).filterMap (rollupKey dayFrom dayTo) := by
  rw [List.filterMap_filter]
  apply List.filterMap_congr
  intro r _
  cases hcountable : r.countable with
  | true => rfl
  | false => exact rollupKey_eq_none hcountable

theorem rollupGroup_countable (dayFrom dayTo : Int) (rows : List EventRow) (k : Int × Int) :
    rollupGroup dayFrom dayTo rows k =
      rollupGroup dayFrom dayTo (rows.filter EventRow.countable) k := by
  have hsame : (rows.filter fun r => rollupKey dayFrom dayTo r == some k) =
      (rows.filter EventRow.countable).filter fun r => rollupKey dayFrom dayTo r == some k := by
    rw [List.filter_filter]
    apply List.filter_congr
    intro r _
    cases hcountable : r.countable with
    | true => simp
    | false => simp [rollupKey_eq_none hcountable]
  simp only [rollupGroup, hsame]

theorem ThinnedLog.rollupDaily (h : ThinnedLog db db') (dayFrom dayTo : Int) :
    (SSize.rollupDaily dayFrom dayTo db').dailyItemStats =
      (SSize.rollupDaily dayFrom dayTo db).dailyItemStats := by
  have hgroups : rollupGroup dayFrom dayTo db'.events.rows =
      rollupGroup dayFrom dayTo db.events.rows := by
    funext k
    rw [rollupGroup_countable, h.rows.same, ← rollupGroup_countable]
  simp only [SSize.rollupDaily]
  rw [filterMap_rollupKey, h.rows.same, ← filterMap_rollupKey, hgroups, h.daily]

theorem ThinnedLog.maintained (h : ThinnedLog db db') (now : TsMs) (days : Int) :
    ThinnedLog (maintenance { now := now } days db).1
      (maintenance { now := now } days db').1 where
  rows := h.rows.filter _
  daily := by
    rw [maintenance_clean, maintenance_clean, pruneEvents_dailyItemStats,
      pruneEvents_dailyItemStats]
    exact h.rollupDaily _ _

/-- The call returns with the one database as with the other. -/
theorem maintenance_isOk {env : Env} {days : Int} {removed : Nat}
    (hok : (maintenance env days db).2 = .ok removed) (db' : Db) :
    ∃ removed', (maintenance env days db').2 = .ok removed' := by
  unfold maintenance at hok ⊢
  split at hok
  · simp at hok
  · next hrollup =>
      split at hok
      · simp at hok
      · next hprune =>
          rw [if_neg hrollup]
          simp only [hprune]
          exact ⟨_, rfl⟩

end SSize
