import SSize.Revenue.Deliveries
import SSize.Worker.Ledger

/-!
# The worker processes deliveries

Whatever the interleaving and whatever fails, the `conversions` table of a
process is what `processAll` makes of one delivery for every postback that
`record_conversion` has judged, in the order of the judgements. So the results
about sequences of deliveries are results about runs.
-/

namespace SSize

open Lib

variable {kopeksOf : Text → Option Kopek} {cfg : Config} {s t : Pipeline} {a : Act}

/-- Some request made `handle_postback` queue this conversion. -/
def Sourced (kopeksOf : Text → Option Kopek) (cfg : Config) (c : Conversion) : Prop :=
  ∃ now q, (handlePostback kopeksOf cfg now q).2 = some c

/-- The deliveries `ds` account for the judgements and for the table of `s`. -/
structure Replays (kopeksOf : Text → Option Kopek) (cfg : Config) (t₀ : ConversionsTable)
    (ds : List Delivery) (s : Pipeline) : Prop where
  accepted : ds.map (Delivery.accepted kopeksOf cfg) =
    s.seen.judged.map fun j => some j.conversion
  table : s.db.conversions = processAll kopeksOf cfg t₀ ds

/-- A call that returns does to the table what the delivery of its postback does. -/
theorem recordConversion_conversions {f : RecordFaults} {db : Db} {c : Conversion}
    (hclean : RecordsCleanly f db c) {d : Delivery} (hd : d.accepted kopeksOf cfg = some c)
    (hevents : d.events = db.events) :
    (recordConversion f db c).1.conversions = process kopeksOf cfg db.conversions d := by
  have hsame : Db.knows { events := d.events } c.clickToken = db.knows c.clickToken := by
    rw [hevents]
    rfl
  rcases recordConversion_cases f db c with ⟨e, -, hnot⟩ | ⟨hcall, -, hunknown⟩ |
    ⟨hcall, -, hknown⟩
  · exact absurd hclean hnot
  · have hnone : d.report kopeksOf cfg = none := by
      have hno : ¬ Db.knows { events := d.events } c.clickToken = true := by
        simp [hsame, hunknown]
      rw [Delivery.report, hd, Option.filter_some, if_neg hno]
    rw [hcall, process_of_no_report hnone]
  · have hreport : d.report kopeksOf cfg = some c :=
      Delivery.report_eq_some.2 ⟨hd, hsame.trans hknown⟩
    rw [hcall, process_of_report hreport]

theorem Replays.judge {t₀ : ConversionsTable} {ds : List Delivery}
    (h : Replays kopeksOf cfg t₀ ds s) {f : RecordFaults} {c : Conversion} {pc : Pc}
    {j : Judgement} {seen : History} (hsource : Sourced kopeksOf cfg c)
    (hclean : RecordsCleanly f s.db c) (hj : j.conversion = c)
    (hseen : seen.judged = s.seen.judged ++ [j]) :
    ∃ ds', Replays kopeksOf cfg t₀ ds'
      { s with db := (recordConversion f s.db c).1, pc := pc, seen := seen } := by
  obtain ⟨now, q, hq⟩ := hsource
  have hd : (Delivery.mk s.db.events now q).accepted kopeksOf cfg = some c := hq
  refine ⟨ds ++ [⟨s.db.events, now, q⟩], ?_, ?_⟩
  · rw [hseen, List.map_append, List.map_append, h.accepted, List.map_singleton,
      List.map_singleton, hd, hj]
  · have hcall : (recordConversion f s.db c).1.conversions = _ :=
      recordConversion_conversions hclean hd rfl
    rw [hcall, h.table, processAll, processAll, List.foldl_append]
    rfl

/-- What a run of the pipeline keeps: the waiting postbacks have passed the
handler, and the table is the one of some deliveries. -/
structure Replayed (kopeksOf : Text → Option Kopek) (cfg : Config) (t₀ : ConversionsTable)
    (s : Pipeline) : Prop where
  queued : ∀ c ∈ s.pc.conversions ++ s.conversions.pending, Sourced kopeksOf cfg c
  replays : ∃ ds, Replays kopeksOf cfg t₀ ds s

theorem Replayed.init (db : Db) (started : Int) :
    Replayed kopeksOf cfg db.conversions (Pipeline.init cfg db started) where
  queued c hc := by simp [Pipeline.init, Pc.conversions] at hc
  replays := ⟨[], rfl, rfl⟩

/-- Only `record_conversion` touches the table and the judgements. -/
theorem Moves.replays {t₀ : ConversionsTable} (hm : Moves kopeksOf cfg s a t)
    (h : Replayed kopeksOf cfg t₀ s) : ∃ ds, Replays kopeksOf cfg t₀ ds t := by
  obtain ⟨ds, hds⟩ := h.replays
  cases hm with
  | @judge env c rest hpc hclean =>
      have hsource := h.queued c (by simp [hpc, Pc.conversions])
      exact hds.judge hsource hclean rfl rfl
  | @write env batch db pc hpc hclean hcall =>
      have hsame := (insertEvents_ok hcall).2.1
      exact ⟨ds, hds.accepted, hsame.trans hds.table⟩
  | maintain hpc hdue hok =>
      exact ⟨ds, hds.accepted, (maintenance_conversions _ _ _).trans hds.table⟩
  | maintainFails hpc hdue hevents =>
      exact ⟨ds, hds.accepted, (maintenance_conversions _ _ _).trans hds.table⟩
  | _ => exact ⟨ds, hds.accepted, hds.table⟩

theorem replayed_run {db : Db} {started : Int} {as : List Act}
    (hrun : Runs.exec (step kopeksOf cfg) (Pipeline.init cfg db started) as = some s) :
    Replayed kopeksOf cfg db.conversions s := by
  apply Runs.exec_invariant ?_ (Replayed.init db started) hrun
  intro u a v hu huv
  have hm := step_moves kopeksOf cfg huv
  have hsourced : ∀ now q c, (handlePostback kopeksOf cfg now q).2 = some c →
      Sourced kopeksOf cfg c := fun now q c hc => ⟨now, q, hc⟩
  exact ⟨hm.queued hsourced hu.queued, hm.replays hu⟩

end SSize
