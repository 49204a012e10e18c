import SSize.Worker.Moves

/-!
# What a step moves

Seen from the events, a step of a pipeline in which nothing goes wrong takes in
what is pushed, writes the batch that is at its statement, or calls `maintenance`.
-/

namespace SSize

open Lib

structure Pipeline.Calm (p : Pipeline) : Prop where
  failures : p.seen.failures = 0
  refused : p.seen.refused = 0

/-- The events that were pushed and are not written yet. -/
def Pipeline.inFlight (p : Pipeline) : List Event := p.pc.events ++ p.events.pending

def Act.pushed : Act → List Event
  | .push ev => [ev]
  | _ => []

/-- The batch that the step writes. -/
def Pipeline.flushing (p : Pipeline) : Act → List Event
  | .worker _ => p.pc.events
  | _ => []

/-- The clock reading of the step if it is a call of `maintenance`. -/
def Pipeline.maintaining (p : Pipeline) : Act → Option TsMs
  | .worker env =>
      if p.pc = .maintenance ∧ p.loopStart ≥ p.nextMaintenance then some env.now else none
  | _ => none

variable {kopeksOf : Text → Option Kopek} {cfg : Config} {p q : Pipeline} {b : Act}

/-- An event is pushed, in flight or written, and is not lost on the way. -/
theorem Moves.inFlight (hm : Moves kopeksOf cfg p b q) (hcalm : q.Calm) :
    p.inFlight ++ b.pushed = p.flushing b ++ q.inFlight := by
  cases hm with
  | accept hserving hpush =>
      rw [Pipeline.inFlight, List.append_assoc]
      exact congrArg (p.pc.events ++ ·) (EventQueue.push_accepted hpush).1.symm
  | refuse hserving hpush => exact absurd hcalm.refused (Nat.succ_ne_zero _)
  | drainEvents hpc =>
      rcases hpc with ⟨hpc, rfl⟩ | ⟨hpc, rfl⟩ <;>
        simp [Pipeline.inFlight, Pipeline.flushing, Act.pushed, hpc, Pc.events]
  | write hpc hclean hcall =>
      rcases hpc with ⟨hpc, rfl⟩ | ⟨hpc, rfl⟩ <;>
        simp [Pipeline.inFlight, Pipeline.flushing, Act.pushed, hpc, Pc.events]
  | writeFails | judgeFails | maintainFails => exact absurd hcalm.failures (Nat.succ_ne_zero _)
  | reject | ack | stopServer | stopWorker =>
      simp [Pipeline.inFlight, Pipeline.flushing, Act.pushed]
  | enter hpc _ | leave hpc _ | refresh hpc | drainConversions hpc | flushed hpc | judge hpc _
  | maintain hpc _ _ | maintainLater hpc _ | wake hpc =>
      simp [Pipeline.inFlight, Pipeline.flushing, Act.pushed, hpc, Pc.events]

/-- The two tables change at a flush and at a maintenance call only. -/
theorem Moves.log (hm : Moves kopeksOf cfg p b q) (hcalm : q.Calm) :
    (p.maintaining b = none ∧
        q.db.events.rows = p.db.events.rows ++ (p.flushing b).map eventRow ∧
        q.db.dailyItemStats = p.db.dailyItemStats) ∨
      ∃ now, p.maintaining b = some now ∧ p.flushing b = [] ∧
        q.db = (maintenance { now := now } cfg.eventRetentionDays p.db).1 := by
  cases hm with
  | write hpc hclean hcall =>
      obtain ⟨hrows, -, hdaily⟩ := insertEvents_ok hcall
      left
      rcases hpc with ⟨hpc, rfl⟩ | ⟨hpc, rfl⟩ <;>
        exact ⟨by simp [Pipeline.maintaining, hpc], by rw [Pipeline.flushing, hpc]; exact hrows,
          hdaily⟩
  | judge hpc hclean =>
      left
      simp [Pipeline.maintaining, Pipeline.flushing, hpc, Pc.events, recordConversion_events,
        recordConversion_dailyItemStats]
  | @maintain env removed hpc hdue hok =>
      right
      refine ⟨env.now, ?_, ?_, ?_⟩
      · rw [Pipeline.maintaining, if_pos ⟨hpc, hdue⟩]
      · rw [Pipeline.flushing, hpc]
        rfl
      · rw [maintenance_of_ok hok]
  | maintainLater hpc hdue =>
      left
      refine ⟨?_, ?_, rfl⟩
      · rw [Pipeline.maintaining, if_neg fun h => absurd h.2 (Int.not_le.2 hdue)]
      · simp [Pipeline.flushing, hpc, Pc.events]
  | writeFails | judgeFails | maintainFails => exact absurd hcalm.failures (Nat.succ_ne_zero _)
  | drainEvents hpc =>
      left
      rcases hpc with ⟨hpc, rfl⟩ | ⟨hpc, rfl⟩ <;>
        simp [Pipeline.maintaining, Pipeline.flushing, hpc, Pc.events]
  | accept | refuse | reject | ack | stopServer | stopWorker =>
      left
      simp [Pipeline.maintaining, Pipeline.flushing]
  | enter hpc _ | leave hpc _ | refresh hpc | drainConversions hpc | flushed hpc | wake hpc =>
      left
      simp [Pipeline.maintaining, Pipeline.flushing, hpc, Pc.events]

end SSize
