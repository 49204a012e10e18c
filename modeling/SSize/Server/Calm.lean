import SSize.Handlers.Effects
import SSize.Server.Run
import SSize.Worker.Flow

/-!
# Runs in which nothing goes wrong

In a calm run no push is refused and no statement fails, over all its processes.
-/

namespace SSize

open Lib

instance (p : Pipeline) : Decidable p.Calm :=
  decidable_of_iff (p.seen.failures = 0 ∧ p.seen.refused = 0)
    ⟨fun h => ⟨h.1, h.2⟩, fun h => ⟨h.failures, h.refused⟩⟩

/-- A step of the server after which neither has happened. -/
def calmStep (lib : Library) (s : Server) (a : ServerAct) : Option Server :=
  (serverStep lib s a).filter fun t => decide t.pipeline.Calm

variable {lib : Library} {s t : Server} {a : ServerAct}

theorem calmStep_eq_some :
    calmStep lib s a = some t ↔ serverStep lib s a = some t ∧ t.pipeline.Calm := by
  rw [calmStep, Option.filter_eq_some_iff, decide_eq_true_iff]

theorem Pipeline.calm_init (cfg : Config) (db : Db) (started : Int) :
    (Pipeline.init cfg db started).Calm := ⟨rfl, rfl⟩

variable {kopeksOf : Text → Option Kopek} {cfg : Config} {p q : Pipeline} {b : Act}

theorem Moves.refused_le (hm : Moves kopeksOf cfg p b q) : p.seen.refused ≤ q.seen.refused := by
  cases hm with
  | refuse hserving hpush => exact Nat.le_succ _
  | _ => exact Nat.le_refl _

/-- What is calm after a step was calm before it. -/
theorem Moves.calm (hm : Moves kopeksOf cfg p b q) (hq : q.Calm) : p.Calm := by
  have hfailures := hm.failures_le
  have hrefused := hm.refused_le
  rw [hq.failures, Nat.le_zero] at hfailures
  rw [hq.refused, Nat.le_zero] at hrefused
  exact ⟨hfailures, hrefused⟩

theorem pipelineStep_eq_some {b : Act} :
    s.pipelineStep lib b = some t ↔
      ∃ p, step lib.kopeksOf s.cfg s.pipeline b = some p ∧ t = { s with pipeline := p } := by
  rw [Server.pipelineStep, Option.map_eq_some_iff]
  constructor
  · rintro ⟨p, hp, rfl⟩
    exact ⟨p, hp, rfl⟩
  · rintro ⟨p, hp, rfl⟩
    exact ⟨p, hp, rfl⟩

end SSize
