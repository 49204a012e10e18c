import SSize.Worker.Moves

/-!
# The rounds of the loop

Of a worker, its two timers and where it stands in the round. `Dial.Turns` is the loop of
`DbWorker::run` with nothing in it but the clock, and `Moves.turns` says that the worker
goes round like this.
-/

namespace SSize

inductive Phase where
  | head
  | refresh
  | flush
  | maintenance
  | sleep
  | leaving
deriving DecidableEq

def Pc.phase : Pc → Phase
  | .loopHead => .head
  | .refresh => .refresh
  | .drainEvents | .insertEvents _ | .drainConversions | .recordConversions _ => .flush
  | .maintenance => .maintenance
  | .sleep => .sleep
  | .finalDrain | .finalInsert _ | .exited => .leaving

structure Dial where
  phase : Phase
  loopStart : Int
  nextMaintenance : Int

def Pipeline.dial (p : Pipeline) : Dial := ⟨p.pc.phase, p.loopStart, p.nextMaintenance⟩

/-- One step of the loop at the time `now`. -/
inductive Dial.Turns (running : Bool) (now : Int) (d : Dial) : Dial → Prop
  | enter (hphase : d.phase = .head) (hrunning : running = true) :
      Turns running now d { d with phase := .refresh, loopStart := now }
  | leave (hphase : d.phase = .head) (hrunning : running = false) :
      Turns running now d { d with phase := .leaving }
  | refresh (hphase : d.phase = .refresh) : Turns running now d { d with phase := .flush }
  | flush (hphase : d.phase = .flush) : Turns running now d d
  | flushed (hphase : d.phase = .flush) : Turns running now d { d with phase := .maintenance }
  | maintain (hphase : d.phase = .maintenance) (hdue : d.nextMaintenance ≤ d.loopStart) :
      Turns running now d { d with
        phase := .sleep
        nextMaintenance := d.loopStart + 3600000 }
  | later (hphase : d.phase = .maintenance) (hdue : d.loopStart < d.nextMaintenance) :
      Turns running now d { d with phase := .sleep }
  | wake (hphase : d.phase = .sleep) : Turns running now d { d with phase := .head }
  | gone (hphase : d.phase = .leaving) : Turns running now d d

variable {kopeksOf : Text → Option Kopek} {cfg : Config} {p q : Pipeline} {a : Act} {env : Env}

theorem Pc.phase_eq_head {pc : Pc} : pc.phase = .head ↔ pc = .loopHead := by
  cases pc <;> simp [phase]

theorem Pc.phase_eq_refresh {pc : Pc} : pc.phase = .refresh ↔ pc = .refresh := by
  cases pc <;> simp [phase]

theorem Pc.phase_eq_sleep {pc : Pc} : pc.phase = .sleep ↔ pc = .sleep := by
  cases pc <;> simp [phase]

theorem Pc.phase_eq_maintenance {pc : Pc} : pc.phase = .maintenance ↔ pc = .maintenance := by
  cases pc <;> simp [phase]

/-- Where the worker stands, with the rest of the pipeline as it was. -/
theorem dial_at {p : Pipeline} {pc : Pc} (h : p.pc = pc) :
    p.dial = ⟨pc.phase, p.loopStart, p.nextMaintenance⟩ := by
  rw [Pipeline.dial, h]

theorem Moves.turns (hm : Moves kopeksOf cfg p (.worker env) q) :
    p.dial.Turns p.running env.steady q.dial := by
  cases hm with
  | enter hpc hrunning => exact .enter (by rw [dial_at hpc]; rfl) hrunning
  | leave hpc hrunning => exact .leave (by rw [dial_at hpc]; rfl) hrunning
  | refresh hpc => exact .refresh (by rw [dial_at hpc]; rfl)
  | drainEvents hpc =>
      rcases hpc with ⟨hpc, rfl⟩ | ⟨hpc, rfl⟩
      · rw [dial_at hpc]
        exact .flush rfl
      · rw [dial_at hpc]
        exact .gone rfl
  | write hpc hclean hcall =>
      rcases hpc with ⟨hpc, rfl⟩ | ⟨hpc, rfl⟩
      · rw [dial_at hpc]
        exact .flush rfl
      · rw [dial_at hpc]
        exact .gone rfl
  | writeFails hpc hclean =>
      rcases hpc with ⟨hpc, rfl⟩ | ⟨hpc, rfl⟩
      · rw [dial_at hpc]
        exact .flushed rfl
      · rw [dial_at hpc]
        exact .gone rfl
  | drainConversions hpc | judge hpc _ =>
      rw [dial_at hpc]
      exact .flush rfl
  | flushed hpc | judgeFails hpc _ =>
      rw [dial_at hpc]
      exact .flushed rfl
  | maintain hpc hdue hok =>
      rw [dial_at hpc]
      exact .maintain rfl hdue
  | maintainFails hpc hdue hevents =>
      rw [dial_at hpc]
      exact .maintain rfl hdue
  | maintainLater hpc hdue =>
      rw [dial_at hpc]
      exact .later rfl hdue
  | wake hpc =>
      rw [dial_at hpc]
      exact .wake rfl

theorem Moves.running_worker (hm : Moves kopeksOf cfg p (.worker env) q) :
    q.running = p.running := by
  cases hm <;> rfl

/-- The HTTP thread and `main` do not turn the dial. -/
theorem Moves.dial_eq (hm : Moves kopeksOf cfg p a q) (hother : ∀ env, a ≠ .worker env) :
    q.dial = p.dial := by
  cases hm with
  | accept | refuse | reject | ack | stopServer | stopWorker => rfl
  | _ => exact absurd rfl (hother _)

end SSize
