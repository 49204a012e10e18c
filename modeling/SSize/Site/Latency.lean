import SSize.Server.Provenance
import SSize.Site.Timetable

/-!
# How long what was taken waits

In a punctual run in which no statement fails, an event that was accepted is in its table
two rounds later, and a postback that was answered 200 has been handed to
`record_conversion`. So no end of the process loses more than the last two rounds.
-/

namespace SSize

open Lib Site

/-! ## The queues in a round -/

/-- The loop has emptied the event queue in this round. -/
def Pc.pastDrain : Pc → Bool
  | .loopHead | .insertEvents _ | .drainConversions | .recordConversions _ | .maintenance
  | .sleep | .finalInsert _ | .exited => true
  | .refresh | .drainEvents | .finalDrain => false

/-- The same for the postbacks, which the last flush leaves out. -/
def Pc.pastConversionDrain : Pc → Bool
  | .loopHead | .recordConversions _ | .maintenance | .sleep => true
  | .refresh | .drainEvents | .insertEvents _ | .drainConversions | .finalDrain
  | .finalInsert _ | .exited => false

variable {kopeksOf : Text → Option Kopek} {cfg : Config} {p q : Pipeline} {b : Act}

theorem Moves.lost_eq (hm : Moves kopeksOf cfg p b q)
    (hfailures : q.seen.failures = p.seen.failures) :
    q.seen.lostEvents = p.seen.lostEvents ∧ q.seen.lostConversions = p.seen.lostConversions := by
  cases hm with
  | writeFails | judgeFails | maintainFails => exact absurd hfailures (Nat.succ_ne_self _)
  | _ => exact ⟨rfl, rfl⟩

/-- A queue counts as emptied in this round when it was, or now is. -/
theorem Moves.pastDrain (hm : Moves kopeksOf cfg p b q)
    (hpast : q.pc.pastDrain = true) : p.pc.pastDrain = true ∨ q.events.pending = [] := by
  cases hm with
  | accept | refuse | reject | ack | stopServer | stopWorker => exact Or.inl hpast
  | enter | leave | refresh => simp [Pc.pastDrain] at hpast
  | drainEvents => exact Or.inr rfl
  | write hpc | writeFails hpc =>
      rcases hpc with ⟨hpc, -⟩ | ⟨hpc, -⟩ <;> exact Or.inl (by rw [hpc]; rfl)
  | drainConversions hpc | flushed hpc | judge hpc | judgeFails hpc | maintain hpc
  | maintainFails hpc | maintainLater hpc | wake hpc =>
      exact Or.inl (by rw [hpc]; rfl)

theorem Moves.pastConversionDrain (hm : Moves kopeksOf cfg p b q)
    (hfailures : q.seen.failures = p.seen.failures)
    (hpast : q.pc.pastConversionDrain = true) :
    p.pc.pastConversionDrain = true ∨ q.conversions.pending = [] := by
  cases hm with
  | accept | refuse | reject | ack | stopServer | stopWorker => exact Or.inl hpast
  | enter | leave | refresh => simp [Pc.pastConversionDrain] at hpast
  | drainEvents hpc | write hpc =>
      rcases hpc with ⟨-, rfl⟩ | ⟨-, rfl⟩ <;> simp [Pc.pastConversionDrain] at hpast
  | drainConversions => exact Or.inr rfl
  | writeFails | judgeFails | maintainFails => exact absurd hfailures (Nat.succ_ne_self _)
  | flushed hpc | judge hpc | maintain hpc | maintainLater hpc | wake hpc =>
      exact Or.inl (by rw [hpc]; rfl)

theorem Moves.of_loopHead {env : Env} (hm : Moves kopeksOf cfg p (.worker env) q)
    (hpc : p.pc = .loopHead) : q.pc = .refresh ∨ q.pc = .finalDrain := by
  cases hm with
  | enter => exact Or.inl rfl
  | leave => exact Or.inr rfl
  | drainEvents hother | write hother | writeFails hother =>
      rcases hother with ⟨hother, -⟩ | ⟨hother, -⟩ <;> simp [hpc] at hother
  | refresh hother | drainConversions hother | flushed hother | judge hother | judgeFails hother
  | maintain hother | maintainFails hother | maintainLater hother | wake hother =>
      simp [hpc] at hother

/-! ## The queues of the process -/

variable {lib : Library} {s t : Site} {a : SiteAct} {length : Nat}

/-- Within one process a step moves the pipeline in the same round, or begins the next. -/
theorem SiteMoves.pipeline (hm : SiteMoves lib s a t) (hstart : a ≠ .startWorker) :
    (t.server.pipeline = s.server.pipeline ∧ t.times.round = s.times.round) ∨
      (∃ b, Moves lib.kopeksOf s.server.cfg s.server.pipeline b t.server.pipeline ∧
        t.times.round = s.times.round) ∨
      ∃ env, Moves lib.kopeksOf s.server.cfg s.server.pipeline (.worker env) t.server.pipeline ∧
        s.stage.working = true ∧ s.server.pipeline.pc = .loopHead ∧
        t.times.round = s.clock := by
  have hmove : ∀ {b : Act} {server : Server}, s.server.pipelineStep lib b = some server →
      Moves lib.kopeksOf s.server.cfg s.server.pipeline b server.pipeline := by
    intro b server hstep
    obtain ⟨p, hp, rfl⟩ := pipelineStep_eq_some.1 hstep
    exact step_moves _ _ hp
  cases hm with
  | elapse | commit | boot | bootFails | read | booted | startServer | down =>
      exact Or.inl ⟨rfl, rfl⟩
  | startWorker => exact absurd rfl hstart
  | swap hdue _ _ | refreshFails hdue =>
      exact Or.inr (Or.inl ⟨.worker {}, .refresh hdue.2.1, rfl⟩)
  | request hstage hstep =>
      rw [serverStep, Option.ite_none_right_eq_some] at hstep
      obtain ⟨-, hstep⟩ := hstep
      cases hstep
      exact Or.inl ⟨rfl, rfl⟩
  | push hstage hstep =>
      rw [serverStep] at hstep
      split at hstep
      · simp at hstep
      · next effect rest htodo =>
          obtain ⟨p, hp, rfl⟩ := pipelineStep_eq_some.1 hstep
          exact Or.inr (Or.inl ⟨effect.act, step_moves _ _ hp, rfl⟩)
  | stopServer hstage hstep =>
      rw [serverStep, Option.ite_none_right_eq_some] at hstep
      exact Or.inr (Or.inl ⟨_, hmove hstep.2, rfl⟩)
  | stopWorker hstage hstep => exact Or.inr (Or.inl ⟨_, hmove hstep, rfl⟩)
  | worker hworking hdue hwake hstep =>
      by_cases hpc : s.server.pipeline.pc = .loopHead
      · exact Or.inr (Or.inr ⟨_, hmove hstep, hworking, hpc, if_pos hpc⟩)
      · exact Or.inr (Or.inl ⟨_, hmove hstep, if_neg hpc⟩)

/-- What was in the two queues, or through them, at the time `since`. -/
structure Site.Waits (since : Int) (length : Nat) (events : List Event)
    (conversions : List Conversion) (s : Site) : Prop where
  events : s.server.pipeline.eventHandoff.Waits since length events s.times.round
    s.server.pipeline.pc.pastDrain
  conversions : s.server.pipeline.conversionHandoff.Waits since length conversions
    s.times.round s.server.pipeline.pc.pastConversionDrain

variable {since : Int} {events : List Event} {conversions : List Conversion}

theorem Site.Waits.step (h : s.Waits since length events conversions)
    (honTime : s.clockwork.OnTime length) (hm : SiteMoves lib s a t) (hstart : a ≠ .startWorker)
    (hfailures : t.server.pipeline.seen.failures = s.server.pipeline.seen.failures) :
    t.Waits since length events conversions := by
  rcases hm.pipeline hstart with ⟨hsame, hround⟩ | ⟨b, hb, hround⟩ |
    ⟨env, henv, hworking, hpc, hround⟩
  · constructor
    · rw [hsame, hround]
      exact h.events
    · rw [hsame, hround]
      exact h.conversions
  · obtain ⟨hlost, hlost'⟩ := hb.lost_eq hfailures
    constructor
    · rw [hround]
      exact h.events.move hb.events hlost hb.pastDrain
    · rw [hround]
      exact h.conversions.move hb.conversions hlost' (hb.pastConversionDrain hfailures)
  · -- The top of the loop: both batches of the last round are through.
    obtain ⟨hlost, hlost'⟩ := henv.lost_eq hfailures
    have hclock : s.clock ≤ s.times.round + length :=
      (Clockwork.onTime_working (c := s.clockwork) hworking).1 honTime
    have hevents := h.events
    have hconversions := h.conversions
    rw [hpc] at hevents hconversions
    have hbatch : s.server.pipeline.eventHandoff.batch = [] := congrArg Pc.events hpc
    have hbatch' : s.server.pipeline.conversionHandoff.batch = [] := congrArg Pc.conversions hpc
    have hnext : t.server.pipeline.pc.pastDrain = false ∧
        t.server.pipeline.pc.pastConversionDrain = false := by
      rcases henv.of_loopHead hpc with hpc' | hpc' <;> rw [hpc'] <;> exact ⟨rfl, rfl⟩
    constructor
    · rw [hround, hnext.1]
      exact (hevents.next hbatch hclock).move henv.events hlost (by simp)
    · rw [hround, hnext.2]
      exact (hconversions.next hbatch' hclock).move henv.conversions hlost' (by simp)

def SiteAct.startsWorker : SiteAct → Bool
  | .startWorker => true
  | _ => false

/-- The steps of one process that is punctual. -/
def OneProcess (length : Nat) (s : Site) (a : SiteAct) : Prop :=
  s.clockwork.Punctual length a ∧ a.startsWorker = false

instance (s : Site) : DecidablePred (OneProcess length s) :=
  fun a => inferInstanceAs (Decidable (_ ∧ a.startsWorker = false))

theorem OneProcess.ne (h : OneProcess length s a) : a ≠ .startWorker := by
  rintro rfl
  cases h.2

theorem SiteMoves.failures_le (hm : SiteMoves lib s a t) (hstart : a ≠ .startWorker) :
    s.server.pipeline.seen.failures ≤ t.server.pipeline.seen.failures := by
  rcases hm.pipeline hstart with ⟨hsame, -⟩ | ⟨b, hb, -⟩ | ⟨env, henv, -⟩
  · rw [hsame]
  · exact hb.failures_le
  · exact henv.failures_le

/-- The hand-overs of a run in which nothing fails. -/
theorem waits_run {bs : List SiteAct} (honTime : s.clockwork.OnTime length)
    (hwaits : s.Waits since length events conversions)
    (halong : Runs.Along (siteStep lib) (OneProcess length) s bs)
    (hrun : Runs.exec (siteStep lib) s bs = some t)
    (hfailures : t.server.pipeline.seen.failures = s.server.pipeline.seen.failures) :
    t.clockwork.OnTime length ∧ t.Waits since length events conversions := by
  have hkept : t.clockwork.OnTime length ∧
      s.server.pipeline.seen.failures ≤ t.server.pipeline.seen.failures ∧
      (t.server.pipeline.seen.failures = s.server.pipeline.seen.failures →
        t.Waits since length events conversions) := by
    refine Runs.exec_invariant_along (I := fun u => u.clockwork.OnTime length ∧
      s.server.pipeline.seen.failures ≤ u.server.pipeline.seen.failures ∧
      (u.server.pipeline.seen.failures = s.server.pipeline.seen.failures →
        u.Waits since length events conversions)) ?_ ⟨honTime, le_rfl, fun _ => hwaits⟩
      halong hrun
    rintro u a v ⟨honTime, hle, hwaits⟩ hone huv
    have hm := siteStep_moves huv
    have hgrows := hm.failures_le hone.ne
    refine ⟨honTime.tick hone.1 hm.ticks, hle.trans hgrows, fun hsame => ?_⟩
    exact (hwaits (by omega)).step honTime hm hone.ne (by omega)
  exact ⟨hkept.1, hkept.2.2 hfailures⟩

theorem onTime_run {db : CatalogDb} {clock : Int} {as : List SiteAct}
    (halong : Runs.Along (siteStep lib) (fun s a => s.clockwork.Punctual length a)
      (.init db clock) as)
    (hrun : Runs.exec (siteStep lib) (.init db clock) as = some s) :
    s.clockwork.OnTime length := by
  refine Runs.exec_invariant_along (I := fun s => s.clockwork.OnTime length) ?_ ?_ halong hrun
  · intro u a v hu hpunctual huv
    exact hu.tick hpunctual (siteStep_moves huv).ticks
  · simp [Clockwork.OnTime, Clockwork.deadline, Site.clockwork, Site.init]

theorem provenance_run {db : CatalogDb} {clock : Int} {as : List SiteAct}
    (hrun : Runs.exec (siteStep lib) (.init db clock) as = some s) : Provenance s.server := by
  refine Runs.exec_invariant (I := fun s => Provenance s.server) ?_
    (Provenance.init {} clock) hrun
  intro u a v hu huv
  obtain ⟨bs, hbs⟩ := (siteStep_moves huv).server
  refine Runs.exec_invariant (I := Provenance) ?_ hu hbs
  intro x b y hx hxy
  exact hx.step hxy

/-- A redirect is answered before the first round, and three rounds follow. -/
def afterTheClick : List SiteAct :=
  idleRound ++ [.elapse 1000, .worker {}] ++
    (List.replicate 2 (List.replicate 7 (.worker {}) ++ [.elapse 1000, .worker {}])).flatten

end SSize
