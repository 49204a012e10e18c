import SSize.Retention.Counters
import SSize.Server.Clicks

/-!
# The daily statistics as a plain count of requests

`Books` is what a calm run keeps for a day `D` at any time: an event that was logged
is flushed, in flight or was lost with its process, and until a maintenance call
reads the day after next, the rows of `D` are those of the flushed events. The first
call on the day after, once all of `D` is flushed, settles the day: from then on
nothing in flight is of `D`, and no later rollup or prune changes its rows in the
statistics.
-/

namespace SSize

open Lib

/-! ## What a step of the server moves -/

/-- The events that this step logs. -/
def Server.logging (lib : Library) (s : Server) : ServerAct → List Event
  | .request amb req peer => eventsOf (s.reply lib amb req peer).effects
  | _ => []

/-- The batch that this step writes. -/
def Server.flushing (s : Server) : ServerAct → List Event
  | .worker env => s.pipeline.flushing (.worker env)
  | _ => []

/-- The clock reading of this step if it is a maintenance call. -/
def Server.maintaining (s : Server) : ServerAct → Option TsMs
  | .worker env => s.pipeline.maintaining (.worker env)
  | _ => none

/-- The events that were logged and are not written yet. -/
def Server.inFlight (s : Server) : List Event := s.pipeline.inFlight ++ eventsOf s.todo

/-- A calm step, seen from the events. `lost` is what a restart takes with it. -/
structure Flow (lib : Library) (s : Server) (a : ServerAct) (t : Server) : Prop where
  conserved : ∃ lost, s.inFlight ++ s.logging lib a = s.flushing a ++ (t.inFlight ++ lost)
  log : (s.maintaining a = none ∧
      t.pipeline.db.events.rows = s.pipeline.db.events.rows ++ (s.flushing a).map eventRow ∧
      t.pipeline.db.dailyItemStats = s.pipeline.db.dailyItemStats) ∨
    ∃ now, s.maintaining a = some now ∧ s.flushing a = [] ∧
      t.pipeline.db = (maintenance { now := now } s.cfg.eventRetentionDays s.pipeline.db).1
  cfg : t.cfg = s.cfg ∨ ∃ started, a = .restart t.cfg started

variable {lib : Library} {s t : Server} {a : ServerAct}

/-- A step of the pipeline under the server. -/
theorem Flow.of_step {b : Act} {p : Pipeline} {todo : List Effect}
    (hp : step lib.kopeksOf s.cfg s.pipeline b = some p) (hcalm : p.Calm)
    (hlogging : s.logging lib a = []) (hflushing : s.flushing a = s.pipeline.flushing b)
    (hmaintaining : s.maintaining a = s.pipeline.maintaining b)
    (htodo : eventsOf s.todo = b.pushed ++ eventsOf todo) :
    Flow lib s a { s with todo := todo, pipeline := p } where
  conserved := by
    have hm := step_moves lib.kopeksOf s.cfg hp
    refine ⟨[], ?_⟩
    rw [hlogging, hflushing, List.append_nil, List.append_nil, Server.inFlight, Server.inFlight,
      htodo, ← List.append_assoc, hm.inFlight hcalm, List.append_assoc]
  log := by
    rw [hflushing, hmaintaining]
    exact (step_moves lib.kopeksOf s.cfg hp).log hcalm
  cfg := Or.inl rfl

theorem calmStep_flow (h : calmStep lib s a = some t) : Flow lib s a t := by
  obtain ⟨hserver, hcalm⟩ := calmStep_eq_some.1 h
  cases a with
  | request amb req peer =>
      rw [serverStep] at hserver
      split at hserver
      · next hfree =>
          cases hserver
          rw [Bool.and_eq_true, List.isEmpty_iff] at hfree
          refine ⟨⟨[], ?_⟩, Or.inl ⟨rfl, ?_, rfl⟩, Or.inl rfl⟩
          · simp only [Server.inFlight, hfree.2, Server.flushing, Server.logging, Server.reply,
              eventsOf, List.filterMap_nil, List.append_nil, List.nil_append]
          · exact (List.append_nil _).symm
      · simp at hserver
  | push =>
      rw [serverStep] at hserver
      split at hserver
      · simp at hserver
      · next effect rest htodo =>
          obtain ⟨p, hp, rfl⟩ := pipelineStep_eq_some.1 hserver
          cases effect with
          | event ev => exact .of_step hp hcalm rfl rfl rfl (by rw [htodo]; rfl)
          | postback now q => exact .of_step hp hcalm rfl rfl rfl (by rw [htodo]; rfl)
  | setCatalog catalog =>
      cases hserver
      refine ⟨⟨[], ?_⟩, Or.inl ⟨rfl, (List.append_nil _).symm, rfl⟩, Or.inl rfl⟩
      simp [Server.inFlight, Server.logging, Server.flushing]
  | stopServer =>
      rw [serverStep] at hserver
      split at hserver
      · obtain ⟨p, hp, rfl⟩ := pipelineStep_eq_some.1 hserver
        exact .of_step hp hcalm rfl rfl rfl rfl
      · simp at hserver
  | stopWorker =>
      obtain ⟨p, hp, rfl⟩ := pipelineStep_eq_some.1 hserver
      exact .of_step hp hcalm rfl rfl rfl rfl
  | worker env =>
      obtain ⟨p, hp, rfl⟩ := pipelineStep_eq_some.1 hserver
      exact .of_step hp hcalm rfl rfl rfl rfl
  | restart cfg started =>
      cases hserver
      refine ⟨⟨s.inFlight, ?_⟩, Or.inl ⟨rfl, (List.append_nil _).symm, rfl⟩,
        Or.inr ⟨started, rfl⟩⟩
      simp [Server.inFlight, Server.logging, Server.flushing, Pipeline.init, Pipeline.inFlight,
        Pc.events, EventQueue.empty, eventsOf]

/-! ## What a calm run keeps -/

/-- A worker's reading of the clock is not after those of later steps. -/
def ServerAct.NotBack : ServerAct → ServerAct → Prop
  | .worker env, .worker env' => env.now ≤ env'.now
  | .worker env, .request amb _ _ => ∀ k, env.now ≤ amb.clock k
  | _, _ => True

/-- Every process keeps events for three days or more, the item pages render, and
the clock does not go back. -/
structure Ordinary (acts : List ServerAct) : Prop where
  keeps : ∀ cfg started, ServerAct.restart cfg started ∈ acts → 3 ≤ cfg.eventRetentionDays
  renders : ∀ amb req peer, ServerAct.request amb req peer ∈ acts → RendersItems amb
  clock : acts.Pairwise ServerAct.NotBack

abbrev Steps := List (Server × ServerAct)

def Steps.logged (lib : Library) (tr : Steps) : List Event :=
  tr.flatMap fun e => e.1.logging lib e.2

def Steps.flushed (tr : Steps) : List Event := tr.flatMap fun e => e.1.flushing e.2

/-- The clock readings of the maintenance calls. -/
def Steps.readings (tr : Steps) : List TsMs := tr.filterMap fun e => e.1.maintaining e.2

def onDay (day : Int) (ev : Event) : Bool := dayOf ev.ts == day

structure Books (lib : Library) (day : Int) (tr : Steps) (s : Server) : Prop where
  keeps : 3 ≤ s.cfg.eventRetentionDays
  conserved : ∃ lost, (tr.logged lib).Perm (tr.flushed ++ (s.inFlight ++ lost))
  /-- Up to the last call that reads the day after, its rows are all there. -/
  intact : (∀ now ∈ tr.readings, dayOf now ≤ day + 1) → ∀ item,
    countedOn s.pipeline.db.events.rows day item = countedOn (tr.flushed.map eventRow) day item
  earned : (∀ now ∈ tr.readings, dayOf now ≤ day + 1) → ∀ item row,
    s.pipeline.db.dailyItemStats.find? (day, item) = some row →
      countedOn s.pipeline.db.events.rows day item ≠ []

@[simp] theorem Steps.logged_concat (tr : Steps) :
    Steps.logged lib (tr ++ [(s, a)]) = tr.logged lib ++ s.logging lib a := by
  simp [Steps.logged]

@[simp] theorem Steps.flushed_concat (tr : Steps) :
    Steps.flushed (tr ++ [(s, a)]) = tr.flushed ++ s.flushing a := by
  simp [Steps.flushed]

@[simp] theorem Steps.readings_concat (tr : Steps) :
    Steps.readings (tr ++ [(s, a)]) = tr.readings ++ (s.maintaining a).toList := by
  cases h : s.maintaining a <;> simp [Steps.readings, h]

theorem Books.init {cfg : Config} (hkeeps : 3 ≤ cfg.eventRetentionDays) (day started : Int) :
    Books lib day [] (.init cfg started) where
  keeps := hkeeps
  conserved := ⟨[], .refl _⟩
  intact _ _ := rfl
  earned _ item row hrow := by simp [Server.init, Pipeline.init, Table.find?] at hrow

variable {day : Int} {tr : Steps}

/-- A maintenance call leaves the rows of yesterday and later. -/
theorem countedOn_maintenance {days now : Int} (hdays : 3 ≤ days) (hday : dayOf now ≤ day + 1)
    (db : Db) (item : Int) :
    countedOn (maintenance { now := now } days db).1.events.rows day item =
      countedOn db.events.rows day item := by
  obtain ⟨n, rfl⟩ := Int.eq_ofNat_of_zero_le (show 0 ≤ days by omega)
  have hretains : Retains n now := Or.inl (by omega)
  have hyesterday : now.tdiv dayMs - 1 ≤ day := by
    unfold dayOf at hday
    omega
  rw [maintenance_ok (congrArg Prod.snd (maintenance_clean now n db))]
  exact countedOn_prune hretains db.events.rows item hyesterday

theorem Books.step (hb : Books lib day tr s) (hflow : Flow lib s a t)
    (hkeeps : ∀ cfg started, a = .restart cfg started → 3 ≤ cfg.eventRetentionDays) :
    Books lib day (tr ++ [(s, a)]) t where
  keeps := by
    rcases hflow.cfg with hcfg | ⟨started, ha⟩
    · rw [hcfg]
      exact hb.keeps
    · exact hkeeps _ _ ha
  conserved := by
    obtain ⟨lost, hlost⟩ := hb.conserved
    obtain ⟨gone, hgone⟩ := hflow.conserved
    refine ⟨gone ++ lost, ?_⟩
    rw [Steps.logged_concat, Steps.flushed_concat]
    calc (tr.logged lib ++ s.logging lib a).Perm
          (tr.flushed ++ (s.inFlight ++ lost) ++ s.logging lib a) := hlost.append_right _
      _ = tr.flushed ++ (s.inFlight ++ (lost ++ s.logging lib a)) := by simp
      (tr.flushed ++ (s.inFlight ++ (lost ++ s.logging lib a))).Perm
          (tr.flushed ++ (s.inFlight ++ (s.logging lib a ++ lost))) :=
        (List.perm_append_comm.append_left _).append_left _
      _ = tr.flushed ++ ((s.inFlight ++ s.logging lib a) ++ lost) := by simp
      _ = tr.flushed ++ s.flushing a ++ (t.inFlight ++ (gone ++ lost)) := by simp [hgone]
  intact hreadings item := by
    rw [Steps.readings_concat] at hreadings
    have hrows := hb.intact (fun now hnow => hreadings now (List.mem_append_left _ hnow)) item
    rw [Steps.flushed_concat, List.map_append, countedOn_append]
    rcases hflow.log with ⟨-, hwritten, -⟩ | ⟨now, hnow, hflushing, hdb⟩
    · rw [hwritten, countedOn_append, hrows]
    · have hday : dayOf now ≤ day + 1 := hreadings now (by simp [hnow])
      rw [hdb, hflushing, countedOn_maintenance hb.keeps hday, hrows]
      exact (List.append_nil _).symm
  earned hreadings item row hrow := by
    rw [Steps.readings_concat] at hreadings
    have hearned := hb.earned (fun now hnow => hreadings now (List.mem_append_left _ hnow)) item
    rcases hflow.log with ⟨-, hwritten, hdaily⟩ | ⟨now, hnow, -, hdb⟩
    · rw [hdaily] at hrow
      rw [hwritten, countedOn_append]
      exact List.append_ne_nil_of_left_ne_nil (hearned row hrow) _
    · have hday : dayOf now ≤ day + 1 := hreadings now (by simp [hnow])
      rw [hdb, find?_maintenance] at hrow
      rw [hdb, countedOn_maintenance hb.keeps hday]
      split at hrow
      · next hcounted => exact hcounted.2.2
      · exact hearned row hrow

/-! ## A settled day -/

/-- The row of the day and item, all counters 0 when it is absent. -/
def statsOn (daily : DailyTable) (day item : Int) : DailyRow :=
  (daily.find? (day, item)).getD { day := day, itemId := item }

/-- The day is over, and its rows in the statistics are final. -/
structure Settled (lib : Library) (day : Int) (tr : Steps) (s : Server) : Prop
    extends Books lib day tr s where
  closed : ∃ e ∈ tr, ∃ env, e.2 = .worker env ∧ dayOf env.now = day + 1
  idle : ∀ ev ∈ s.inFlight, dayOf ev.ts ≠ day
  same : ((tr.logged lib).filter (onDay day)).Perm (tr.flushed.filter (onDay day))
  final : ∀ item, statsOn s.pipeline.db.dailyItemStats day item =
    recount (tr.flushed.map eventRow) day item

/-- Once all that was logged of the day is flushed, nothing of it is in flight. -/
theorem Books.idle (hb : Books lib day tr s)
    (hflushed : ((tr.logged lib).filter (onDay day)).Subperm tr.flushed) :
    (∀ ev ∈ s.inFlight, dayOf ev.ts ≠ day) ∧
      ((tr.logged lib).filter (onDay day)).Perm (tr.flushed.filter (onDay day)) := by
  obtain ⟨lost, hlost⟩ := hb.conserved
  have hsplit := (hlost.filter (onDay day)).length_eq
  have hwithin := hflushed.filter (onDay day)
  have hself : ((tr.logged lib).filter (onDay day)).filter (onDay day) =
      (tr.logged lib).filter (onDay day) := by simp
  rw [hself] at hwithin
  have hle := hwithin.length_le
  rw [List.filter_append, List.filter_append, List.length_append, List.length_append] at hsplit
  have hnone : (s.inFlight.filter (onDay day)).length = 0 := by omega
  refine ⟨fun ev hev hday => ?_, hwithin.perm_of_length_le (by omega)⟩
  have hmem : ev ∈ s.inFlight.filter (onDay day) :=
    List.mem_filter.2 ⟨hev, by simp [onDay, hday]⟩
  rw [List.length_eq_zero_iff.1 hnone] at hmem
  exact List.not_mem_nil hmem

theorem recount_congr {rows rows' : List EventRow} {item : Int}
    (h : countedOn rows day item = countedOn rows' day item) :
    recount rows day item = recount rows' day item := by
  simp only [recount, h]

theorem recount_of_nil {rows : List EventRow} {item : Int} (h : countedOn rows day item = []) :
    recount rows day item = { day := day, itemId := item } := by
  simp [recount, h, sumType]

/-- The maintenance call that settles the day. -/
theorem Books.settle (hb : Books lib day tr s) {env : Env}
    (hnow : s.maintaining (.worker env) = some env.now) (hday : dayOf env.now = day + 1)
    (hflushed : ((tr.logged lib).filter (onDay day)).Subperm tr.flushed)
    (hclock : ∀ now ∈ tr.readings, now ≤ env.now) (hflow : Flow lib s (.worker env) t) :
    Settled lib day (tr ++ [(s, .worker env)]) t := by
  obtain ⟨hidle, hsame⟩ := hb.idle hflushed
  have hreadings : ∀ now ∈ tr.readings, dayOf now ≤ day + 1 := fun now hmem =>
    hday ▸ dayOf_mono (hclock now hmem)
  obtain ⟨hnone, -, -⟩ | ⟨now, hsome, hflushing, hdb⟩ := hflow.log
  · simp [hnow] at hnone
  rw [hnow, Option.some.injEq] at hsome
  subst hsome
  have hlogging : s.logging lib (.worker env) = [] := rfl
  refine ⟨hb.step hflow (fun _ _ ha => by simp at ha),
    ⟨_, List.mem_append_right _ (List.mem_singleton_self _), env, rfl, hday⟩, ?_, ?_, ?_⟩
  · intro ev hev
    obtain ⟨lost, hlost⟩ := hflow.conserved
    rw [hflushing, List.nil_append, hlogging, List.append_nil] at hlost
    exact hidle ev (hlost ▸ List.mem_append_left lost hev)
  · rw [Steps.logged_concat, Steps.flushed_concat, hflushing, hlogging, List.append_nil,
      List.append_nil]
    exact hsame
  · intro item
    have hrows := hb.intact hreadings item
    rw [Steps.flushed_concat, hflushing, List.append_nil, statsOn, hdb, find?_maintenance]
    split
    · exact recount_congr hrows
    · next hrange =>
        have hnil : countedOn s.pipeline.db.events.rows day item = [] := by
          by_contra hcounted
          refine hrange ⟨?_, ?_, hcounted⟩
          · unfold dayOf at hday
            omega
          · unfold dayOf at hday
            omega
        rw [recount_of_nil (hrows ▸ hnil)]
        cases hold : s.pipeline.db.dailyItemStats.find? (day, item) with
        | none => rfl
        | some row => exact absurd hnil (hb.earned hreadings item row hold)

/-- What a request logs after a worker's step is stamped no earlier. -/
theorem NotBack.logging {env : Env} (h : ServerAct.NotBack (.worker env) a) :
    ∀ ev ∈ s.logging lib a, env.now ≤ ev.ts := by
  intro ev hev
  cases a with
  | request amb req peer =>
      obtain ⟨k, hts⟩ := (dispatch_logged lib s.cfg amb s.catalog s.cache req
        (clientAddress req peer)).ts hev
      rw [hts]
      exact h k
  | _ => simp [Server.logging] at hev

theorem maintaining_eq_some {now : TsMs} (h : s.maintaining a = some now) :
    ∃ env, a = .worker env ∧ env.now = now := by
  cases a with
  | worker env =>
      rw [Server.maintaining, Pipeline.maintaining, Option.ite_none_right_eq_some] at h
      exact ⟨env, rfl, Option.some.inj h.2⟩
  | _ => simp [Server.maintaining] at h

/-- No maintenance call so far is later than this one. -/
theorem readings_le {now : TsMs} (hclock : ∀ e ∈ tr, ServerAct.NotBack e.2 a)
    (hnow : s.maintaining a = some now) : ∀ earlier ∈ tr.readings, earlier ≤ now := by
  intro earlier hmem
  obtain ⟨e, he, hearlier⟩ := List.mem_filterMap.1 hmem
  obtain ⟨env, hworker, rfl⟩ := maintaining_eq_some hearlier
  obtain ⟨env', rfl, rfl⟩ := maintaining_eq_some hnow
  have hle := hclock e he
  rw [hworker] at hle
  exact hle

theorem filter_onDay_of_other {events : List Event} (h : ∀ ev ∈ events, dayOf ev.ts ≠ day) :
    events.filter (onDay day) = [] := by
  rw [List.filter_eq_nil_iff]
  intro ev hev
  simp [onDay, h ev hev]

theorem countedOn_of_other {events : List Event} (h : ∀ ev ∈ events, dayOf ev.ts ≠ day)
    (item : Int) : countedOn (events.map eventRow) day item = [] := by
  rw [countedOn, List.filter_eq_nil_iff]
  intro r hr
  obtain ⟨ev, hev, rfl⟩ := List.mem_map.1 hr
  have hts : dayOf (eventRow ev).ts ≠ day := h ev hev
  simp [hts]

/-- Neither later requests and flushes nor later maintenance calls reach the day. -/
theorem Settled.step (hs : Settled lib day tr s) (hflow : Flow lib s a t)
    (hkeeps : ∀ cfg started, a = .restart cfg started → 3 ≤ cfg.eventRetentionDays)
    (hclock : ∀ e ∈ tr, ServerAct.NotBack e.2 a) : Settled lib day (tr ++ [(s, a)]) t := by
  obtain ⟨e, he, env, hworker, hday⟩ := hs.closed
  have hlater : ServerAct.NotBack (.worker env) a := hworker ▸ hclock e he
  have hlogged : ∀ ev ∈ s.logging lib a, dayOf ev.ts ≠ day := by
    intro ev hev
    have hle := dayOf_mono (NotBack.logging hlater ev hev)
    omega
  obtain ⟨lost, hlost⟩ := hflow.conserved
  have hmoved : ∀ ev ∈ s.flushing a ++ (t.inFlight ++ lost), dayOf ev.ts ≠ day := by
    intro ev hev
    rw [← hlost, List.mem_append] at hev
    exact hev.elim (hs.idle ev) (hlogged ev)
  have hflushed : ∀ ev ∈ s.flushing a, dayOf ev.ts ≠ day :=
    fun ev hev => hmoved ev (List.mem_append_left _ hev)
  refine ⟨hs.toBooks.step hflow hkeeps, ⟨e, List.mem_append_left _ he, env, hworker, hday⟩,
    fun ev hev => hmoved ev (List.mem_append_right _ (List.mem_append_left _ hev)), ?_, ?_⟩
  · rw [Steps.logged_concat, Steps.flushed_concat, List.filter_append, List.filter_append,
      filter_onDay_of_other hlogged, filter_onDay_of_other hflushed, List.append_nil,
      List.append_nil]
    exact hs.same
  · intro item
    have htotal : recount ((Steps.flushed (tr ++ [(s, a)])).map eventRow) day item =
        recount (tr.flushed.map eventRow) day item := by
      apply recount_congr
      rw [Steps.flushed_concat, List.map_append, countedOn_append,
        countedOn_of_other hflushed item, List.append_nil]
    rw [htotal]
    rcases hflow.log with ⟨-, -, hdaily⟩ | ⟨now, hnow, -, hdb⟩
    · rw [hdaily]
      exact hs.final item
    · rw [statsOn, hdb, find?_maintenance]
      split
      · next hrange =>
          -- The day after is not over yet, so no call so far was later than that.
          have hstill : dayOf now ≤ day + 1 := by
            unfold dayOf
            omega
          apply recount_congr
          exact hs.intact (fun earlier hmem =>
            Int.le_trans (dayOf_mono (readings_le hclock hnow earlier hmem)) hstill) item
      · exact hs.final item

/-! ## The count -/

variable (item : Int)

theorem sumType_countedOn (type : EventType) (events : List Event) :
    sumType type (countedOn (events.map eventRow) day item) =
      events.countP (Event.countsFor type day item) := by
  unfold sumType countedOn
  rw [List.filter_map, List.countP_map, List.countP_filter]
  congr 2
  funext ev
  have htype : ((eventRow ev).type == type.toString) = (ev.type == type) := by
    rw [Bool.eq_iff_iff, beq_iff_eq, beq_iff_eq]
    exact ⟨EventType.toString_injective, congrArg EventType.toString⟩
  simp only [Function.comp_apply, htype]
  rfl

theorem countP_onDay (type : EventType) (events : List Event) :
    (events.filter (onDay day)).countP (Event.countsFor type day item) =
      events.countP (Event.countsFor type day item) := by
  rw [List.countP_filter]
  congr 1
  funext ev
  cases hday : onDay day ev with
  | true => rw [Bool.and_true]
  | false =>
      have hother : dayOf ev.ts ≠ day := by simpa [onDay] using hday
      simp [Event.countsFor, hother]

/-- The counters of a settled day count what was logged. -/
theorem Settled.counts (hs : Settled lib day tr s) (type : EventType) :
    sumType type (countedOn (tr.flushed.map eventRow) day item) =
      (tr.logged lib).countP (Event.countsFor type day item) := by
  rw [sumType_countedOn, ← countP_onDay item type tr.flushed,
    ← countP_onDay item type (tr.logged lib), hs.same.countP_eq]

theorem countP_logged {type : EventType} {p : Server → ServerAct → Bool}
    (h : ∀ e ∈ tr, (e.1.logging lib e.2).countP (Event.countsFor type day item) =
      if p e.1 e.2 then 1 else 0) :
    (tr.logged lib).countP (Event.countsFor type day item) = tr.countP fun e => p e.1 e.2 := by
  induction tr with
  | nil => rfl
  | cons e tr ih =>
      have hfirst := h e List.mem_cons_self
      have hrest := ih fun e' he' => h e' (List.mem_cons_of_mem e he')
      rw [Steps.logged, List.flatMap_cons, List.countP_append, hfirst, List.countP_cons,
        Nat.add_comm]
      exact congrArg (· + _) hrest

theorem countP_logging_outbound (s : Server) (a : ServerAct) :
    (s.logging lib a).countP (Event.countsFor .outbound day item) =
      if s.served lib (bytes "/r/") .found day item a then 1 else 0 := by
  cases a with
  | request amb req peer => exact countP_outbound lib amb s peer day item
  | _ => rfl

theorem countP_logging_cardClick (s : Server) {a : ServerAct}
    (hrenders : ∀ amb req peer, a = .request amb req peer → RendersItems amb) :
    (s.logging lib a).countP (Event.countsFor .cardClick day item) =
      if s.served lib (bytes "/item/") .ok day item a then 1 else 0 := by
  cases a with
  | request amb req peer =>
      exact countP_cardClick lib amb s peer day item (hrenders amb req peer rfl)
  | _ => rfl

theorem Ordinary.clock_before {acts rest : List ServerAct} (h : Ordinary acts)
    (hacts : tr.map Prod.snd ++ a :: rest = acts) : ∀ e ∈ tr, ServerAct.NotBack e.2 a := by
  intro e he
  have hclock := h.clock
  rw [← hacts, List.pairwise_append] at hclock
  exact hclock.2.2 e.2 (List.mem_map_of_mem he) a List.mem_cons_self

theorem books_of_run {cfg : Config} {started : Int} {acts : List ServerAct}
    (hkeeps : 3 ≤ cfg.eventRetentionDays)
    (hlater : ∀ cfg started, ServerAct.restart cfg started ∈ acts → 3 ≤ cfg.eventRetentionDays)
    (hrun : Runs.exec (calmStep lib) (.init cfg started) acts = some s) :
    Books lib day (Runs.trace (calmStep lib) (.init cfg started) acts) s := by
  rw [← List.nil_append (Runs.trace _ _ _)]
  apply Runs.exec_trace_invariant (I := Books lib day) ?_ (.init hkeeps day started) rfl hrun
  intro tr u a rest v hu hacts huv
  refine hu.step (calmStep_flow huv) fun cfg started ha => hlater cfg started ?_
  have hmem : a ∈ tr.map Prod.snd ++ a :: rest := List.mem_append_right _ List.mem_cons_self
  rw [hacts, ha] at hmem
  exact hmem

theorem settled_of_run {cfg : Config} {started : Int} {before after : List ServerAct}
    {env : Env} (hkeeps : 3 ≤ cfg.eventRetentionDays)
    (hordinary : Ordinary (before ++ .worker env :: after))
    (hbefore : Runs.exec (calmStep lib) (.init cfg started) before = some s)
    (hmaintains : s.maintaining (.worker env) = some env.now) (hday : dayOf env.now = day + 1)
    (hflushed : ((Steps.logged lib (Runs.trace (calmStep lib) (.init cfg started) before)).filter
      (onDay day)).Subperm (Steps.flushed (Runs.trace (calmStep lib) (.init cfg started) before)))
    (hafter : Runs.exec (calmStep lib) s (.worker env :: after) = some t) :
    Settled lib day
      (Runs.trace (calmStep lib) (.init cfg started) (before ++ .worker env :: after)) t := by
  obtain ⟨u, hu, hrest⟩ := Runs.exec_cons_eq_some.1 hafter
  have hbooks : Books lib day (Runs.trace (calmStep lib) (.init cfg started) before) s :=
    books_of_run hkeeps (fun cfg started hmem => hordinary.keeps cfg started
      (List.mem_append_left _ hmem)) hbefore
  have hacts : (Runs.trace (calmStep lib) (.init cfg started) before).map Prod.snd ++
      .worker env :: after = before ++ .worker env :: after := by
    rw [Runs.map_snd_trace hbefore]
  have hsettled := hbooks.settle hmaintains hday hflushed
    (readings_le (hordinary.clock_before hacts) hmaintains) (calmStep_flow hu)
  rw [Runs.trace_append hbefore, Runs.trace_cons hu, ← List.singleton_append, ← List.append_assoc]
  apply Runs.exec_trace_invariant (I := Settled lib day) ?_ hsettled ?_ hrest
  · exact before ++ .worker env :: after
  · intro tr v a rest w hv hall hvw
    refine hv.step (calmStep_flow hvw) (fun cfg started ha => hordinary.keeps cfg started ?_)
      (hordinary.clock_before hall)
    rw [← hall, ha]
    exact List.mem_append_right _ List.mem_cons_self
  · rw [List.map_append, hacts.symm, List.append_assoc]
    rfl

/-- After a maintenance call on the day after, with all events of the day flushed,
and for ever after, the counters of the day are the numbers of requests that were
served: redirects answered 302 and item pages answered 200, bots apart. -/
theorem clickCount_exact {cfg : Config} {started : Int} {before after : List ServerAct}
    {env : Env} (hkeeps : 3 ≤ cfg.eventRetentionDays)
    (hordinary : Ordinary (before ++ .worker env :: after))
    (hbefore : Runs.exec (calmStep lib) (.init cfg started) before = some s)
    (hmaintains : s.maintaining (.worker env) = some env.now) (hday : dayOf env.now = day + 1)
    (hflushed : ((Steps.logged lib (Runs.trace (calmStep lib) (.init cfg started) before)).filter
      (onDay day)).Subperm (Steps.flushed (Runs.trace (calmStep lib) (.init cfg started) before)))
    (hafter : Runs.exec (calmStep lib) s (.worker env :: after) = some t) :
    (statsOn t.pipeline.db.dailyItemStats day item).outbounds =
        (Runs.trace (calmStep lib) (.init cfg started) (before ++ .worker env :: after)).countP
          (fun e => e.1.served lib (bytes "/r/") .found day item e.2) ∧
      (statsOn t.pipeline.db.dailyItemStats day item).cardClicks =
        (Runs.trace (calmStep lib) (.init cfg started) (before ++ .worker env :: after)).countP
          (fun e => e.1.served lib (bytes "/item/") .ok day item e.2) := by
  have hrun : Runs.exec (calmStep lib) (.init cfg started) (before ++ .worker env :: after) =
      some t := by rw [Runs.exec_append, hbefore, Option.bind_some, hafter]
  have hacts := Runs.map_snd_trace hrun
  have hs := settled_of_run hkeeps hordinary hbefore hmaintains hday hflushed hafter
  have hserved : ∀ e ∈ Runs.trace (calmStep lib) (.init cfg started)
      (before ++ .worker env :: after), ∀ amb req peer, e.2 = .request amb req peer →
        RendersItems amb := by
    intro e he amb req peer hrequest
    apply hordinary.renders amb req peer
    rw [← hacts, ← hrequest]
    exact List.mem_map_of_mem he
  rw [hs.final item]
  constructor
  · rw [recount, hs.counts item .outbound]
    exact congrArg _ (countP_logged item fun e _ => countP_logging_outbound item e.1 e.2)
  · rw [recount, hs.counts item .cardClick]
    exact congrArg _ (countP_logged item fun e he =>
      countP_logging_cardClick item e.1 (hserved e he))

/-- A visitor with item pages that render. -/
def visitorAt (now : TsMs) : Ambient := { Ambient.bare now with render := fun _ _ => some [] }

/-- The tick whose maintenance settles the day. -/
def firstTick : Env := { steady := 3600000, now := 90000000 }

/-- A click, an item page and the same page for a bot, all flushed on the next day. -/
def dayOfClicks : List ServerAct :=
  [.setCatalog (.ofRows [{ id := 7, productUrl := bytes "https://p/7" }] []),
    .request (visitorAt 1000) { target := bytes "/r/7", userAgent := bytes "Mozilla/5.0" }
      (bytes "10.0.0.1"),
    .push,
    .request (visitorAt 2000) { target := bytes "/item/7", userAgent := bytes "curl/8.5" }
      (bytes "10.0.0.2"),
    .push,
    .request (visitorAt 3000) { target := bytes "/item/7", userAgent := bytes "Mozilla/5.0" }
      (bytes "10.0.0.3"),
    .push] ++
  List.replicate 6 (.worker firstTick)

/-- One more click and the maintenance of the day after next. -/
def dayAfter : List ServerAct :=
  [.request { visitorAt 90000001 with tokenDraw := .replicate 12 1 }
      { target := bytes "/r/7", userAgent := bytes "Mozilla/5.0" } (bytes "10.0.0.1"),
    .push] ++
  List.replicate 8 (.worker { steady := 7200000, now := 180000000 })

theorem clickCount_dayOfClicks :
    ∃ t, Runs.exec (calmStep .bare) (.init {} 0) (dayOfClicks ++ .worker firstTick :: dayAfter) =
        some t ∧
      (statsOn t.pipeline.db.dailyItemStats 0 7).outbounds = 1 ∧
      (statsOn t.pipeline.db.dailyItemStats 0 7).cardClicks = 1 := by
  have hmaintenance : (Runs.exec (calmStep .bare) (.init {} 0) dayOfClicks).map
      (fun s => s.maintaining (.worker firstTick)) = some (some firstTick.now) := by
    decide +kernel
  obtain ⟨s, hs, hmaintains⟩ := Option.map_eq_some_iff.1 hmaintenance
  have hsome : (Runs.exec (calmStep .bare) (.init {} 0)
      (dayOfClicks ++ .worker firstTick :: dayAfter)).isSome = true := by decide +kernel
  obtain ⟨t, ht⟩ := Option.isSome_iff_exists.1 hsome
  have hafter : Runs.exec (calmStep .bare) s (.worker firstTick :: dayAfter) = some t := by
    rw [Runs.exec_append, hs, Option.bind_some] at ht
    exact ht
  have hordinary : Ordinary (dayOfClicks ++ .worker firstTick :: dayAfter) := by
    constructor
    · intro cfg started hmem
      simp [dayOfClicks, dayAfter] at hmem
    · intro amb req peer hmem cfg item position
      simp only [dayOfClicks, dayAfter, List.mem_append, List.mem_cons, List.not_mem_nil,
        List.mem_replicate, ServerAct.request.injEq, reduceCtorEq, false_or, or_false,
        and_false] at hmem
      rcases hmem with (h | h | h) | h <;> rw [h.1] <;> rfl
    · simp [dayOfClicks, dayAfter, ServerAct.NotBack, firstTick, visitorAt, Ambient.bare]
  obtain ⟨houtbounds, hcardClicks⟩ := clickCount_exact 7 (by decide) hordinary hs hmaintains
    (show dayOf firstTick.now = 0 + 1 by decide) (by decide +kernel) hafter
  refine ⟨t, ht, houtbounds.trans ?_, hcardClicks.trans ?_⟩
  · decide +kernel
  · decide +kernel

end SSize
