import SSize.Server.Calm
import SSize.Worker.Thinned

/-!
# Bots do not influence the daily statistics

A run with some of its requests marked for deletion. What goes with a deleted
request are the pushes of its handler and, later, the worker's step for each of its
postbacks: `without` is the run that is left. All other requests, flushes and
maintenance calls keep their order and their clock readings.

`ThinPipeline` and `Erased` relate the states of the two runs: the second has the
same events less some that do not count, and of the postbacks those not marked.
-/

namespace SSize

open Lib

/-! ## The worker -/

def Pc.carriesNothing : Pc → Bool
  | .insertEvents _ => false
  | .finalInsert _ => false
  | .recordConversions _ => false
  | _ => true

/-- The same place in the loop with a thinned batch. -/
inductive PcThinned : List Bool → Pc → Pc → Prop
  | insertEvents {batch batch' : List Event} (h : Thinned Event.countable batch batch') :
      PcThinned [] (.insertEvents batch) (.insertEvents batch')
  | finalInsert {batch batch' : List Event} (h : Thinned Event.countable batch batch') :
      PcThinned [] (.finalInsert batch) (.finalInsert batch')
  | recordConversions {marks : List Bool} {batch batch' : List Conversion}
      (h : Picked marks batch batch') :
      PcThinned marks (.recordConversions batch) (.recordConversions batch')
  | other {pc : Pc} (h : pc.carriesNothing = true) : PcThinned [] pc pc

/-- The worker is about to record a postback. -/
def Pc.records : Pc → Bool
  | .recordConversions (_ :: _) => true
  | _ => false

/-- `p'` is `p` without the events and postbacks of deleted requests. There is a
mark for every postback that waits, in the batch or in the queue. -/
structure ThinPipeline (marks : List Bool) (p p' : Pipeline) : Prop where
  serving : p'.serving = p.serving
  running : p'.running = p.running
  loopStart : p'.loopStart = p.loopStart
  nextMaintenance : p'.nextMaintenance = p.nextMaintenance
  batches : ∃ front back, marks = front ++ back ∧ PcThinned front p.pc p'.pc ∧
    Picked back p.conversions.pending p'.conversions.pending
  pending : Thinned Event.countable p.events.pending p'.events.pending
  room : p'.events.maxPending = p.events.maxPending
  log : ThinnedLog p.db p'.db
  failures : p'.seen.failures = 0
  refused : p'.seen.refused = 0

variable {kopeksOf : Text → Option Kopek} {cfg : Config} {marks : List Bool}
  {p p' q : Pipeline} {env : Env}

theorem ThinPipeline.init (cfg : Config) {db db' : Db} (h : ThinnedLog db db') (started : Int) :
    ThinPipeline [] (.init cfg db started) (.init cfg db' started) where
  serving := rfl
  running := rfl
  loopStart := rfl
  nextMaintenance := rfl
  batches := ⟨[], [], rfl, .other rfl, .nil⟩
  pending := .refl _ _
  room := rfl
  log := h
  failures := rfl
  refused := rfl

/-- A quiet move of the thinned pipeline is one of its steps. -/
theorem ThinPipeline.stepped {b : Act} {q' : Pipeline} (hm : Moves kopeksOf cfg p' b q')
    (hfailures : p'.seen.failures = 0) (hq : ThinPipeline marks q q') :
    ∃ q', step kopeksOf cfg p' b = some q' ∧ ThinPipeline marks q q' :=
  ⟨q', hm.step_eq (hq.failures.trans hfailures.symm), hq⟩

/-- A place without a batch is the same in both. -/
theorem ThinPipeline.idle (h : ThinPipeline marks p p') {pc : Pc} (hpc : p.pc = pc)
    (hidle : pc.carriesNothing = true) :
    p'.pc = pc ∧ Picked marks p.conversions.pending p'.conversions.pending := by
  obtain ⟨front, back, rfl, hpcs, hback⟩ := h.batches
  rw [hpc] at hpcs
  generalize p'.pc = pc' at hpcs ⊢
  cases hpcs with
  | other _ => exact ⟨rfl, hback⟩
  | insertEvents _ | finalInsert _ | recordConversions _ => simp [Pc.carriesNothing] at hidle

/-- Between two such places nothing else changes. -/
theorem ThinPipeline.moved (h : ThinPipeline marks p p')
    (hback : Picked marks p.conversions.pending p'.conversions.pending) {pc : Pc}
    (hidle : pc.carriesNothing = true) :
    ThinPipeline marks { p with pc := pc } { p' with pc := pc } :=
  { h with batches := ⟨[], marks, rfl, .other hidle, hback⟩ }

/-- A batch of events is the thinned one in the other. -/
theorem ThinPipeline.writing (h : ThinPipeline marks p p') {batch : List Event} {pc : Pc}
    (hpc : p.pc = .insertEvents batch ∧ pc = .drainConversions ∨
      p.pc = .finalInsert batch ∧ pc = .exited) :
    ∃ batch', (p'.pc = .insertEvents batch' ∧ pc = .drainConversions ∨
        p'.pc = .finalInsert batch' ∧ pc = .exited) ∧
      Thinned Event.countable batch batch' ∧
      Picked marks p.conversions.pending p'.conversions.pending := by
  obtain ⟨front, back, rfl, hpcs, hback⟩ := h.batches
  generalize p'.pc = pc' at hpcs ⊢
  rcases hpc with ⟨hpc, rfl⟩ | ⟨hpc, rfl⟩
  · rw [hpc] at hpcs
    cases hpcs with
    | insertEvents hbatch => exact ⟨_, Or.inl ⟨rfl, rfl⟩, hbatch, hback⟩
    | other hidle => simp [Pc.carriesNothing] at hidle
  · rw [hpc] at hpcs
    cases hpcs with
    | finalInsert hbatch => exact ⟨_, Or.inr ⟨rfl, rfl⟩, hbatch, hback⟩
    | other hidle => simp [Pc.carriesNothing] at hidle

/-- A batch of postbacks has those without a mark in the other. -/
theorem ThinPipeline.recording (h : ThinPipeline marks p p') {batch : List Conversion}
    (hpc : p.pc = .recordConversions batch) :
    ∃ front back batch', marks = front ++ back ∧ p'.pc = .recordConversions batch' ∧
      Picked front batch batch' ∧
      Picked back p.conversions.pending p'.conversions.pending := by
  obtain ⟨front, back, rfl, hpcs, hback⟩ := h.batches
  rw [hpc] at hpcs
  generalize p'.pc = pc' at hpcs ⊢
  cases hpcs with
  | recordConversions hbatch => exact ⟨front, back, _, rfl, rfl, hbatch, hback⟩
  | other hidle => simp [Pc.carriesNothing] at hidle

/-- A step of the worker that is not about a deleted postback. -/
theorem ThinPipeline.worker (h : ThinPipeline marks p p')
    (hm : Moves kopeksOf cfg p (.worker env) q) (hcalm : q.Calm)
    (hkept : p.pc.records = true → marks.head? ≠ some true) :
    ∃ q', step kopeksOf cfg p' (.worker env) = some q' ∧
      ThinPipeline (if p.pc.records then marks.tail else marks) q q' := by
  cases hm with
  | enter hpc hrunning =>
      obtain ⟨hpc', hback⟩ := h.idle hpc rfl
      rw [hpc]
      refine ThinPipeline.stepped (.enter hpc' (h.running.trans hrunning)) h.failures ?_
      exact { h.moved hback rfl with loopStart := rfl }
  | leave hpc hrunning =>
      obtain ⟨hpc', hback⟩ := h.idle hpc rfl
      rw [hpc]
      exact ThinPipeline.stepped (.leave hpc' (h.running.trans hrunning)) h.failures
        (h.moved hback rfl)
  | refresh hpc =>
      obtain ⟨hpc', hback⟩ := h.idle hpc rfl
      rw [hpc]
      exact ThinPipeline.stepped (.refresh hpc') h.failures (h.moved hback rfl)
  | drainEvents hpc =>
      rcases hpc with ⟨hpc, rfl⟩ | ⟨hpc, rfl⟩
      · obtain ⟨hpc', hback⟩ := h.idle hpc rfl
        rw [hpc]
        refine ThinPipeline.stepped (.drainEvents (Or.inl ⟨hpc', rfl⟩)) h.failures ?_
        exact { h with
          batches := ⟨[], marks, rfl, .insertEvents h.pending, hback⟩
          pending := .refl _ _ }
      · obtain ⟨hpc', hback⟩ := h.idle hpc rfl
        rw [hpc]
        refine ThinPipeline.stepped (.drainEvents (Or.inr ⟨hpc', rfl⟩)) h.failures ?_
        exact { h with
          batches := ⟨[], marks, rfl, .finalInsert h.pending, hback⟩
          pending := .refl _ _ }
  | @write env batch db pc hpc hclean hcall =>
      have hplace : p.pc.records = false ∧ pc.carriesNothing = true := by
        rcases hpc with ⟨hpc, rfl⟩ | ⟨hpc, rfl⟩ <;> rw [hpc] <;> exact ⟨rfl, rfl⟩
      obtain ⟨batch', hpc', hbatch, hback⟩ := h.writing hpc
      obtain ⟨db', hclean', hcall', hlog⟩ := h.log.insertEvents_ok hbatch hclean hcall
      rw [hplace.1]
      refine ThinPipeline.stepped (.write hpc' hclean' hcall') h.failures ?_
      exact { h.moved hback hplace.2 with log := hlog }
  | drainConversions hpc =>
      obtain ⟨hpc', hback⟩ := h.idle hpc rfl
      rw [hpc]
      refine ThinPipeline.stepped (.drainConversions hpc') h.failures ?_
      exact { h with
        batches := ⟨marks, [], (List.append_nil marks).symm, .recordConversions hback, .nil⟩ }
  | flushed hpc =>
      obtain ⟨front, back, batch', rfl, hpc', hbatch, hback⟩ := h.recording hpc
      rw [hpc]
      cases hbatch
      exact ThinPipeline.stepped (.flushed hpc') h.failures (h.moved hback rfl)
  | judge hpc hclean =>
      obtain ⟨front, back, batch', rfl, hpc', hbatch, hback⟩ := h.recording hpc
      rw [hpc] at hkept ⊢
      cases hbatch with
      | drop _ hrest => exact absurd rfl (hkept rfl)
      | keep _ hrest =>
          refine ThinPipeline.stepped (.judge hpc' (h.log.recordsCleanly hclean)) h.failures ?_
          exact { h with
            batches := ⟨_, back, rfl, .recordConversions hrest, hback⟩
            log := h.log.recorded _ _ _ _ }
  | @maintain env removed hpc hdue hok =>
      obtain ⟨hpc', hback⟩ := h.idle hpc rfl
      obtain ⟨removed', hok'⟩ := maintenance_isOk hok p'.db
      have hdue' : p'.loopStart ≥ p'.nextMaintenance := by
        rw [h.loopStart, h.nextMaintenance]
        exact hdue
      rw [hpc]
      refine ThinPipeline.stepped (.maintain hpc' hdue' hok') h.failures ?_
      exact { h.moved hback rfl with
        nextMaintenance := by rw [h.loopStart]
        log := by
          rw [maintenance_of_ok hok, maintenance_of_ok hok']
          exact h.log.maintained _ _ }
  | maintainLater hpc hdue =>
      obtain ⟨hpc', hback⟩ := h.idle hpc rfl
      have hdue' : p'.loopStart < p'.nextMaintenance := by
        rw [h.loopStart, h.nextMaintenance]
        exact hdue
      rw [hpc]
      exact ThinPipeline.stepped (.maintainLater hpc' hdue') h.failures (h.moved hback rfl)
  | wake hpc =>
      obtain ⟨hpc', hback⟩ := h.idle hpc rfl
      rw [hpc]
      exact ThinPipeline.stepped (.wake hpc') h.failures (h.moved hback rfl)
  | writeFails | judgeFails | maintainFails =>
      exact absurd hcalm.failures (Nat.succ_ne_zero _)

/-- The step that records a deleted postback has no counterpart. -/
theorem ThinPipeline.worker_dropped (h : ThinPipeline marks p p')
    (hm : Moves kopeksOf cfg p (.worker env) q) (hcalm : q.Calm) (hrecords : p.pc.records = true)
    (hdropped : marks.head? = some true) : ThinPipeline marks.tail q p' := by
  cases hm with
  | @judge env c rest hpc hclean =>
      obtain ⟨front, back, batch', rfl, hpc', hbatch, hback⟩ := h.recording hpc
      cases hbatch with
      | drop _ hrest =>
          exact { h with
            batches := ⟨_, back, rfl, hpc' ▸ .recordConversions hrest, hback⟩
            log := h.log.recorded_left _ _ }
      | keep _ hrest => simp at hdropped
  | writeFails | judgeFails | maintainFails =>
      exact absurd hcalm.failures (Nat.succ_ne_zero _)
  | drainEvents hpc | write hpc _ _ =>
      rcases hpc with ⟨hpc, -⟩ | ⟨hpc, -⟩ <;> simp [hpc, Pc.records] at hrecords
  | enter hpc _ | leave hpc _ | refresh hpc | drainConversions hpc | flushed hpc
  | maintain hpc _ _ | maintainLater hpc _ | wake hpc =>
      simp [hpc, Pc.records] at hrecords

/-! ## The HTTP thread -/

variable {ev : Event} {now : TsMs} {query : Query}

/-- What a queue takes, a shorter one takes. -/
theorem ThinPipeline.push (h : ThinPipeline marks p p') (hm : Moves kopeksOf cfg p (.push ev) q)
    (hcalm : q.Calm) :
    ∃ q', step kopeksOf cfg p' (.push ev) = some q' ∧ ThinPipeline marks q q' := by
  cases hm with
  | @accept _ queue hserving hpush =>
      obtain ⟨hpending, -, hroom⟩ := EventQueue.push_accepted hpush
      have htakes : p.events.pending.length < p.events.maxPending := by
        rw [← EventQueue.push_accepts_iff _ ev, hpush]
      have hless : p'.events.pending.length < p'.events.maxPending := by
        rw [h.room]
        exact Nat.lt_of_le_of_lt h.pending.sub.length_le htakes
      cases hpush' : p'.events.push ev with
      | mk queue' accepted =>
          have haccepted := (EventQueue.push_accepts_iff _ ev).2 hless
          rw [hpush'] at haccepted
          cases haccepted
          obtain ⟨hpending', -, hroom'⟩ := EventQueue.push_accepted hpush'
          refine ThinPipeline.stepped (.accept (h.serving.trans hserving) hpush') h.failures ?_
          exact { h with
            pending := by
              rw [hpending, hpending']
              exact h.pending.concat ev
            room := by rw [hroom, hroom', h.room] }
  | refuse hserving hpush => exact absurd hcalm.refused (Nat.succ_ne_zero _)

/-- The push of an event that does not count shows nowhere. -/
theorem ThinPipeline.push_dropped (h : ThinPipeline marks p p')
    (hm : Moves kopeksOf cfg p (.push ev) q) (hcalm : q.Calm) (hev : ev.countable = false) :
    ThinPipeline marks q p' := by
  cases hm with
  | @accept _ queue hserving hpush =>
      obtain ⟨hpending, -, hroom⟩ := EventQueue.push_accepted hpush
      exact { h with
        pending := by
          rw [hpending]
          exact h.pending.drop hev
        room := by rw [hroom, h.room] }
  | refuse hserving hpush => exact absurd hcalm.refused (Nat.succ_ne_zero _)

/-- One more mark if the postback is queued. -/
def marksAfter (kopeksOf : Text → Option Kopek) (cfg : Config) (marks : List Bool) (deleted : Bool)
    (now : TsMs) (query : Query) : List Bool :=
  if (handlePostback kopeksOf cfg now query).2.isSome then marks ++ [deleted] else marks

theorem ThinPipeline.postback (h : ThinPipeline marks p p')
    (hm : Moves kopeksOf cfg p (.postback now query) q) :
    ∃ q', step kopeksOf cfg p' (.postback now query) = some q' ∧
      ThinPipeline (marksAfter kopeksOf cfg marks false now query) q q' := by
  obtain ⟨front, back, rfl, hpcs, hback⟩ := h.batches
  cases hm with
  | reject hserving hconv =>
      rw [marksAfter, hconv]
      exact ThinPipeline.stepped (.reject (h.serving.trans hserving) hconv) h.failures h
  | ack hserving hconv =>
      rw [marksAfter, hconv]
      refine ThinPipeline.stepped (.ack (h.serving.trans hserving) hconv) h.failures ?_
      exact { h with
        batches := ⟨front, back ++ [false], List.append_assoc .., hpcs,
          hback.append (.keep _ .nil)⟩ }

theorem ThinPipeline.postback_dropped (h : ThinPipeline marks p p')
    (hm : Moves kopeksOf cfg p (.postback now query) q) :
    ThinPipeline (marksAfter kopeksOf cfg marks true now query) q p' := by
  obtain ⟨front, back, rfl, hpcs, hback⟩ := h.batches
  cases hm with
  | reject hserving hconv =>
      rw [marksAfter, hconv]
      exact h
  | @ack _ _ conv hserving hconv =>
      rw [marksAfter, hconv]
      have hmore := hback.append (.drop conv .nil)
      rw [List.append_nil] at hmore
      exact { h with
        batches := ⟨front, back ++ [true], List.append_assoc .., hpcs, hmore⟩ }

/-! ## The server -/

/-- A request whose `User-Agent` is one of a bot. -/
def BotRequest : ServerAct → Prop
  | .request _ req _ => classifyUa req.userAgent = bytes "bot"
  | _ => False

/-- What is still under way of the requests deleted so far. -/
structure Deleted where
  /-- The handler that ran last belongs to one. -/
  running : Bool := false
  /-- For each postback that waits, whether it came from one. -/
  marks : List Bool := []

/-- Whether this step of the run is one of the run without the deleted requests.
The mark of a request says whether it is to be deleted. -/
def Deleted.keeps (d : Deleted) (s : Server) : ServerAct → Bool → Bool
  | .request _ _ _, mark => !mark
  | .push, _ => !d.running
  | .worker _, _ => !(s.pipeline.pc.records && d.marks.head? == some true)
  | _, _ => true

def Deleted.next (lib : Library) (d : Deleted) (s : Server) : ServerAct → Bool → Deleted
  | .request _ _ _, mark => { d with running := mark }
  | .push, _ =>
      match s.todo with
      | .postback now query :: _ =>
          { d with marks := marksAfter lib.kopeksOf s.cfg d.marks d.running now query }
      | _ => d
  | .worker _, _ => { d with marks := if s.pipeline.pc.records then d.marks.tail else d.marks }
  | .restart _ _, _ => {}
  | _, _ => d

/-- The run that is left, from the state `s` of the original run on. -/
def without (lib : Library) : Server → Deleted → List (ServerAct × Bool) → List ServerAct
  | _, _, [] => []
  | s, d, (a, mark) :: rest =>
      let later :=
        match serverStep lib s a with
        | none => []
        | some t => without lib t (d.next lib s a mark) rest
      if d.keeps s a mark then a :: later else later

/-- `s'` is `s` without what came of the deleted requests. -/
structure Erased (d : Deleted) (s s' : Server) : Prop where
  cfg : s'.cfg = s.cfg
  catalog : s'.catalog = s.catalog
  todo : s'.todo = if d.running then [] else s.todo
  bots : d.running = true → ∀ ev ∈ eventsOf s.todo, ev.countable = false
  pipeline : ThinPipeline d.marks s.pipeline s'.pipeline

variable {lib : Library} {s s' t : Server} {d : Deleted} {a : ServerAct} {mark : Bool}

theorem Erased.todo_nil (h : Erased d s s') (hnil : s.todo = []) : s'.todo = [] := by
  rw [h.todo, hnil, ite_self]

/-- A kept step of the worker or of `main` on both sides. -/
theorem Erased.pipelineStep (h : Erased d s s') (d' : Deleted) {b : Act} {p p' : Pipeline}
    (hp : step lib.kopeksOf s'.cfg s'.pipeline b = some p') (hthin : ThinPipeline d'.marks p p')
    (hrunning : d'.running = d.running) :
    ∃ t', s'.pipelineStep lib b = some t' ∧ t'.pipeline.Calm ∧
      Erased d' { s with pipeline := p } t' := by
  refine ⟨{ s' with pipeline := p' }, pipelineStep_eq_some.2 ⟨p', hp, rfl⟩,
    ⟨hthin.failures, hthin.refused⟩, ?_⟩
  exact ⟨h.cfg, h.catalog, hrunning ▸ h.todo, hrunning ▸ h.bots, hthin⟩

theorem Erased.request (h : Erased d s s') {amb : Ambient} {req : HttpRequest} {peer : Text}
    (hbot : mark = true → classifyUa req.userAgent = bytes "bot")
    (hstep : serverStep lib s (.request amb req peer) = some t) :
    (mark = true → Erased { d with running := mark } t s') ∧
      (mark = false → ∃ t', serverStep lib s' (.request amb req peer) = some t' ∧
        t'.pipeline = s'.pipeline ∧ Erased { d with running := mark } t t') := by
  rw [serverStep] at hstep
  split at hstep
  · next hfree =>
      cases hstep
      rw [Bool.and_eq_true, List.isEmpty_iff] at hfree
      obtain ⟨hserving, hidle⟩ := hfree
      have hidle' := h.todo_nil hidle
      constructor
      · rintro rfl
        refine ⟨h.cfg, h.catalog, hidle', fun _ ev hev => ?_, h.pipeline⟩
        have hlogged := dispatch_logged lib s.cfg amb s.catalog s.cache req
          (clientAddress req peer)
        exact Event.countable_of_bot ((hlogged.uaClass hev).trans (hbot rfl))
      · rintro rfl
        have hfree' : (s'.pipeline.serving && s'.todo.isEmpty) = true := by
          rw [h.pipeline.serving, hserving, hidle']
          rfl
        refine ⟨_, if_pos hfree', rfl, ?_⟩
        refine ⟨h.cfg, h.catalog, ?_, fun hrunning => by simp at hrunning, h.pipeline⟩
        show (dispatch lib s'.cfg amb s'.catalog s'.cache req _).effects = _
        rw [h.cfg, h.catalog]
        exact dispatch_effects_cache lib s.cfg amb s.catalog s'.cache s.cache req _
  · simp at hstep

section

variable {effect : Effect} {rest : List Effect} {d' : Deleted} {p p' : Pipeline}

/-- An effect of a kept request is handed over on both sides. -/
theorem Erased.pushed (h : Erased d s s') (htodo : s.todo = effect :: rest)
    (hrunning : d.running = false) (hnext : d'.running = d.running)
    (hp' : step lib.kopeksOf s.cfg s'.pipeline effect.act = some p')
    (hthin : ThinPipeline d'.marks p p') :
    ∃ t', calmStep lib s' .push = some t' ∧
      Erased d' { s with todo := rest, pipeline := p } t' := by
  have hsame : s'.todo = effect :: rest := by
    rw [h.todo, hrunning, htodo]
    rfl
  have hkept : d'.running = false := hnext.trans hrunning
  refine ⟨{ s' with todo := rest, pipeline := p' }, ?_, ?_⟩
  · rw [calmStep_eq_some, serverStep, hsame, pipelineStep_eq_some]
    exact ⟨⟨p', h.cfg ▸ hp', rfl⟩, ⟨hthin.failures, hthin.refused⟩⟩
  · refine ⟨h.cfg, h.catalog, ?_, fun hdeleted => ?_, hthin⟩
    · rw [hkept]
      rfl
    · rw [hkept] at hdeleted
      exact absurd hdeleted Bool.false_ne_true

/-- An effect of a deleted request is handed over in the original run only. -/
theorem Erased.dropped (h : Erased d s s') (htodo : s.todo = effect :: rest)
    (hrunning : d.running = true) (hnext : d'.running = d.running)
    (hthin : ThinPipeline d'.marks p s'.pipeline) :
    Erased d' { s with todo := rest, pipeline := p } s' := by
  have hdeleted : d'.running = true := hnext.trans hrunning
  refine ⟨h.cfg, h.catalog, ?_, fun _ ev hev => ?_, hthin⟩
  · rw [h.todo, hrunning, hdeleted]
    rfl
  · apply h.bots hrunning ev
    rw [htodo, mem_eventsOf]
    exact List.mem_cons_of_mem effect (mem_eventsOf.1 hev)

end

theorem Erased.push (h : Erased d s s') (mark : Bool)
    (hstep : calmStep lib s .push = some t) :
    (d.running = true → Erased (d.next lib s .push mark) t s') ∧
      (d.running = false → ∃ t', calmStep lib s' .push = some t' ∧
        Erased (d.next lib s .push mark) t t') := by
  obtain ⟨hserver, hcalm⟩ := calmStep_eq_some.1 hstep
  rw [serverStep] at hserver
  split at hserver
  · simp at hserver
  · next effect rest htodo =>
      obtain ⟨p, hp, rfl⟩ := pipelineStep_eq_some.1 hserver
      have hm := step_moves lib.kopeksOf s.cfg hp
      cases effect with
      | event ev =>
          have hnext : d.next lib s .push mark = d := by rw [Deleted.next, htodo]
          rw [hnext]
          constructor
          · intro hrunning
            have hev : ev.countable = false := by
              apply h.bots hrunning ev
              rw [htodo, mem_eventsOf]
              exact List.mem_cons_self
            exact h.dropped htodo hrunning rfl (h.pipeline.push_dropped hm hcalm hev)
          · intro hrunning
            obtain ⟨p', hp', hthin⟩ := h.pipeline.push hm hcalm
            exact h.pushed htodo hrunning rfl hp' hthin
      | postback now query =>
          have hnext : d.next lib s .push mark =
              { d with marks := marksAfter lib.kopeksOf s.cfg d.marks d.running now query } := by
            rw [Deleted.next, htodo]
          rw [hnext]
          constructor
          · intro hrunning
            refine h.dropped htodo hrunning rfl ?_
            rw [hrunning]
            exact h.pipeline.postback_dropped hm
          · intro hrunning
            obtain ⟨p', hp', hthin⟩ := h.pipeline.postback hm
            refine h.pushed htodo hrunning rfl hp' ?_
            rw [hrunning]
            exact hthin

theorem Erased.worker (h : Erased d s s') {env : Env}
    (hstep : calmStep lib s (.worker env) = some t) :
    (d.keeps s (.worker env) mark = false → Erased (d.next lib s (.worker env) mark) t s') ∧
      (d.keeps s (.worker env) mark = true → ∃ t', calmStep lib s' (.worker env) = some t' ∧
        Erased (d.next lib s (.worker env) mark) t t') := by
  obtain ⟨hserver, hcalm⟩ := calmStep_eq_some.1 hstep
  rw [serverStep] at hserver
  obtain ⟨p, hp, rfl⟩ := pipelineStep_eq_some.1 hserver
  have hm := step_moves lib.kopeksOf s.cfg hp
  simp only [Deleted.keeps, Deleted.next]
  constructor
  · intro hdropped
    simp only [Bool.not_eq_false', Bool.and_eq_true, beq_iff_eq] at hdropped
    rw [hdropped.1, if_pos rfl]
    exact ⟨h.cfg, h.catalog, h.todo, h.bots,
      h.pipeline.worker_dropped hm hcalm hdropped.1 hdropped.2⟩
  · intro hkept
    simp only [Bool.not_eq_true', Bool.and_eq_false_iff, beq_eq_false_iff_ne] at hkept
    obtain ⟨p', hp', hthin⟩ := h.pipeline.worker hm hcalm fun hrecords => by
      rcases hkept with hno | hne
      · simp [hno] at hrecords
      · exact hne
    rw [← h.cfg] at hp'
    obtain ⟨t', ht', hcalm', herased⟩ := h.pipelineStep
      { d with marks := if s.pipeline.pc.records then d.marks.tail else d.marks } hp' hthin rfl
    exact ⟨t', calmStep_eq_some.2 ⟨ht', hcalm'⟩, herased⟩

/-- One step of the original run is a step of the other, or none. -/
theorem Erased.step (h : Erased d s s') (hbot : mark = true → BotRequest a)
    (hstep : calmStep lib s a = some t) :
    (d.keeps s a mark = false → Erased (d.next lib s a mark) t s') ∧
      (d.keeps s a mark = true → ∃ t', calmStep lib s' a = some t' ∧
        Erased (d.next lib s a mark) t t') := by
  obtain ⟨hserver, hcalm⟩ := calmStep_eq_some.1 hstep
  cases a with
  | request amb req peer =>
      obtain ⟨hdeleted, hkept⟩ := h.request hbot hserver
      constructor
      · intro hkeeps
        exact hdeleted (by simpa [Deleted.keeps] using hkeeps)
      · intro hkeeps
        obtain ⟨t', ht', hsame, herased⟩ := hkept (by simpa [Deleted.keeps] using hkeeps)
        refine ⟨t', calmStep_eq_some.2 ⟨ht', ?_⟩, herased⟩
        rw [hsame]
        exact ⟨h.pipeline.failures, h.pipeline.refused⟩
  | push =>
      obtain ⟨hdeleted, hkept⟩ := h.push mark hstep
      constructor
      · intro hkeeps
        exact hdeleted (by simpa [Deleted.keeps] using hkeeps)
      · intro hkeeps
        exact hkept (by simpa [Deleted.keeps] using hkeeps)
  | worker env => exact h.worker hstep
  | setCatalog catalog =>
      cases hserver
      refine ⟨fun hkeeps => by simp [Deleted.keeps] at hkeeps, fun _ => ?_⟩
      refine ⟨{ s' with catalog := ⟨s'.catalog.serial + 1, catalog⟩ }, ?_, ?_⟩
      · exact calmStep_eq_some.2 ⟨rfl, h.pipeline.failures, h.pipeline.refused⟩
      · exact ⟨h.cfg, by rw [h.catalog], h.todo, h.bots, h.pipeline⟩
  | stopServer =>
      rw [serverStep] at hserver
      split at hserver
      · next hidle =>
          obtain ⟨p, hp, rfl⟩ := pipelineStep_eq_some.1 hserver
          cases hp
          refine ⟨fun hkeeps => by simp [Deleted.keeps] at hkeeps, fun _ => ?_⟩
          have hp' : SSize.step lib.kopeksOf s'.cfg s'.pipeline .stopServer =
              some { s'.pipeline with serving := false } := rfl
          have hthin : ThinPipeline d.marks { s.pipeline with serving := false }
              { s'.pipeline with serving := false } := { h.pipeline with serving := rfl }
          obtain ⟨t', ht', hcalm', herased⟩ := h.pipelineStep d hp' hthin rfl
          refine ⟨t', calmStep_eq_some.2 ⟨?_, hcalm'⟩, herased⟩
          rw [serverStep, if_pos, ht']
          rw [h.todo_nil (List.isEmpty_iff.1 hidle)]
          rfl
      · simp at hserver
  | stopWorker =>
      rw [serverStep] at hserver
      obtain ⟨p, hp, rfl⟩ := pipelineStep_eq_some.1 hserver
      cases step_moves lib.kopeksOf s.cfg hp with
      | stopWorker hserving =>
          refine ⟨fun hkeeps => by simp [Deleted.keeps] at hkeeps, fun _ => ?_⟩
          have hm' : Moves lib.kopeksOf s'.cfg s'.pipeline .stopWorker _ :=
            .stopWorker (h.pipeline.serving.trans hserving)
          have hthin : ThinPipeline d.marks { s.pipeline with running := false }
              { s'.pipeline with running := false } := { h.pipeline with running := rfl }
          obtain ⟨t', ht', hcalm', herased⟩ := h.pipelineStep d (hm'.step_eq rfl) hthin rfl
          exact ⟨t', calmStep_eq_some.2 ⟨ht', hcalm'⟩, herased⟩
  | restart cfg started =>
      cases hserver
      refine ⟨fun hkeeps => by simp [Deleted.keeps] at hkeeps, fun _ => ?_⟩
      refine ⟨_, calmStep_eq_some.2 ⟨rfl, Pipeline.calm_init _ _ _⟩, ?_⟩
      exact ⟨rfl, rfl, rfl, fun hrunning => by simp [Deleted.next] at hrunning,
        .init cfg h.pipeline.log started⟩

/-! ## Runs -/

theorem Erased.run (h : Erased d s s') {acts : List (ServerAct × Bool)}
    (hbots : ∀ p ∈ acts, p.2 = true → BotRequest p.1)
    (hrun : Runs.exec (calmStep lib) s (acts.map Prod.fst) = some t) :
    ∃ d' t', Runs.exec (calmStep lib) s' (without lib s d acts) = some t' ∧ Erased d' t t' := by
  induction acts generalizing s s' d with
  | nil =>
      cases hrun
      exact ⟨d, s', rfl, h⟩
  | cons p acts ih =>
      obtain ⟨a, mark⟩ := p
      rw [List.map_cons] at hrun
      obtain ⟨u, hu, hrest⟩ := Runs.exec_cons_eq_some.1 hrun
      obtain ⟨hdropped, hkept⟩ := h.step (hbots (a, mark) List.mem_cons_self) hu
      have hlater : ∀ p ∈ acts, p.2 = true → BotRequest p.1 :=
        fun p hp => hbots p (List.mem_cons_of_mem _ hp)
      rw [without, (calmStep_eq_some.1 hu).1]
      cases hkeeps : d.keeps s a mark with
      | false => exact ih (hdropped hkeeps) hlater hrest
      | true =>
          obtain ⟨u', hu', herased⟩ := hkept hkeeps
          obtain ⟨d', t', ht', hend⟩ := ih herased hlater hrest
          refine ⟨d', t', ?_, hend⟩
          simp only [if_true]
          rw [Runs.exec_cons, hu', Option.bind_some, ht']

theorem without_append {before : List (ServerAct × Bool)} (after : List (ServerAct × Bool))
    (hrun : Runs.exec (calmStep lib) s (before.map Prod.fst) = some t) :
    ∃ rest, without lib s d (before ++ after) = without lib s d before ++ rest := by
  induction before generalizing s d with
  | nil => exact ⟨_, rfl⟩
  | cons p before ih =>
      obtain ⟨a, mark⟩ := p
      rw [List.map_cons] at hrun
      obtain ⟨u, hu, hrest⟩ := Runs.exec_cons_eq_some.1 hrun
      rw [List.cons_append, without, without, (calmStep_eq_some.1 hu).1]
      obtain ⟨rest, hafter⟩ := ih (d := d.next lib s a mark) hrest
      refine ⟨rest, ?_⟩
      simp only [hafter]
      split <;> rfl

/-- Acts are only taken out, and nothing but a marked request, its pushes and the
worker's steps for its postbacks. -/
theorem without_sublist (s : Server) (d : Deleted) (acts : List (ServerAct × Bool)) :
    (without lib s d acts).Sublist (acts.map Prod.fst) := by
  induction acts generalizing s d with
  | nil => exact .slnil
  | cons p acts ih =>
      obtain ⟨a, mark⟩ := p
      rw [without, List.map_cons]
      have hlater : (match serverStep lib s a with
          | none => []
          | some t => without lib t (d.next lib s a mark) acts).Sublist (acts.map Prod.fst) := by
        split
        · exact List.nil_sublist _
        · exact ih _ _
      simp only
      split
      · exact hlater.cons_cons a
      · exact hlater.cons a

/-- Deleting any requests of bots from a calm run leaves a calm run, and after
every part of the two the daily statistics are the same. -/
theorem dailyItemStats_without_bots (cfg : Config) (started : Int)
    {acts : List (ServerAct × Bool)} (hbots : ∀ p ∈ acts, p.2 = true → BotRequest p.1)
    (hrun : Runs.exec (calmStep lib) (.init cfg started) (acts.map Prod.fst) = some s) :
    (without lib (.init cfg started) {} acts).Sublist (acts.map Prod.fst) ∧
      ∀ before after, acts = before ++ after →
        ∃ u u' rest, Runs.exec (calmStep lib) (.init cfg started) (before.map Prod.fst) = some u ∧
          without lib (.init cfg started) {} acts =
            without lib (.init cfg started) {} before ++ rest ∧
          Runs.exec (calmStep lib) (.init cfg started)
            (without lib (.init cfg started) {} before) = some u' ∧
          u'.pipeline.db.dailyItemStats = u.pipeline.db.dailyItemStats := by
  refine ⟨without_sublist _ _ _, fun before after hacts => ?_⟩
  subst hacts
  rw [List.map_append, Runs.exec_append] at hrun
  obtain ⟨u, hu, -⟩ := Option.bind_eq_some_iff.1 hrun
  have hinit : Erased {} (Server.init cfg started) (Server.init cfg started) :=
    ⟨rfl, rfl, rfl, fun hrunning => by simp at hrunning, .init cfg (.refl _) started⟩
  obtain ⟨d, u', hu', herased⟩ := hinit.run
    (fun p hp => hbots p (List.mem_append_left after hp)) hu
  obtain ⟨rest, hrest⟩ := without_append (d := {}) after hu
  exact ⟨u, u', rest, hu, hrest, hu', herased.pipeline.log.daily⟩

/-- A click of `curl`, to be deleted, one of a browser, and a tick with maintenance. -/
def curlThenClick : List (ServerAct × Bool) :=
  [(.setCatalog (.ofRows [{ id := 7, productUrl := bytes "https://p/7" }] []), false),
    (.request (.bare 1000) { target := bytes "/r/7", userAgent := bytes "curl/8.5" }
      (bytes "10.0.0.1"), true),
    (.push, false),
    (.request { Ambient.bare 2000 with tokenDraw := .replicate 12 1 }
      { target := bytes "/r/7", userAgent := bytes "Mozilla/5.0" } (bytes "10.0.0.2"), false),
    (.push, false)] ++
  List.replicate 8 (.worker { steady := 3600000, now := 3000 }, false)

theorem dailyItemStats_without_curl :
    ∃ u u', Runs.exec (calmStep .bare) (.init {} 0) (curlThenClick.map Prod.fst) = some u ∧
      u.pipeline.db.dailyItemStats.rows.map DailyRow.outbounds = [1] ∧
      Runs.exec (calmStep .bare) (.init {} 0) (without .bare (.init {} 0) {} curlThenClick) =
        some u' ∧
      u'.pipeline.db.dailyItemStats = u.pipeline.db.dailyItemStats := by
  have hrun : (Runs.exec (calmStep .bare) (.init {} 0) (curlThenClick.map Prod.fst)).map
      (fun u => u.pipeline.db.dailyItemStats.rows.map DailyRow.outbounds) = some [1] := by
    decide +kernel
  obtain ⟨u, hu, hone⟩ := Option.map_eq_some_iff.1 hrun
  have hbots : ∀ p ∈ curlThenClick, p.2 = true → BotRequest p.1 := by
    intro p hp hmark
    simp only [curlThenClick, List.mem_append, List.mem_cons, List.not_mem_nil, or_false,
      List.mem_replicate] at hp
    rcases hp with (rfl | rfl | rfl | rfl | rfl) | ⟨-, rfl⟩
    · simp at hmark
    · show classifyUa (bytes "curl/8.5") = bytes "bot"
      decide
    · simp at hmark
    · simp at hmark
    · simp at hmark
    · simp at hmark
  obtain ⟨-, hsame⟩ := dailyItemStats_without_bots {} 0 hbots hu
  obtain ⟨v, u', rest, hv, -, hu', hdaily⟩ := hsame curlThenClick [] (List.append_nil _).symm
  rw [hu, Option.some.injEq] at hv
  subst hv
  exact ⟨u, u', hu, hone, hu', hdaily⟩

end SSize
