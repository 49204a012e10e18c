import SSize.Worker.Pipeline

/-!
# Events without who caused them

The worker writes, rolls up and prunes an event by what happened, when and to which item, and
by whether it was a bot. The rest of an event says who it was and from where he came, and
blanking that in every queue and row commutes with every step.
-/

namespace SSize

open Lib

/-! ## Blanking -/

/-- What `ua_class != 'bot'` sees of a class. -/
def botOrNot (uaClass : Text) : Text := if uaClass = bytes "bot" then bytes "bot" else []

theorem botOrNot_eq_bot_iff {uaClass : Text} :
    botOrNot uaClass = bytes "bot" ↔ uaClass = bytes "bot" := by
  have hnil : bytes "bot" ≠ [] := by decide
  unfold botOrNot
  split
  · next h => simp [h]
  · next h => simp [h, hnil.symm]

def Event.faceless (ev : Event) : Event :=
  { ev with
    anonId := []
    sessionId := []
    source := []
    uaClass := botOrNot ev.uaClass
    ipHash := [] }

def EventRow.faceless (r : EventRow) : EventRow :=
  { r with
    anonId := []
    sessionId := []
    source := some []
    uaClass := r.uaClass.map botOrNot
    ipHash := none }

theorem EventRow.clickToken_faceless (r : EventRow) : r.faceless.clickToken = r.clickToken := rfl

def EventsTable.faceless (t : EventsTable) : EventsTable :=
  t.map EventRow.faceless EventRow.clickToken_faceless

def Db.faceless (db : Db) : Db := { db with events := EventsTable.faceless db.events }

def EventQueue.faceless (q : EventQueue) : EventQueue :=
  { q with
    pending := q.pending.map Event.faceless
    bounded := by
      rw [List.length_map]
      exact q.bounded }

def Pc.faceless : Pc → Pc
  | .insertEvents batch => .insertEvents (batch.map Event.faceless)
  | .finalInsert batch => .finalInsert (batch.map Event.faceless)
  | pc => pc

def History.faceless (seen : History) : History :=
  { seen with
    accepted := seen.accepted.map Event.faceless
    written := seen.written.map Event.faceless
    lostEvents := seen.lostEvents.map Event.faceless
    pruned := seen.pruned.map EventRow.faceless }

def Pipeline.faceless (p : Pipeline) : Pipeline :=
  { p with
    db := p.db.faceless
    events := p.events.faceless
    pc := p.pc.faceless
    seen := p.seen.faceless }

def Act.faceless : Act → Act
  | .push ev => .push ev.faceless
  | a => a

theorem eventRow_faceless (ev : Event) : eventRow ev.faceless = (eventRow ev).faceless := rfl

theorem EventRow.countable_faceless (r : EventRow) : r.faceless.countable = r.countable := by
  unfold countable faceless
  cases r.itemId with
  | none => rfl
  | some item =>
      cases r.uaClass with
      | none => rfl
      | some ua =>
          rw [Option.map_some, Bool.eq_iff_iff, bne_iff_ne, bne_iff_ne]
          exact not_congr botOrNot_eq_bot_iff

/-! ## The statements -/

variable (db : Db)

theorem insertRows_faceless (fault : Nat → Bool) (i : Nat) (batch : List Event)
    (t : EventsTable) :
    insertRows fault i (batch.map Event.faceless) (EventsTable.faceless t) =
      (insertRows fault i batch t).map EventsTable.faceless := by
  induction batch generalizing i t with
  | nil => rfl
  | cons ev rest ih =>
      rw [List.map_cons, insertRows, insertRows]
      by_cases hfault : fault i = true
      · rw [if_pos hfault, if_pos hfault]
        rfl
      · have hinsert : (EventsTable.faceless t).insert? (eventRow ev).faceless =
            (t.insert? (eventRow ev)).map EventsTable.faceless := Table.insert?_map t _
        rw [if_neg hfault, if_neg hfault, eventRow_faceless, hinsert]
        cases t.insert? (eventRow ev) with
        | none => rfl
        | some u => exact ih (i + 1) u

theorem insertEvents_faceless (f : InsertFaults) (batch : List Event) :
    insertEvents f db.faceless (batch.map Event.faceless) =
      Prod.map Db.faceless id (insertEvents f db batch) := by
  have hrows : insertRows f.row 0 (batch.map Event.faceless) db.faceless.events = _ :=
    insertRows_faceless f.row 0 batch db.events
  unfold insertEvents
  rw [List.isEmpty_map, hrows]
  cases hempty : batch.isEmpty with
  | true => rfl
  | false =>
      cases hbegin : f.beginImmediate with
      | true => rfl
      | false =>
          cases insertRows f.row 0 batch db.events with
          | error e => rfl
          | ok t => cases hcommit : f.commit <;> rfl

theorem knows_faceless (token : Text) : db.faceless.knows token = db.knows token := by
  have hkeys : db.faceless.events.keys = db.events.keys :=
    Table.keys_map _ EventRow.clickToken_faceless _
  rw [Db.knows, Db.knows, hkeys]

theorem recordConversion_faceless (f : RecordFaults) (c : Conversion) :
    recordConversion f db.faceless c = Prod.map Db.faceless id (recordConversion f db c) := by
  unfold recordConversion
  rw [knows_faceless]
  split
  · rfl
  split
  · rfl
  split
  · rfl
  split
  · rfl
  · rfl

theorem rollupKey_faceless (dayFrom dayTo : Int) (r : EventRow) :
    rollupKey dayFrom dayTo r.faceless = rollupKey dayFrom dayTo r := by
  unfold rollupKey
  rw [EventRow.countable_faceless]
  rfl

theorem rollupGroup_faceless (dayFrom dayTo : Int) (rows : List EventRow) :
    rollupGroup dayFrom dayTo (rows.map EventRow.faceless) = rollupGroup dayFrom dayTo rows := by
  have hgroup : ∀ k, (rows.map EventRow.faceless).filter
        (fun r => rollupKey dayFrom dayTo r == some k) =
      (rows.filter fun r => rollupKey dayFrom dayTo r == some k).map EventRow.faceless := by
    intro k
    rw [List.filter_map]
    congr 2
    funext r
    rw [Function.comp_apply, rollupKey_faceless]
  have hsum : ∀ type (group : List EventRow),
      sumType type (group.map EventRow.faceless) = sumType type group := by
    intro type group
    rw [sumType, sumType, List.countP_map]
    rfl
  funext k
  simp only [rollupGroup, hgroup, hsum]

theorem rollupDaily_faceless (dayFrom dayTo : Int) :
    rollupDaily dayFrom dayTo db.faceless = (rollupDaily dayFrom dayTo db).faceless := by
  have hrows : db.faceless.events.rows = db.events.rows.map EventRow.faceless := rfl
  have hkeys : (db.events.rows.map EventRow.faceless).filterMap (rollupKey dayFrom dayTo) =
      db.events.rows.filterMap (rollupKey dayFrom dayTo) := by
    rw [List.filterMap_map]
    apply List.filterMap_congr
    intro r _
    exact rollupKey_faceless dayFrom dayTo r
  simp only [rollupDaily, hrows, hkeys, rollupGroup_faceless]
  rfl

theorem pruneEvents_faceless (olderThan : TsMs) :
    pruneEvents olderThan db.faceless = Prod.map Db.faceless id (pruneEvents olderThan db) := by
  have hdelete : db.faceless.events.delete (fun r => decide (r.ts < olderThan)) =
      EventsTable.faceless (db.events.delete fun r => decide (r.ts < olderThan)) :=
    Table.delete_map db.events fun _ => rfl
  have hcount : db.faceless.events.rows.countP (fun r => decide (r.ts < olderThan)) =
      db.events.rows.countP fun r => decide (r.ts < olderThan) := by
    have hrows : db.faceless.events.rows = db.events.rows.map EventRow.faceless := rfl
    rw [hrows, List.countP_map]
    rfl
  unfold pruneEvents
  rw [hdelete, hcount]
  rfl

theorem maintenance_faceless (env : Env) (days : Int) :
    maintenance env days db.faceless = Prod.map Db.faceless id (maintenance env days db) := by
  unfold maintenance
  dsimp only
  split
  · rfl
  split
  · rw [rollupDaily_faceless]
    rfl
  · rw [rollupDaily_faceless, pruneEvents_faceless]
    rfl

/-! ## The steps -/

variable {kopeksOf : Text → Option Kopek} (cfg : Config)

theorem insertEvents_pipeline (f : InsertFaults) (p : Pipeline) (batch : List Event) :
    insertEvents f p.faceless.db (batch.map Event.faceless) =
      Prod.map Db.faceless id (insertEvents f p.db batch) :=
  insertEvents_faceless p.db f batch

theorem workerStep_faceless (env : Env) (p : Pipeline) :
    workerStep cfg env p.faceless = (workerStep cfg env p).map Pipeline.faceless := by
  have hpc : p.faceless.pc = p.pc.faceless := rfl
  unfold workerStep
  rw [hpc]
  cases p.pc with
  | loopHead =>
      by_cases hrunning : p.running = true
      · have hrunning' : p.faceless.running = true := hrunning
        simp only [Pc.faceless, if_pos hrunning, if_pos hrunning']
        rfl
      · have hrunning' : ¬ p.faceless.running = true := hrunning
        simp only [Pc.faceless, if_neg hrunning, if_neg hrunning']
        rfl
  | insertEvents batch | finalInsert batch =>
      simp only [Pc.faceless, insertEvents_pipeline]
      cases insertEvents env.insert p.db batch with
      | mk db result =>
          cases result with
          | error e => simp [Pipeline.faceless, History.faceless, Pc.faceless]
          | ok _ => simp [Pipeline.faceless, History.faceless, Pc.faceless]
  | recordConversions batch =>
      cases batch with
      | nil => rfl
      | cons c rest =>
          have hcall : recordConversion env.record p.faceless.db c =
              Prod.map Db.faceless id (recordConversion env.record p.db c) :=
            recordConversion_faceless p.db env.record c
          simp only [Pc.faceless, hcall]
          cases recordConversion env.record p.db c with
          | mk db result =>
              cases result with
              | error e => rfl
              | ok known => simp [Pipeline.faceless, History.faceless, Pc.faceless]
  | maintenance =>
      by_cases hdue : p.loopStart ≥ p.nextMaintenance
      · have hdue' : p.faceless.loopStart ≥ p.faceless.nextMaintenance := hdue
        have hcall : maintenance env cfg.eventRetentionDays p.faceless.db =
            Prod.map Db.faceless id (maintenance env cfg.eventRetentionDays p.db) :=
          maintenance_faceless p.db env cfg.eventRetentionDays
        have hexpired : p.faceless.db.events.rows.filter
              (expired cfg.eventRetentionDays env.now) =
            (p.db.events.rows.filter (expired cfg.eventRetentionDays env.now)).map
              EventRow.faceless := List.filter_map
        simp only [Pc.faceless, if_pos hdue, if_pos hdue', hcall, hexpired]
        cases maintenance env cfg.eventRetentionDays p.db with
        | mk db result =>
            cases result with
            | error e => rfl
            | ok removed => simp [Pipeline.faceless, History.faceless, Pc.faceless]
      · have hdue' : ¬ p.faceless.loopStart ≥ p.faceless.nextMaintenance := hdue
        simp only [Pc.faceless, if_neg hdue, if_neg hdue']
        rfl
  | refresh | drainEvents | drainConversions | sleep | finalDrain | exited => rfl

theorem push_faceless (q : EventQueue) (ev : Event) :
    q.faceless.push ev.faceless = Prod.map EventQueue.faceless id (q.push ev) := by
  have hlength : q.faceless.pending.length = q.pending.length := List.length_map _
  unfold EventQueue.push
  by_cases hfull : q.pending.length ≥ q.maxPending
  · have hfull' : q.faceless.pending.length ≥ q.faceless.maxPending := hlength ▸ hfull
    rw [dif_pos hfull, dif_pos hfull']
    rfl
  · have hfull' : ¬ q.faceless.pending.length ≥ q.faceless.maxPending := hlength ▸ hfull
    rw [dif_neg hfull, dif_neg hfull']
    simp [EventQueue.faceless]

theorem step_faceless (p : Pipeline) (a : Act) :
    step kopeksOf cfg p.faceless a.faceless = (step kopeksOf cfg p a).map Pipeline.faceless := by
  have hserving : p.faceless.serving = p.serving := rfl
  cases a with
  | push ev =>
      have hpush : p.faceless.events.push ev.faceless =
          Prod.map EventQueue.faceless id (p.events.push ev) := push_faceless p.events ev
      simp only [step, Act.faceless, hserving, hpush]
      cases p.serving with
      | false => rfl
      | true =>
          cases p.events.push ev with
          | mk q accepted =>
              cases accepted with
              | false => rfl
              | true => simp [Pipeline.faceless, History.faceless]
  | postback now q =>
      simp only [step, Act.faceless, hserving]
      cases p.serving with
      | false => rfl
      | true =>
          cases (handlePostback kopeksOf cfg now q).2 with
          | none => rfl
          | some conv => simp [Pipeline.faceless, History.faceless]
  | stopServer => rfl
  | stopWorker =>
      simp only [step, Act.faceless, hserving]
      cases p.serving with
      | false => rfl
      | true => rfl
  | worker env => exact workerStep_faceless cfg env p

end SSize
