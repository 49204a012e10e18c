import SSize.Worker.Ledger

/-!
# Whether a postback meets its click

`DbWorker::run` flushes the events before the postbacks, but the two queues are
drained by two locked operations with the event transaction in between. A click
and its postback that both arrive in between wait for different ticks, and the
postback is judged first.

The proof counts the wrong verdicts, those still to be given included: the drain
of the postbacks settles them, since nothing is written to `events` before the
drained batch is through.
-/

namespace SSize

open Lib

def Clicked (events : List Event) (token : Text) : Prop :=
  ∃ ev ∈ events, ev.type = .outbound ∧ ev.clickToken = token

instance (events : List Event) (token : Text) : Decidable (Clicked events token) :=
  inferInstanceAs (Decidable (∃ ev ∈ events, _))

/-- Every postback that was accepted after its click, and that was processed,
found its click. The postbacks are processed in the order of their acceptance. -/
def JudgedAfterClick (s : Pipeline) : Prop :=
  ∀ p ∈ s.seen.acked.zip s.seen.judged,
    Clicked (s.seen.accepted.take p.1.2) p.1.1.clickToken → p.2.known = true

def Pipeline.waitingBefore (s : Pipeline) (n : Nat) : List Event :=
  s.events.pending.take (n - s.seen.written.length)

/-- When the postbacks are drained, no click that precedes one of them is still
waiting, unless its token is in `events` anyway. -/
def ClicksFlushed (s : Pipeline) : Act → Prop
  | .worker _ => s.pc = .drainConversions →
      ∀ p ∈ s.seen.acked.drop s.seen.judged.length,
        Clicked (s.waitingBefore p.2) p.1.clickToken → s.db.knows p.1.clickToken = true
  | _ => True

instance (s : Pipeline) : Decidable (JudgedAfterClick s) :=
  inferInstanceAs (Decidable (∀ p ∈ _, _ → _))

instance (s : Pipeline) (a : Act) : Decidable (ClicksFlushed s a) :=
  match a with
  | .worker _ => inferInstanceAs (Decidable (_ → ∀ p ∈ _, _ → _))
  | .push _ | .postback _ _ | .stopServer | .stopWorker => isTrue trivial

section

variable (kopeksOf : Text → Option Kopek) (cfg : Config)

/-- The steps of a run in which no statement fails and nothing is pruned. -/
def quietStep (s : Pipeline) (a : Act) : Option Pipeline :=
  (step kopeksOf cfg s a).filter fun t => t.seen.failures == 0 && t.seen.pruned.isEmpty

end

variable {kopeksOf : Text → Option Kopek} {cfg : Config} {db₀ : Db} {s t : Pipeline}

theorem quietStep_eq_some {a : Act} :
    quietStep kopeksOf cfg s a = some t ↔
      step kopeksOf cfg s a = some t ∧ t.seen.failures = 0 ∧ t.seen.pruned = [] := by
  simp [quietStep, Option.filter_eq_some_iff]

theorem Clicked.mono {events events' : List Event} {token : Text}
    (hsub : ∀ ev ∈ events, ev ∈ events') (h : Clicked events token) :
    Clicked events' token := by
  obtain ⟨ev, hev, hclick⟩ := h
  exact ⟨ev, hsub ev hev, hclick⟩

theorem clicked_append {events events' : List Event} {token : Text} :
    Clicked (events ++ events') token ↔ Clicked events token ∨ Clicked events' token := by
  simp only [Clicked, List.mem_append]
  grind

structure Quiet (db₀ : Db) (s : Pipeline) : Prop where
  ledger : Ledger db₀ s
  failures : s.seen.failures = 0
  pruned : s.seen.pruned = []

theorem Quiet.init (cfg : Config) (db₀ : Db) (started : Int) :
    Quiet db₀ (Pipeline.init cfg db₀ started) :=
  ⟨Ledger.init cfg db₀ started, rfl, rfl⟩

theorem Quiet.step {a : Act} (hq : Quiet db₀ s) (h : quietStep kopeksOf cfg s a = some t) :
    Quiet db₀ t := by
  obtain ⟨hstep, hfailures, hpruned⟩ := quietStep_eq_some.1 h
  exact ⟨hq.ledger.step hstep, hfailures, hpruned⟩

theorem Quiet.rows (hq : Quiet db₀ s) :
    s.db.events.rows = db₀.events.rows ++ s.seen.written.map eventRow :=
  hq.ledger.unpruned hq.pruned

theorem Quiet.accepted (hq : Quiet db₀ s) :
    s.seen.accepted = s.seen.written ++ s.pc.events ++ s.events.pending :=
  hq.ledger.events.inOrder (hq.ledger.quiet hq.failures).1

theorem Quiet.acked (hq : Quiet db₀ s) :
    s.seen.acked.map Prod.fst = s.seen.judged.map Judgement.conversion ++
      s.pc.conversions ++ s.conversions.pending :=
  hq.ledger.conversions.inOrder (hq.ledger.quiet hq.failures).2

theorem Quiet.pending (hq : Quiet db₀ s) (hidle : s.pc.conversions = []) :
    s.conversions.pending = (s.seen.acked.drop s.seen.judged.length).map Prod.fst := by
  have hacked := hq.acked
  rw [hidle, List.append_nil] at hacked
  rw [List.map_drop, hacked, List.drop_left' (by simp)]

theorem Quiet.knows {token : Text} (hq : Quiet db₀ s) (htoken : token ≠ [])
    (h : Clicked s.seen.written token) : s.db.knows token = true := by
  obtain ⟨ev, hev, -, hclick⟩ := h
  have hrow : (eventRow ev).clickToken = some token := by
    simp [eventRow, hclick, htoken]
  have hmem : eventRow ev ∈ s.db.events.rows := by
    rw [hq.rows]
    exact List.mem_append_right _ (List.mem_map_of_mem hev)
  simp only [Db.knows, decide_eq_true_eq]
  exact Table.mem_keys.2 ⟨_, hmem, hrow⟩

/-! ## Counting the wrong verdicts -/

theorem zip_append_left {α β : Type*} (l r : List α) (v : List β)
    (hlen : v.length ≤ l.length) : (l ++ r).zip v = l.zip v := by
  induction l generalizing v with
  | nil =>
      have hv : v = [] := List.eq_nil_of_length_eq_zero (by simpa using hlen)
      rw [hv, List.zip_nil_right, List.zip_nil_right]
  | cons x l ih =>
      cases v with
      | nil => rfl
      | cons y v => exact congrArg _ (ih v (by simpa using hlen))

theorem zip_append_right {α β : Type*} (l : List α) (v w : List β) :
    l.zip (v ++ w) = l.zip v ++ (l.drop v.length).zip w := by
  induction v generalizing l with
  | nil => rw [List.zip_nil_right, List.nil_append, List.length_nil, List.drop_zero]; rfl
  | cons y v ih =>
      cases l with
      | nil => rfl
      | cons x l => exact congrArg _ (ih l)

/-- The verdicts given, and those that the drained batch is going to get. -/
def Pipeline.verdicts (s : Pipeline) : List Bool :=
  s.seen.judged.map Judgement.known ++ s.pc.conversions.map fun c => s.db.knows c.clickToken

/-- A postback was accepted after its click and is not matched. -/
def wrongVerdict (accepted : List Event) (p : (Conversion × Nat) × Bool) : Bool :=
  decide (Clicked (accepted.take p.1.2) p.1.1.clickToken) && !p.2

def Pipeline.misjudged (s : Pipeline) : Nat :=
  (s.seen.acked.zip s.verdicts).countP (wrongVerdict s.seen.accepted)

theorem misjudged_congr (hacked : t.seen.acked = s.seen.acked)
    (haccepted : ∀ p ∈ s.seen.acked, t.seen.accepted.take p.2 = s.seen.accepted.take p.2)
    (hverdicts : t.verdicts = s.verdicts) : t.misjudged = s.misjudged := by
  unfold Pipeline.misjudged
  rw [hacked, hverdicts]
  apply List.countP_congr
  intro p hp
  have hmem := (List.of_mem_zip hp).1
  rw [wrongVerdict, wrongVerdict, haccepted p.1 hmem]

theorem verdicts_congr (hjudged : t.seen.judged = s.seen.judged)
    (hs : s.pc.conversions = []) (ht : t.pc.conversions = []) : t.verdicts = s.verdicts := by
  simp [Pipeline.verdicts, hjudged, hs, ht]

theorem Quiet.verdicts_length (hq : Quiet db₀ s) :
    s.verdicts.length + s.conversions.pending.length = s.seen.acked.length := by
  have hlen := congrArg List.length hq.acked
  simp only [List.length_map, List.length_append] at hlen
  simp only [Pipeline.verdicts, List.length_append, List.length_map]
  omega

/-- Only the drain of the postbacks settles new verdicts. -/
theorem misjudged_step {a : Act} (hq : Quiet db₀ s)
    (h : quietStep kopeksOf cfg s a = some t)
    (hdrain : ¬ ((∃ env, a = .worker env) ∧ s.pc = .drainConversions)) :
    t.misjudged = s.misjudged := by
  obtain ⟨hstep, hfailures, -⟩ := quietStep_eq_some.1 h
  have hm := step_moves kopeksOf cfg hstep
  cases hm with
  | accept hserving hpush =>
      refine misjudged_congr rfl ?_ rfl
      intro p hp
      have hle := hq.ledger.marked p hp
      exact List.take_append_of_le_length hle
  | refuse _ _ | reject _ _ | stopServer | stopWorker _ =>
      exact misjudged_congr rfl (fun p hp => rfl) rfl
  | @ack now q conv hserving hconv =>
      have hlen := hq.verdicts_length
      show ((s.seen.acked ++ [(conv, s.seen.accepted.length)]).zip s.verdicts).countP
        (wrongVerdict s.seen.accepted) = s.misjudged
      rw [zip_append_left _ _ _ (by omega)]
      rfl
  | drainEvents hpc | write hpc _ _ =>
      refine misjudged_congr rfl (fun p hp => rfl) ?_
      rcases hpc with ⟨hpc, rfl⟩ | ⟨hpc, rfl⟩ <;>
        exact verdicts_congr rfl (by rw [hpc]; rfl) rfl
  | writeFails _ _ | judgeFails _ _ | maintainFails _ _ _ =>
      exact absurd hfailures (Nat.succ_ne_zero _)
  | drainConversions hpc => exact absurd ⟨⟨_, rfl⟩, hpc⟩ hdrain
  | judge hpc hclean =>
      refine misjudged_congr rfl (fun p hp => rfl) ?_
      simp [Pipeline.verdicts, hpc, Pc.conversions, Db.knows, recordConversion_events]
  | enter hpc _ | leave hpc _ | refresh hpc | flushed hpc | maintain hpc _ _
  | maintainLater hpc _ | wake hpc =>
      refine misjudged_congr rfl (fun p hp => rfl) ?_
      exact verdicts_congr rfl (by rw [hpc]; rfl) rfl

def Pipeline.wrongNow (s : Pipeline) (p : Conversion × Nat) : Bool :=
  wrongVerdict s.seen.accepted (p, s.db.knows p.1.clickToken)

theorem misjudged_drain {env : Env} (hq : Quiet db₀ s)
    (h : quietStep kopeksOf cfg s (.worker env) = some t) (hpc : s.pc = .drainConversions) :
    t.misjudged = s.misjudged +
      (s.seen.acked.drop s.seen.judged.length).countP s.wrongNow := by
  have ht := (quietStep_eq_some.1 h).1
  simp only [step, workerStep, hpc, Option.some.injEq] at ht
  have hverdicts : s.verdicts = s.seen.judged.map Judgement.known := by
    simp [Pipeline.verdicts, hpc, Pc.conversions]
  have hpending := hq.pending (congrArg Pc.conversions hpc)
  have hnext : t.verdicts = s.verdicts ++
      (s.seen.acked.drop s.seen.judged.length).map fun p => s.db.knows p.1.clickToken := by
    rw [← ht, hverdicts]
    simp only [Pipeline.verdicts, Pc.conversions, ConversionQueue.drain, hpending,
      List.map_map]
    rfl
  have hseen : t.seen = s.seen := by rw [← ht]
  unfold Pipeline.misjudged
  rw [hseen, hnext, zip_append_right, List.countP_append, hverdicts, List.length_map]
  congr 1
  have hzip : (s.seen.acked.drop s.seen.judged.length).zip
      ((s.seen.acked.drop s.seen.judged.length).map fun p => s.db.knows p.1.clickToken) =
      (s.seen.acked.drop s.seen.judged.length).map fun p =>
        (p, s.db.knows p.1.clickToken) := by
    have hmap := List.zip_map' (f := id)
      (g := fun p : Conversion × Nat => s.db.knows p.1.clickToken)
      (l := s.seen.acked.drop s.seen.judged.length)
    rw [List.map_id] at hmap
    exact hmap
  rw [hzip, List.countP_map]
  rfl

/-- Of the clicks before a mark, those that are not waiting are written. -/
theorem Quiet.clicked_take (hq : Quiet db₀ s) (hpc : s.pc = .drainConversions)
    (token : Text) (n : Nat) : Clicked (s.seen.accepted.take n) token ↔
      Clicked (s.seen.written.take n) token ∨ Clicked (s.waitingBefore n) token := by
  have haccepted := hq.accepted
  rw [hpc] at haccepted
  simp only [Pc.events, List.append_nil] at haccepted
  rw [haccepted, List.take_append, clicked_append]
  rfl

theorem clicksFlushed_iff {env : Env} (hq : Quiet db₀ s) (hpc : s.pc = .drainConversions) :
    ClicksFlushed s (.worker env) ↔
      (s.seen.acked.drop s.seen.judged.length).countP s.wrongNow = 0 := by
  rw [List.countP_eq_zero]
  unfold ClicksFlushed
  have hqueued : ∀ p ∈ s.seen.acked.drop s.seen.judged.length, p.1.clickToken ≠ [] := by
    intro p hp
    have hpending := hq.pending (congrArg Pc.conversions hpc)
    have hmem : p.1 ∈ s.conversions.pending := hpending ▸ List.mem_map_of_mem hp
    exact (hq.ledger.queued p.1 (List.mem_append_right _ hmem)).token
  constructor
  · intro h p hp hwrong
    have hflushed := h hpc p hp
    simp only [Pipeline.wrongNow, wrongVerdict, Bool.and_eq_true, decide_eq_true_eq,
      Bool.not_eq_true'] at hwrong
    obtain ⟨hclick, hunknown⟩ := hwrong
    rw [hq.clicked_take hpc] at hclick
    have hknown : s.db.knows p.1.clickToken = true := by
      rcases hclick with hclick | hclick
      · exact hq.knows (hqueued p hp) (hclick.mono fun ev hev => List.mem_of_mem_take hev)
      · exact hflushed hclick
    rw [hknown] at hunknown
    simp at hunknown
  · intro h _ p hp hclick
    have hright := h p hp
    simp only [Pipeline.wrongNow, wrongVerdict, Bool.and_eq_true, decide_eq_true_eq,
      Bool.not_eq_true', not_and, Bool.not_eq_false] at hright
    exact hright ((hq.clicked_take hpc _ _).2 (Or.inr hclick))

theorem judgedAfterClick_of_misjudged (hzero : s.misjudged = 0) : JudgedAfterClick s := by
  unfold Pipeline.misjudged Pipeline.verdicts at hzero
  rw [zip_append_right, List.countP_append, List.zip_map_right, List.countP_map] at hzero
  have hjudged := List.countP_eq_zero.1 (Nat.eq_zero_of_add_eq_zero_right hzero)
  intro p hp hclick
  have hright := hjudged p hp
  simpa [wrongVerdict, hclick] using hright

theorem misjudged_of_judgedAfterClick (hidle : s.pc.conversions = [])
    (h : JudgedAfterClick s) : s.misjudged = 0 := by
  unfold Pipeline.misjudged Pipeline.verdicts
  rw [hidle, List.map_nil, List.append_nil, List.zip_map_right, List.countP_map,
    List.countP_eq_zero]
  intro p hp
  have hknown := h p hp
  simpa [wrongVerdict] using hknown

/-- In a run without a failure and without pruning no postback is judged before
its click exactly when every drain of the postbacks finds their clicks flushed.
The converse needs the drained batch to be through. -/
theorem judgedAfterClick_iff {started : Int} {as : List Act}
    (hrun : Runs.exec (quietStep kopeksOf cfg) (Pipeline.init cfg db₀ started) as = some s) :
    (Runs.Along (quietStep kopeksOf cfg) ClicksFlushed (Pipeline.init cfg db₀ started) as →
        JudgedAfterClick s) ∧
      (s.pc.conversions = [] → JudgedAfterClick s →
        Runs.Along (quietStep kopeksOf cfg) ClicksFlushed
          (Pipeline.init cfg db₀ started) as) := by
  have hiff := Runs.along_iff_measure (C := ClicksFlushed) (I := Quiet db₀)
    Pipeline.misjudged ?_ ?_ ?_ (Quiet.init cfg db₀ started) hrun
  · have hstart : (Pipeline.init cfg db₀ started).misjudged = 0 := rfl
    rw [hstart] at hiff
    constructor
    · intro halong
      exact judgedAfterClick_of_misjudged (hiff.2 halong)
    · intro hidle hjudged
      exact hiff.1 (misjudged_of_judgedAfterClick hidle hjudged)
  · intro u a v hu huv
    exact hu.step huv
  · intro u a v hu hflushed huv
    by_cases hdrain : (∃ env, a = .worker env) ∧ u.pc = .drainConversions
    · obtain ⟨⟨env, rfl⟩, hpc⟩ := hdrain
      have hzero := (clicksFlushed_iff hu hpc).1 hflushed
      have hmeasure := misjudged_drain hu huv hpc
      omega
    · exact misjudged_step hu huv hdrain
  · intro u a v hu hnot huv
    by_cases hdrain : (∃ env, a = .worker env) ∧ u.pc = .drainConversions
    · obtain ⟨⟨env, rfl⟩, hpc⟩ := hdrain
      have hpos : (u.seen.acked.drop u.seen.judged.length).countP u.wrongNow ≠ 0 :=
        fun hzero => hnot ((clicksFlushed_iff hu hpc).2 hzero)
      have hmeasure := misjudged_drain hu huv hpc
      omega
    · have hflushed : ClicksFlushed u a := by
        cases a with
        | worker env => exact fun hpc => absurd ⟨⟨env, rfl⟩, hpc⟩ hdrain
        | _ => trivial
      exact absurd hflushed hnot

/-- A click of one tick whose postback comes before the next. -/
theorem judgedAfterClick_next_tick :
    ∃ s, Runs.exec (quietStep (fun _ => none) { postbackSecret := bytes "s" })
        (Pipeline.init { postbackSecret := bytes "s" } {} 0)
        [.push { type := .outbound, clickToken := bytes "t" },
          .postback 0 (signedQuery (bytes "s") (bytes "t")), .worker {}, .worker {}, .worker {},
          .worker {}, .worker {}, .worker {}] = some s ∧
      s.seen.judged.length = 1 ∧ JudgedAfterClick s := by
  have hrun : (Runs.exec (quietStep (fun _ => none) { postbackSecret := bytes "s" })
      (Pipeline.init { postbackSecret := bytes "s" } {} 0)
      [.push { type := .outbound, clickToken := bytes "t" },
        .postback 0 (signedQuery (bytes "s") (bytes "t")), .worker {}, .worker {}, .worker {},
        .worker {}, .worker {}, .worker {}]).map (fun s => s.seen.judged.length) = some 1 := by
    decide
  obtain ⟨s, hs, hend⟩ := Option.map_eq_some_iff.1 hrun
  exact ⟨s, hs, hend, (judgedAfterClick_iff hs).1 (by decide)⟩

/-- A click and its postback arrive between the two drains. -/
theorem postback_overtakes_click :
    ¬ ∀ (kopeksOf : Text → Option Kopek) (cfg : Config) (db₀ : Db) (started : Int)
        (as : List Act) (s : Pipeline),
      Runs.exec (quietStep kopeksOf cfg) (Pipeline.init cfg db₀ started) as = some s →
        s.seen.refused = 0 → JudgedAfterClick s := by
  intro h
  have hjudged := h (fun _ => none) { postbackSecret := bytes "s" } {} 0
    [.worker {}, .worker {}, .worker {}, .push { type := .outbound, clickToken := bytes "t" },
      .postback 0 (signedQuery (bytes "s") (bytes "t")), .worker {}, .worker {}, .worker {}]
    _ rfl rfl
  exact absurd hjudged (by decide)

end SSize
