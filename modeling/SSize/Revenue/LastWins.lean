import SSize.Revenue.Deliveries
import SSize.Worker.Ledger

/-!
# The last acknowledged postback wins

`processedIn` lists what a run hands to `record_conversion`, each postback with
whether its click was in `events` at that moment. As long as no statement fails
the table is a fold over that list, and once nothing waits any more the list is
the acknowledged postbacks in their order. How the ticks cut the sequence into
batches appears in neither.
-/

namespace SSize

open Lib

structure Processed where
  conversion : Conversion
  known : Bool
deriving DecidableEq

/-- What this step hands to `record_conversion`. -/
def Pipeline.processing (s : Pipeline) : Act → List Processed
  | .worker _ =>
      match s.pc with
      | .recordConversions (c :: _) => [⟨c, decide (c.clickToken ∈ s.db.events.keys)⟩]
      | _ => []
  | _ => []

def processedIn (kopeksOf : Text → Option Kopek) (cfg : Config) :
    Pipeline → List Act → List Processed
  | _, [] => []
  | s, a :: as =>
      s.processing a ++
        match step kopeksOf cfg s a with
        | none => []
        | some t => processedIn kopeksOf cfg t as

/-- A postback for this order (`[]` for none) whose click was known. -/
def Processed.reports (order : Text) (p : Processed) : Bool :=
  p.known && p.conversion.orderRef == order

/-- The rows that the known postbacks are written as. -/
def writtenRows (ps : List Processed) : List ConversionRow :=
  (ps.filter Processed.known).map fun p => conversionRow p.conversion

/-- `t` is `t₀` after `ps`: one row an order, with what its last report says, and
one row for every report without an order. -/
structure LastWins (t₀ : ConversionsTable) (ps : List Processed) (t : ConversionsTable) :
    Prop where
  once : ∀ order, order ≠ [] →
    (t.rows.filter fun r => decide (r.orderRef = some order)).length ≤ 1
  present : ∀ order, order ≠ [] →
    ((∃ r ∈ t.rows, r.orderRef = some order) ↔
      (∃ r ∈ t₀.rows, r.orderRef = some order) ∨ ∃ p ∈ ps, p.reports order = true)
  last : ∀ order, order ≠ [] → ∀ p ∈ (ps.filter (Processed.reports order)).getLast?,
    ∀ r ∈ t.rows, r.orderRef = some order →
      r.status = p.conversion.status ∧ r.amountKopek = p.conversion.amount ∧
        r.ts = p.conversion.ts
  plain : t.rows.filter (fun r => r.orderRef.isNone) =
    (t₀.rows.filter fun r => r.orderRef.isNone) ++
      (ps.filter (Processed.reports [])).map fun p => conversionRow p.conversion

variable {kopeksOf : Text → Option Kopek} {cfg : Config} {s t : Pipeline} {a : Act}

/-! ## The fold -/

theorem writtenRows_append (ps ps' : List Processed) :
    writtenRows (ps ++ ps') = writtenRows ps ++ writtenRows ps' := by
  rw [writtenRows, List.filter_append, List.map_append]
  rfl

theorem conversionRow_isNone (c : Conversion) :
    (conversionRow c).orderRef.isNone = (c.orderRef == []) := by
  unfold conversionRow
  cases c.orderRef <;> rfl

theorem writtenRows_order {ps : List Processed} {order : Text} (horder : order ≠ []) :
    (writtenRows ps).filter (fun r => decide (r.orderRef = some order)) =
      (ps.filter (Processed.reports order)).map fun p => conversionRow p.conversion := by
  rw [writtenRows, List.filter_map, List.filter_filter]
  congr 1
  apply List.filter_congr
  intro p _
  simp [Processed.reports, horder, Bool.and_comm, beq_eq_decide]

theorem writtenRows_plain (ps : List Processed) :
    (writtenRows ps).filter (fun r => r.orderRef.isNone) =
      (ps.filter (Processed.reports [])).map fun p => conversionRow p.conversion := by
  rw [writtenRows, List.filter_map, List.filter_filter]
  congr 1
  apply List.filter_congr
  intro p _
  simp only [Function.comp_apply, conversionRow_isNone, Processed.reports, Bool.and_comm]

theorem mem_keys_writtenRows {ps : List Processed} {order : Text} (horder : order ≠ []) :
    (∃ r ∈ writtenRows ps, r.orderRef = some order) ↔
      ∃ p ∈ ps, p.reports order = true := by
  constructor
  · rintro ⟨r, hr, hkey⟩
    obtain ⟨p, hp, rfl⟩ := List.mem_map.1 hr
    obtain ⟨hmem, hknown⟩ := List.mem_filter.1 hp
    refine ⟨p, hmem, ?_⟩
    simp [Processed.reports, hknown, (conversionRow_orderRef horder).1 hkey]
  · rintro ⟨p, hp, hreports⟩
    simp only [Processed.reports, Bool.and_eq_true, beq_iff_eq] at hreports
    refine ⟨conversionRow p.conversion, ?_, (conversionRow_orderRef horder).2 hreports.2⟩
    exact List.mem_map.2 ⟨p, List.mem_filter.2 ⟨hp, hreports.1⟩, rfl⟩

/-- Whatever is merged into, the last report of an order is what its row says. -/
theorem mergeInto_last (found : Option ConversionRow) (ps : List Processed) (p : Processed) :
    ∃ r, ((ps ++ [p]).map fun p => conversionRow p.conversion).foldl
        (Table.mergeInto onConflictOrderRef) found = some r ∧
      r.status = p.conversion.status ∧ r.amountKopek = p.conversion.amount ∧
        r.ts = p.conversion.ts := by
  rw [List.map_append, List.foldl_append, List.map_singleton, List.foldl_cons, List.foldl_nil]
  refine ⟨_, rfl, ?_⟩
  split <;> exact ⟨rfl, rfl, rfl⟩

theorem lastWins_foldl (t₀ : ConversionsTable) (ps : List Processed) :
    LastWins t₀ ps ((writtenRows ps).foldl (Table.upsert onConflictOrderRef) t₀) where
  once order _ := Table.length_filter_key_le _ order
  present order horder := by
    rw [← Table.mem_keys, Table.mem_keys_foldl_upsert, Table.mem_keys,
      mem_keys_writtenRows horder]
  last order horder p hp r hr hkey := by
    have hfound := (Table.find?_eq_some_iff (k := order)).2 ⟨hr, hkey⟩
    rw [Table.find?_foldl_upsert, writtenRows_order horder] at hfound
    obtain ⟨before, hbefore⟩ := List.getLast?_eq_some_iff.1 hp
    obtain ⟨r', hr', hsays⟩ := mergeInto_last (t₀.find? order) before p
    rw [hbefore, hr', Option.some.injEq] at hfound
    exact hfound ▸ hsays
  plain := by
    rw [Table.filter_null_foldl_upsert, writtenRows_plain]

/-! ## Runs -/

/-- A step that fails nothing writes what it takes up, and nothing else. -/
theorem Moves.conversions_upsert (hm : Moves kopeksOf cfg s a t)
    (hfailures : t.seen.failures = s.seen.failures) :
    t.db.conversions = (writtenRows (s.processing a)).foldl
        (Table.upsert onConflictOrderRef) s.db.conversions ∧
      t.seen.judged.map Judgement.conversion =
        s.seen.judged.map Judgement.conversion ++
          (s.processing a).map Processed.conversion := by
  cases hm with
  | @judge env c rest hpc hclean =>
      have hproc : s.processing (.worker env) = [⟨c, s.db.knows c.clickToken⟩] := by
        simp only [Pipeline.processing, hpc]
        rfl
      rw [hproc]
      refine ⟨?_, by simp⟩
      rcases recordConversion_cases env.record s.db c with ⟨e, -, hnot⟩ |
        ⟨hcall, -, hunknown⟩ | ⟨hcall, -, hknown⟩
      · exact absurd hclean hnot
      · rw [hcall, hunknown]
        rfl
      · rw [hcall, hknown]
        rfl
  | writeFails | judgeFails | maintainFails =>
      exact absurd hfailures (Nat.succ_ne_self _)
  | @write env batch db pc hpc hclean hcall =>
      have hnone : s.processing (.worker env) = [] := by
        rcases hpc with ⟨hpc, -⟩ | ⟨hpc, -⟩ <;> simp only [Pipeline.processing, hpc]
      rw [hnone]
      exact ⟨(insertEvents_ok hcall).2.1, (List.append_nil _).symm⟩
  | @drainEvents env pc hpc =>
      have hnone : s.processing (.worker env) = [] := by
        rcases hpc with ⟨hpc, -⟩ | ⟨hpc, -⟩ <;> simp only [Pipeline.processing, hpc]
      rw [hnone]
      exact ⟨rfl, (List.append_nil _).symm⟩
  | maintain hpc hdue hok =>
      simp only [Pipeline.processing, hpc]
      exact ⟨maintenance_conversions _ _ _, (List.append_nil _).symm⟩
  | enter hpc _ | leave hpc _ | refresh hpc | drainConversions hpc | flushed hpc
  | maintainLater hpc _ | wake hpc =>
      simp only [Pipeline.processing, hpc]
      exact ⟨rfl, (List.append_nil _).symm⟩
  | _ => exact ⟨rfl, (List.append_nil _).symm⟩

theorem conversions_foldl {as : List Act}
    (hrun : Runs.exec (step kopeksOf cfg) s as = some t)
    (hfailures : t.seen.failures = s.seen.failures) :
    t.db.conversions = (writtenRows (processedIn kopeksOf cfg s as)).foldl
        (Table.upsert onConflictOrderRef) s.db.conversions ∧
      t.seen.judged.map Judgement.conversion =
        s.seen.judged.map Judgement.conversion ++
          (processedIn kopeksOf cfg s as).map Processed.conversion := by
  induction as generalizing s with
  | nil =>
      cases hrun
      exact ⟨rfl, (List.append_nil _).symm⟩
  | cons a as ih =>
      obtain ⟨u, hu, hrest⟩ := Runs.exec_cons_eq_some.1 hrun
      have hm := step_moves kopeksOf cfg hu
      have hle := hm.failures_le
      have hle' := failures_le_run hrest
      obtain ⟨htable, hjudged⟩ := hm.conversions_upsert (by omega)
      obtain ⟨htable', hjudged'⟩ := ih hrest (by omega)
      have hcons : processedIn kopeksOf cfg s (a :: as) =
          s.processing a ++ processedIn kopeksOf cfg u as := by
        rw [processedIn, hu]
      rw [hcons, writtenRows_append, List.foldl_append, ← htable, ← htable', List.map_append,
        hjudged', hjudged, List.append_assoc]
      exact ⟨rfl, rfl⟩

/-- Nothing failed so far and every acknowledged postback has been taken up. -/
structure ConversionsFlushed (s : Pipeline) : Prop where
  quiet : s.seen.failures = 0
  batch : s.pc.conversions = []
  pending : s.conversions.pending = []

/-- The postbacks are taken up in the order of their acknowledgement, for every
order the last known one is what the table says, and a run that takes up the same
postbacks in any other batches ends in the same table. -/
theorem lastWins_run {db₀ : Db} {started : Int} {as : List Act}
    (hrun : Runs.exec (step kopeksOf cfg) (.init cfg db₀ started) as = some s)
    (hflushed : ConversionsFlushed s) :
    (processedIn kopeksOf cfg (.init cfg db₀ started) as).map Processed.conversion =
        s.seen.acked.map Prod.fst ∧
      LastWins db₀.conversions (processedIn kopeksOf cfg (.init cfg db₀ started) as)
        s.db.conversions ∧
      ∀ (db₁ : Db) (started₁ : Int) (as₁ : List Act) (s₁ : Pipeline),
        db₁.conversions = db₀.conversions →
        Runs.exec (step kopeksOf cfg) (.init cfg db₁ started₁) as₁ = some s₁ →
        ConversionsFlushed s₁ →
        processedIn kopeksOf cfg (.init cfg db₁ started₁) as₁ =
          processedIn kopeksOf cfg (.init cfg db₀ started) as →
        s₁.db.conversions = s.db.conversions := by
  obtain ⟨htable, hjudged⟩ := conversions_foldl hrun hflushed.quiet
  refine ⟨?_, ?_, ?_⟩
  · have hledger := (Ledger.init cfg db₀ started).run hrun
    have horder := hledger.conversions.inOrder (hledger.quiet hflushed.quiet).2
    rw [Handoff.InOrder] at horder
    simp only [Pipeline.conversionHandoff, hflushed.batch, hflushed.pending,
      List.append_nil] at horder
    rw [horder, hjudged]
    exact (List.nil_append _).symm
  · rw [htable]
    exact lastWins_foldl _ _
  · intro db₁ started₁ as₁ s₁ hdb hrun₁ hflushed₁ hsame
    obtain ⟨htable₁, -⟩ := conversions_foldl hrun₁ hflushed₁.quiet
    have hinit : (Pipeline.init cfg db₁ started₁).db.conversions =
      (Pipeline.init cfg db₀ started).db.conversions := hdb
    rw [htable₁, htable, hsame, hinit]

def clicked : EventsTable :=
  (insertEvents {} {} [{ type := .outbound, clickToken := bytes "t" }]).1.events

/-- One order reported twice, in two ticks. -/
def reportedTwice : List Act :=
  .postback 1 (.ofList [(bytes "sign", bytes "s"), (bytes "subid", bytes "t"),
      (bytes "order", bytes "7")]) ::
    List.replicate 9 (.worker {}) ++
    .postback 2 (.ofList [(bytes "sign", bytes "s"), (bytes "subid", bytes "t"),
      (bytes "order", bytes "7"), (bytes "status", bytes "approved")]) ::
    List.replicate 9 (.worker {})

theorem lastWins_reportedTwice :
    ∃ s, Runs.exec (step (fun _ => none) { postbackSecret := bytes "s" })
        (.init { postbackSecret := bytes "s" } { events := clicked } 0) reportedTwice = some s ∧
      s.db.conversions.rows.map ConversionRow.status = [bytes "approved"] ∧
      LastWins .empty (processedIn (fun _ => none) { postbackSecret := bytes "s" }
        (.init { postbackSecret := bytes "s" } { events := clicked } 0) reportedTwice)
        s.db.conversions := by
  have hrun : (Runs.exec (step (fun _ => none) { postbackSecret := bytes "s" })
        (.init { postbackSecret := bytes "s" } { events := clicked } 0) reportedTwice).map
      (fun s => (s.seen.failures, s.pc.conversions ++ s.conversions.pending,
        s.db.conversions.rows.map ConversionRow.status)) =
      some (0, [], [bytes "approved"]) := by decide +kernel
  obtain ⟨s, hs, hsays⟩ := Option.map_eq_some_iff.1 hrun
  simp only [Prod.mk.injEq, List.append_eq_nil_iff] at hsays
  obtain ⟨hquiet, ⟨hbatch, hpending⟩, hrows⟩ := hsays
  exact ⟨s, hs, hrows, (lastWins_run hs ⟨hquiet, hbatch, hpending⟩).2.1⟩

end SSize
