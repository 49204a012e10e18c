import SSize.Revenue.Deliveries
import Mathlib.Algebra.BigOperators.Group.List.Basic

/-!
# Retried postbacks

A postback with an order reference updates the row it made. One without is bound
as `NULL`, which the partial unique index skips by design, so its retry is one
more row.

The retried row differs from the original in its `ts` only. The observer of
`Lib.Tables` here is `seenSince`: a row without its time, and whether it lies in
the window of the statistics.
-/

namespace SSize

open Lib

/-- `COUNT(*)` and `COALESCE(SUM(amount_kopek), 0)` of a status. -/
def conversionStats (rows : List ConversionRow) (status : Text) : Nat × Kopek :=
  let group := rows.filter fun r => r.status == status
  (group.length, (group.map fun r => r.amountKopek.getD 0).sum)

def cmdStats (since : TsMs) (rows : List ConversionRow) (status : Text) : Nat × Kopek :=
  conversionStats (rows.filter fun r => decide (since ≤ r.ts)) status

/-- What the statistics can tell about a row. -/
def seenSince (since : TsMs) (r : ConversionRow) : ConversionRow × Bool :=
  ({ r with ts := 0 }, decide (since ≤ r.ts))

theorem conversionStats_congr (since : TsMs) {rows rows' : List ConversionRow}
    (h : rows.map (seenSince since) = rows'.map (seenSince since)) :
    conversionStats rows = conversionStats rows' := by
  have hfactor : ∀ rows : List ConversionRow, conversionStats rows = fun status =>
      let group := (rows.map (seenSince since)).filter fun v => v.1.status == status
      (group.length, (group.map fun v => v.1.amountKopek.getD 0).sum) := by
    intro rows
    funext status
    simp only [List.filter_map, List.length_map, List.map_map]
    rfl
  rw [hfactor rows, hfactor rows', h]

theorem cmdStats_congr (since : TsMs) {rows rows' : List ConversionRow}
    (h : rows.map (seenSince since) = rows'.map (seenSince since)) :
    cmdStats since rows = cmdStats since rows' := by
  have hfilter : ∀ rows : List ConversionRow,
      (rows.filter fun r => decide (since ≤ r.ts)).map (seenSince since) =
        (rows.map (seenSince since)).filter Prod.snd := by
    intro rows
    rw [List.filter_map]
    rfl
  have hwindow : conversionStats (rows.filter fun r => decide (since ≤ r.ts)) =
      conversionStats (rows'.filter fun r => decide (since ≤ r.ts)) := by
    apply conversionStats_congr since
    rw [hfilter, hfilter, h]
  funext status
  exact congrFun hwindow status

theorem conversionStats_cons (x : ConversionRow) (rows : List ConversionRow) (status : Text) :
    conversionStats (x :: rows) status =
      if x.status = status then
        ((conversionStats rows status).1 + 1,
          x.amountKopek.getD 0 + (conversionStats rows status).2)
      else conversionStats rows status := by
  by_cases h : x.status = status <;> simp [conversionStats, h]

theorem conversionStats_perm {rows rows' : List ConversionRow} (h : rows.Perm rows')
    (status : Text) : conversionStats rows status = conversionStats rows' status := by
  have hgroup := h.filter fun r => r.status == status
  simp only [conversionStats]
  rw [hgroup.length_eq, (hgroup.map fun r => r.amountKopek.getD 0).sum_eq]

/-! ## The same table, as far as the statistics go -/

theorem seenSince_key (since : TsMs) (x y : ConversionRow)
    (h : seenSince since x = seenSince since y) : x.orderRef = y.orderRef := by
  simp only [seenSince, Prod.mk.injEq, ConversionRow.mk.injEq] at h
  exact h.1.2.2.1

theorem seenSince_set (since : TsMs) (x y r s : ConversionRow)
    (h : seenSince since x = seenSince since y) (hr : seenSince since r = seenSince since s) :
    seenSince since (onConflictOrderRef.set x r) =
      seenSince since (onConflictOrderRef.set y s) := by
  simp only [seenSince, Prod.mk.injEq, ConversionRow.mk.injEq] at h hr
  simp only [seenSince, onConflictOrderRef, Prod.mk.injEq, ConversionRow.mk.injEq]
  exact ⟨⟨h.1.1, trivial, h.1.2.2.1, hr.1.2.2.2.1, hr.1.2.2.2.2.1, h.1.2.2.2.2.2⟩, hr.2⟩

variable {kopeksOf : Text → Option Kopek} {cfg : Config}

theorem processAll_seen (since : TsMs) (ds : List Delivery) {t u : ConversionsTable}
    (h : t.rows.map (seenSince since) = u.rows.map (seenSince since)) :
    (processAll kopeksOf cfg t ds).rows.map (seenSince since) =
      (processAll kopeksOf cfg u ds).rows.map (seenSince since) := by
  induction ds generalizing t u with
  | nil => exact h
  | cons d ds ih =>
      rw [processAll_cons, processAll_cons]
      apply ih
      cases hrep : d.report kopeksOf cfg with
      | none => rw [process_of_no_report hrep, process_of_no_report hrep, h]
      | some c =>
          rw [process_of_report hrep, process_of_report hrep]
          exact Table.map_rows_upsert_congr onConflictOrderRef (seenSince since)
            (seenSince_key since) (seenSince_set since) h rfl

theorem processAll_perm (ds : List Delivery) {t u : ConversionsTable} {x : ConversionRow}
    (hx : x.orderRef = none) (h : u.rows.Perm (x :: t.rows)) :
    (processAll kopeksOf cfg u ds).rows.Perm (x :: (processAll kopeksOf cfg t ds).rows) := by
  induction ds generalizing t u with
  | nil => exact h
  | cons d ds ih =>
      rw [processAll_cons, processAll_cons]
      apply ih
      cases hrep : d.report kopeksOf cfg with
      | none =>
          rw [process_of_no_report hrep, process_of_no_report hrep]
          exact h
      | some c =>
          rw [process_of_report hrep, process_of_report hrep]
          exact Table.perm_cons_upsert onConflictOrderRef hx h _

/-! ## One retry -/

theorem Delivery.accepted_ts {d : Delivery} {c : Conversion}
    (hc : d.accepted kopeksOf cfg = some c) : c.ts = d.now := by
  unfold Delivery.accepted handlePostback at hc
  split at hc
  · simp at hc
  · next conv hread =>
      rw [Option.some.injEq] at hc
      subst hc
      exact ((readPostback_ok_iff kopeksOf cfg).1 hread).2.2.2.2.1

theorem Delivery.accepted_retry {d d' : Delivery} {c : Conversion}
    (hretry : d'.query = d.query) (hc : d.accepted kopeksOf cfg = some c) :
    d'.accepted kopeksOf cfg = some { c with ts := d'.now } := by
  unfold Delivery.accepted handlePostback at hc ⊢
  cases hread : readPostback kopeksOf cfg d.now d.query with
  | error res => simp [hread] at hc
  | ok conv =>
      simp only [hread, Option.some.injEq] at hc
      subst hc
      have hok := (readPostback_ok_iff kopeksOf cfg).1 hread
      obtain ⟨hsecret, hsign, htoken, hsubid, -, hrest⟩ := hok
      have hagain : readPostback kopeksOf cfg d'.now d'.query =
          .ok { conv with ts := d'.now } := by
        rw [hretry, readPostback_ok_iff]
        exact ⟨hsecret, hsign, htoken, hsubid, rfl, hrest⟩
      rw [hagain]

/-- A retry with an order reference leaves what the original left, unless the
click came in between. -/
theorem process_retry (since : TsMs) {d d' : Delivery} {c : Conversion} (t : ConversionsTable)
    (hretry : d'.query = d.query) (hc : d.accepted kopeksOf cfg = some c)
    (horder : c.orderRef ≠ [])
    (hknown : Db.knows { events := d.events } c.clickToken = true ∨
      Db.knows { events := d'.events } c.clickToken = false)
    (hsince : since ≤ d.now ↔ since ≤ d'.now) :
    (process kopeksOf cfg (process kopeksOf cfg t d) d').rows.map (seenSince since) =
      (process kopeksOf cfg t d).rows.map (seenSince since) := by
  have hc' := Delivery.accepted_retry hretry hc
  by_cases hnow : Db.knows { events := d'.events } c.clickToken = true
  · have hfirst : Db.knows { events := d.events } c.clickToken = true := by
      rcases hknown with hk | hk
      · exact hk
      · rw [hk] at hnow
        simp at hnow
    have hrep : d.report kopeksOf cfg = some c := Delivery.report_eq_some.2 ⟨hc, hfirst⟩
    have hrep' : d'.report kopeksOf cfg = some { c with ts := d'.now } :=
      Delivery.report_eq_some.2 ⟨hc', hnow⟩
    have hts := Delivery.accepted_ts hc
    rw [process_of_report hrep, process_of_report hrep']
    have hkey : (conversionRow c).orderRef = some c.orderRef :=
      (conversionRow_orderRef horder).2 rfl
    apply Table.map_rows_upsert_again onConflictOrderRef (seenSince since) hkey
    · exact (conversionRow_orderRef (c := { c with ts := d'.now }) horder).2 rfl
    · simp [seenSince, onConflictOrderRef, conversionRow, hts, hsince]
    · intro old
      simp [seenSince, onConflictOrderRef, conversionRow, hts, hsince]
  · have hnone : d'.report kopeksOf cfg = none := by
      rw [Delivery.report, hc', Option.filter_some, if_neg hnow]
    rw [process_of_no_report hnone]

/-- The retry of a postback without an order reference is one more row. -/
theorem process_retry_null {d d' : Delivery} {c : Conversion} (t : ConversionsTable)
    (hretry : d'.query = d.query) (hc : d.accepted kopeksOf cfg = some c)
    (horder : c.orderRef = [])
    (hknown : Db.knows { events := d'.events } c.clickToken = true) :
    (process kopeksOf cfg t d').rows = t.rows ++ [conversionRow { c with ts := d'.now }] := by
  have hrep' : d'.report kopeksOf cfg = some { c with ts := d'.now } :=
    Delivery.report_eq_some.2 ⟨Delivery.accepted_retry hretry hc, hknown⟩
  rw [process_of_report hrep']
  apply Table.rows_upsert_null
  simp [conversionRow, horder]

theorem processAll_append_cons (t : ConversionsTable) (pre post : List Delivery)
    (d : Delivery) : processAll kopeksOf cfg t (pre ++ d :: post) =
      processAll kopeksOf cfg (process kopeksOf cfg (processAll kopeksOf cfg t pre) d) post := by
  unfold processAll
  rw [List.foldl_append, List.foldl_cons]

/-- Delivering an accepted postback a second time, immediately after the first.

With an order reference, and unless its click was written between the two, it
leaves every count and sum as one delivery leaves them; so it does for the rows
in the window of `cmd_stats`, when both deliveries are on the same side of it.
Without an order reference the retry of a postback whose click is found counts
once more. -/
theorem retry_conversionStats (t : ConversionsTable) (pre post : List Delivery)
    {d d' : Delivery} {c : Conversion} (hretry : d'.query = d.query)
    (hc : d.accepted kopeksOf cfg = some c) :
    (c.orderRef ≠ [] →
      (Db.knows { events := d.events } c.clickToken = true ∨
        Db.knows { events := d'.events } c.clickToken = false) →
      conversionStats (processAll kopeksOf cfg t (pre ++ d :: d' :: post)).rows =
          conversionStats (processAll kopeksOf cfg t (pre ++ d :: post)).rows ∧
        ∀ since, (since ≤ d.now ↔ since ≤ d'.now) →
          cmdStats since (processAll kopeksOf cfg t (pre ++ d :: d' :: post)).rows =
            cmdStats since (processAll kopeksOf cfg t (pre ++ d :: post)).rows) ∧
    (c.orderRef = [] → Db.knows { events := d'.events } c.clickToken = true →
      ∀ status, conversionStats (processAll kopeksOf cfg t (pre ++ d :: d' :: post)).rows status =
        if c.status = status then
          ((conversionStats (processAll kopeksOf cfg t (pre ++ d :: post)).rows status).1 + 1,
            c.amount.getD 0 +
              (conversionStats (processAll kopeksOf cfg t (pre ++ d :: post)).rows status).2)
        else conversionStats (processAll kopeksOf cfg t (pre ++ d :: post)).rows status) := by
  rw [processAll_append_cons, processAll_append_cons, processAll_cons]
  constructor
  · intro horder hknown
    have hseen : ∀ since, (since ≤ d.now ↔ since ≤ d'.now) →
        (processAll kopeksOf cfg (process kopeksOf cfg (process kopeksOf cfg
            (processAll kopeksOf cfg t pre) d) d') post).rows.map (seenSince since) =
          (processAll kopeksOf cfg (process kopeksOf cfg
            (processAll kopeksOf cfg t pre) d) post).rows.map (seenSince since) := by
      intro since hsince
      apply processAll_seen
      exact process_retry since _ hretry hc horder hknown hsince
    constructor
    · have hmin : min d.now d'.now ≤ d.now ↔ min d.now d'.now ≤ d'.now :=
        iff_of_true (Int.min_le_left _ _) (Int.min_le_right _ _)
      exact conversionStats_congr _ (hseen _ hmin)
    · intro since hsince
      exact cmdStats_congr since (hseen since hsince)
  · intro horder hknown status
    have hrow : (conversionRow { c with ts := d'.now }).orderRef = none := by
      simp [conversionRow, horder]
    have hone := process_retry_null (process kopeksOf cfg (processAll kopeksOf cfg t pre) d)
      hretry hc horder hknown
    have hperm : (processAll kopeksOf cfg (process kopeksOf cfg (process kopeksOf cfg
          (processAll kopeksOf cfg t pre) d) d') post).rows.Perm
        (conversionRow { c with ts := d'.now } :: (processAll kopeksOf cfg
          (process kopeksOf cfg (processAll kopeksOf cfg t pre) d) post).rows) := by
      apply processAll_perm post hrow
      rw [hone]
      exact List.perm_append_singleton _ _
    rw [conversionStats_perm hperm status, conversionStats_cons]
    rfl

/-- A retry a second later, with an order reference. -/
theorem retry_conversionStats_order :
    conversionStats (processAll (fun _ => none) { postbackSecret := bytes "s" } .empty
        [.signed [bytes "t"] 1000 [(bytes "subid", bytes "t"), (bytes "order", bytes "7")],
          .signed [bytes "t"] 2000
            [(bytes "subid", bytes "t"), (bytes "order", bytes "7")]]).rows =
      conversionStats (processAll (fun _ => none) { postbackSecret := bytes "s" } .empty
        [.signed [bytes "t"] 1000
          [(bytes "subid", bytes "t"), (bytes "order", bytes "7")]]).rows := by
  have hretry : (Delivery.signed [bytes "t"] 2000
      [(bytes "subid", bytes "t"), (bytes "order", bytes "7")]).query =
    (Delivery.signed [bytes "t"] 1000
      [(bytes "subid", bytes "t"), (bytes "order", bytes "7")]).query := rfl
  have hc : (Delivery.signed [bytes "t"] 1000
      [(bytes "subid", bytes "t"), (bytes "order", bytes "7")]).accepted (fun _ => none)
        { postbackSecret := bytes "s" } =
      some ⟨bytes "t", 1000, bytes "7", none, bytes "pending", []⟩ := by decide
  exact ((retry_conversionStats .empty [] [] hretry hc).1 (by decide) (Or.inl (by decide))).1

/-- Without an order reference the retry counts twice. So does a retry with one
when the first delivery came before its click was written. -/
theorem retry_counts_again :
    (¬ ∀ (kopeksOf : Text → Option Kopek) (cfg : Config) (t : ConversionsTable)
        (pre post : List Delivery) (d d' : Delivery) (c : Conversion),
      d'.query = d.query → d.accepted kopeksOf cfg = some c →
        conversionStats (processAll kopeksOf cfg t (pre ++ d :: d' :: post)).rows =
          conversionStats (processAll kopeksOf cfg t (pre ++ d :: post)).rows) ∧
    ¬ ∀ (kopeksOf : Text → Option Kopek) (cfg : Config) (t : ConversionsTable)
        (pre post : List Delivery) (d d' : Delivery) (c : Conversion),
      d'.query = d.query → d.accepted kopeksOf cfg = some c → c.orderRef ≠ [] →
        conversionStats (processAll kopeksOf cfg t (pre ++ d :: d' :: post)).rows =
          conversionStats (processAll kopeksOf cfg t (pre ++ d :: post)).rows := by
  constructor
  · intro h
    have hsame := congrFun (h (fun _ => none) { postbackSecret := bytes "s" } .empty [] []
      (.signed [bytes "t"] 1000 [(bytes "subid", bytes "t")])
      (.signed [bytes "t"] 2000 [(bytes "subid", bytes "t")])
      ⟨bytes "t", 1000, [], none, bytes "pending", []⟩ rfl (by decide)) (bytes "pending")
    exact absurd hsame (by decide)
  · intro h
    have hsame := congrFun (h (fun _ => none) { postbackSecret := bytes "s" } .empty [] []
      (.signed [] 1000 [(bytes "subid", bytes "t"), (bytes "order", bytes "7")])
      (.signed [bytes "t"] 2000 [(bytes "subid", bytes "t"), (bytes "order", bytes "7")])
      ⟨bytes "t", 1000, bytes "7", none, bytes "pending", []⟩ rfl (by decide)
      (by decide)) (bytes "pending")
    exact absurd hsame (by decide)

end SSize
