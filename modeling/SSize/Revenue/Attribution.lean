import SSize.Revenue.Deliveries

/-!
# Whose revenue a row of `conversions` is

The upsert is keyed by the order reference alone, and the row keeps the click
token of the first report. Later reports of the same order, whichever click
they name, put their amount and status into it.
-/

namespace SSize

open Lib

variable {kopeksOf : Text → Option Kopek} {cfg : Config}

section

variable (kopeksOf) (cfg)

def acceptedOf (ds : List Delivery) : List Conversion :=
  ds.filterMap (Delivery.accepted kopeksOf cfg)

def reportsOf (ds : List Delivery) (order : Text) : List Conversion :=
  (reports kopeksOf cfg ds).filter fun c => c.orderRef = order

/-- Every row is what some accepted postback said. -/
def RowsEarned (ds : List Delivery) (t : ConversionsTable) : Prop :=
  ∀ row ∈ t.rows, ∃ c ∈ acceptedOf kopeksOf cfg ds,
    c.clickToken = row.clickToken ∧ (conversionRow c).orderRef = row.orderRef ∧
      c.amount = row.amountKopek ∧ c.status = row.status

/-- For every order that was reported: a postback for the click of its first
report carries the amount and the status of its last report. -/
def FirstClickReportsLast (ds : List Delivery) : Prop :=
  ∀ r ∈ reports kopeksOf cfg ds, r.orderRef ≠ [] →
    ∀ first ∈ (reportsOf kopeksOf cfg ds r.orderRef).head?,
      ∀ last ∈ (reportsOf kopeksOf cfg ds r.orderRef).getLast?,
        ∃ c ∈ acceptedOf kopeksOf cfg ds, c.clickToken = first.clickToken ∧
          c.orderRef = r.orderRef ∧ c.amount = last.amount ∧ c.status = last.status

end

instance (ds : List Delivery) (t : ConversionsTable) :
    Decidable (RowsEarned kopeksOf cfg ds t) :=
  inferInstanceAs (Decidable (∀ row ∈ t.rows, ∃ c ∈ acceptedOf kopeksOf cfg ds, _))

instance (ds : List Delivery) : Decidable (FirstClickReportsLast kopeksOf cfg ds) :=
  inferInstanceAs (Decidable (∀ r ∈ reports kopeksOf cfg ds, r.orderRef ≠ [] →
    ∀ first ∈ (reportsOf kopeksOf cfg ds r.orderRef).head?,
      ∀ last ∈ (reportsOf kopeksOf cfg ds r.orderRef).getLast?,
        ∃ c ∈ acceptedOf kopeksOf cfg ds, _))

theorem mem_acceptedOf {ds : List Delivery} {c : Conversion}
    (h : c ∈ reports kopeksOf cfg ds) : c ∈ acceptedOf kopeksOf cfg ds := by
  obtain ⟨d, hd, hrep⟩ := List.mem_filterMap.1 h
  exact List.mem_filterMap.2 ⟨d, hd, (Delivery.report_eq_some.1 hrep).1⟩

/-- What the reports `first :: rest` of one order make of its row. -/
theorem foldl_set_eq (first : Conversion) (rest : List Conversion) :
    (rest.map conversionRow).foldl onConflictOrderRef.set (conversionRow first) =
      { conversionRow first with
        status := ((first :: rest).getLast (by simp)).status
        amountKopek := ((first :: rest).getLast (by simp)).amount
        ts := ((first :: rest).getLast (by simp)).ts } := by
  induction rest using List.reverseRecOn with
  | nil => rfl
  | append_singleton rest last ih =>
      rw [List.map_append, List.foldl_append, ih]
      simp [onConflictOrderRef, conversionRow]

/-- The row of an order: the click of its first report, the rest of its last. -/
theorem find?_processAll (ds : List Delivery) {order : Text} (horder : order ≠ []) :
    (processAll kopeksOf cfg .empty ds).find? order =
      match reportsOf kopeksOf cfg ds order with
      | [] => none
      | first :: rest => some { conversionRow first with
          status := ((first :: rest).getLast (by simp)).status
          amountKopek := ((first :: rest).getLast (by simp)).amount
          ts := ((first :: rest).getLast (by simp)).ts } := by
  have hfilter : ((reports kopeksOf cfg ds).map conversionRow).filter
        (fun r => decide (r.orderRef = some order)) =
      (reportsOf kopeksOf cfg ds order).map conversionRow := by
    rw [List.filter_map]
    congr 1
    apply List.filter_congr
    intro c _
    simp only [Function.comp_apply, conversionRow_orderRef horder]
  rw [processAll_eq, Table.find?_foldl_upsert, hfilter]
  cases hreports : reportsOf kopeksOf cfg ds order with
  | nil => rfl
  | cons first rest =>
      rw [List.map_cons, List.foldl_cons]
      show (rest.map conversionRow).foldl (Table.mergeInto onConflictOrderRef)
        (some (conversionRow first)) = _
      rw [Table.foldl_mergeInto_some, foldl_set_eq]

theorem mem_processAll_null {ds : List Delivery} {row : ConversionRow}
    (hrow : row ∈ (processAll kopeksOf cfg .empty ds).rows) (hnull : row.orderRef = none) :
    ∃ c ∈ reports kopeksOf cfg ds, conversionRow c = row := by
  rw [processAll_eq] at hrow
  rcases Table.mem_foldl_upsert_null onConflictOrderRef .empty _ hnull hrow with hold | hnew
  · simp at hold
  · exact List.mem_map.1 hnew

theorem reported_of_mem {ds : List Delivery} {row : ConversionRow} {order : Text}
    (hrow : row ∈ (processAll kopeksOf cfg .empty ds).rows)
    (hkey : row.orderRef = some order) :
    order ≠ [] ∧ ∃ r ∈ reports kopeksOf cfg ds, r.orderRef = order := by
  have hfound := (Table.find?_eq_some_iff (k := order)).2 ⟨hrow, hkey⟩
  rw [processAll_eq, Table.find?_foldl_upsert] at hfound
  cases hrows : ((reports kopeksOf cfg ds).map conversionRow).filter
      (fun r => decide (r.orderRef = some order)) with
  | nil =>
      rw [hrows] at hfound
      simp [Table.find?] at hfound
  | cons x xs =>
      have hx : x ∈ ((reports kopeksOf cfg ds).map conversionRow).filter
          (fun r => decide (r.orderRef = some order)) := by rw [hrows]; simp
      obtain ⟨hmem, hxkey⟩ := List.mem_filter.1 hx
      obtain ⟨c, hc, rfl⟩ := List.mem_map.1 hmem
      have hcref : (conversionRow c).orderRef = some order := by simpa using hxkey
      by_cases hempty : c.orderRef = []
      · simp [conversionRow, hempty] at hcref
      · have hsome : c.orderRef = order := by simpa [conversionRow, hempty] using hcref
        exact ⟨hsome ▸ hempty, c, hc, hsome⟩

/-- On a table that was empty at first, every row is what one accepted postback
said exactly when, for every reported order, the click of the first report has a
postback with the amount and the status of the last one. -/
theorem rowsEarned_iff (ds : List Delivery) :
    RowsEarned kopeksOf cfg ds (processAll kopeksOf cfg .empty ds) ↔
      FirstClickReportsLast kopeksOf cfg ds := by
  constructor
  · intro hearned r hr horder first hfirst last hlast
    have hfound : (processAll kopeksOf cfg .empty ds).find? r.orderRef = _ :=
      find?_processAll ds horder
    cases hreports : reportsOf kopeksOf cfg ds r.orderRef with
    | nil => simp [hreports] at hfirst
    | cons c rest =>
        rw [hreports] at hfound hfirst hlast
        obtain ⟨hrow, hkey⟩ := Table.mem_of_find?_eq_some hfound
        obtain ⟨p, hp, htoken, horderRef, hamount, hstatus⟩ := hearned _ hrow
        have hc : c = first := by simpa using hfirst
        have hl : (c :: rest).getLast (by simp) = last := by
          rw [List.getLast?_eq_some_getLast (by simp)] at hlast
          simpa using hlast
        rw [hkey, conversionRow_orderRef horder] at horderRef
        rw [hl] at hamount hstatus
        exact ⟨p, hp, hc ▸ htoken, horderRef, hamount, hstatus⟩
  · intro hlast row hrow
    cases hkey : row.orderRef with
    | none =>
        obtain ⟨c, hc, rfl⟩ := mem_processAll_null hrow hkey
        exact ⟨c, mem_acceptedOf hc, rfl, hkey, rfl, rfl⟩
    | some order =>
        obtain ⟨horder, r, hr, rfl⟩ := reported_of_mem hrow hkey
        have hfound := (Table.find?_eq_some_iff (k := r.orderRef)).2 ⟨hrow, hkey⟩
        rw [find?_processAll ds horder] at hfound
        cases hreports : reportsOf kopeksOf cfg ds r.orderRef with
        | nil => simp [hreports] at hfound
        | cons first rest =>
            rw [hreports, Option.some.injEq] at hfound
            obtain ⟨p, hp, htoken, horderRef, hamount, hstatus⟩ := hlast r hr horder first
              (by rw [hreports]; rfl) ((first :: rest).getLast (by simp))
              (by rw [hreports, List.getLast?_eq_some_getLast (by simp)]; rfl)
            refine ⟨p, hp, ?_, ?_, ?_, ?_⟩
            · rw [htoken, ← hfound]
              rfl
            · exact (conversionRow_orderRef horder).2 horderRef
            · rw [hamount, ← hfound]
            · rw [hstatus, ← hfound]

/-- Two clicks are known, the partner reports one order for both. -/
theorem shared_order_mixes_clicks :
    ¬ ∀ (kopeksOf : Text → Option Kopek) (cfg : Config) (ds : List Delivery),
      RowsEarned kopeksOf cfg ds (processAll kopeksOf cfg .empty ds) := by
  intro h
  have hearned := h (fun _ => none) { postbackSecret := bytes "s" }
    [.signed [bytes "t", bytes "u"] 1 [(bytes "subid", bytes "t"), (bytes "order", bytes "7")],
      .signed [bytes "t", bytes "u"] 2 [(bytes "subid", bytes "u"), (bytes "order", bytes "7"),
        (bytes "status", bytes "approved")]]
  exact absurd hearned (by decide)

end SSize
