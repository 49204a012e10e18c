import SSize.Handlers.Postback

/-!
# What a sequence of postbacks leaves in `conversions`

A `Delivery` is a postback with the state of `events` at the moment
`record_conversion` looks for its click. Whatever happens to `events` between
two postbacks (flushes, pruning) is in the next delivery's table, so a list of
deliveries is any processing of any sequence of postbacks.

The table that results depends on the `reports` only: the accepted postbacks
whose click was found, in their order.
-/

namespace SSize

open Lib

structure Delivery where
  events : EventsTable
  now : TsMs
  query : Query

variable (kopeksOf : Text → Option Kopek) (cfg : Config)

def Delivery.accepted (d : Delivery) : Option Conversion :=
  (handlePostback kopeksOf cfg d.now d.query).2

/-- The handler and, later, `record_conversion`. -/
def process (t : ConversionsTable) (d : Delivery) : ConversionsTable :=
  match d.accepted kopeksOf cfg with
  | none => t
  | some c => (recordConversion {} { events := d.events, conversions := t } c).1.conversions

def processAll (t : ConversionsTable) (ds : List Delivery) : ConversionsTable :=
  ds.foldl (process kopeksOf cfg) t

def Delivery.report (d : Delivery) : Option Conversion :=
  (d.accepted kopeksOf cfg).filter fun c => Db.knows { events := d.events } c.clickToken

def reports (ds : List Delivery) : List Conversion :=
  ds.filterMap (Delivery.report kopeksOf cfg)

/-- A delivery signed with `s`, with these clicks in `events`. -/
def Delivery.signed (clicks : List Text) (now : TsMs) (params : List (Text × Text)) :
    Delivery where
  events := (insertEvents {} {}
    (clicks.map fun token => { type := .outbound, clickToken := token })).1.events
  now := now
  query := .ofList ((bytes "sign", bytes "s") :: params)

variable {kopeksOf cfg}

@[simp] theorem processAll_cons (t : ConversionsTable) (d : Delivery) (ds : List Delivery) :
    processAll kopeksOf cfg t (d :: ds) = processAll kopeksOf cfg (process kopeksOf cfg t d) ds :=
  rfl

theorem Delivery.accepted_accepted {d : Delivery} {c : Conversion}
    (h : d.accepted kopeksOf cfg = some c) : c.Accepted :=
  handlePostback_accepted kopeksOf cfg h

theorem Delivery.report_eq_some {d : Delivery} {c : Conversion} :
    d.report kopeksOf cfg = some c ↔ d.accepted kopeksOf cfg = some c ∧
      Db.knows { events := d.events } c.clickToken = true :=
  Option.filter_eq_some_iff

theorem process_of_report {t : ConversionsTable} {d : Delivery} {c : Conversion}
    (h : d.report kopeksOf cfg = some c) :
    process kopeksOf cfg t d = t.upsert onConflictOrderRef (conversionRow c) := by
  obtain ⟨hacc, hknown⟩ := Delivery.report_eq_some.1 h
  have hclean : RecordsCleanly {} { events := d.events, conversions := t } c :=
    ⟨rfl, fun _ => ⟨rfl, (Delivery.accepted_accepted hacc).status⟩⟩
  rw [process, hacc]
  rcases recordConversion_cases {} { events := d.events, conversions := t } c with
    ⟨e, -, hnot⟩ | ⟨-, -, hunknown⟩ | ⟨hcall, -, -⟩
  · exact absurd hclean hnot
  · exact absurd (hunknown.symm.trans hknown) (by decide)
  · simp only [hcall]

theorem process_of_no_report {t : ConversionsTable} {d : Delivery}
    (h : d.report kopeksOf cfg = none) : process kopeksOf cfg t d = t := by
  rw [process]
  cases hacc : d.accepted kopeksOf cfg with
  | none => rfl
  | some c =>
      have hunknown : Db.knows { events := d.events } c.clickToken = false := by
        rw [Delivery.report, hacc, Option.filter_eq_none_iff] at h
        simpa using h c rfl
      rcases recordConversion_cases {} { events := d.events, conversions := t } c with
        ⟨e, hcall, -⟩ | ⟨hcall, -, -⟩ | ⟨-, -, hknown⟩
      · simp only [hcall]
      · simp only [hcall]
      · exact absurd (hunknown.symm.trans hknown) (by decide)

theorem processAll_eq (t : ConversionsTable) (ds : List Delivery) :
    processAll kopeksOf cfg t ds =
      ((reports kopeksOf cfg ds).map conversionRow).foldl
        (Table.upsert onConflictOrderRef) t := by
  unfold reports
  induction ds generalizing t with
  | nil => rfl
  | cons d ds ih =>
      rw [processAll_cons, ih]
      cases hrep : d.report kopeksOf cfg with
      | none => rw [process_of_no_report hrep, List.filterMap_cons_none hrep]
      | some c =>
          rw [process_of_report hrep, List.filterMap_cons_some hrep, List.map_cons,
            List.foldl_cons]

@[simp] theorem conversionRow_orderRef {c : Conversion} {order : Text} (horder : order ≠ []) :
    (conversionRow c).orderRef = some order ↔ c.orderRef = order := by
  by_cases hempty : c.orderRef = []
  · simp only [conversionRow, hempty, List.isEmpty_nil, if_true, reduceCtorEq, false_iff]
    exact fun h => horder h.symm
  · simp [conversionRow, hempty]

end SSize
