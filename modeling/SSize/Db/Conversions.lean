import SSize.Db.Metrics

/-!
# `DbConn::record_conversion`

One postback against the two tables it concerns: the click is looked up in
`events`, the conversion is upserted by its order reference.
-/

namespace SSize

open Lib

structure RecordFaults where
  check : Bool := false
  upsert : Bool := false

/-- The bound row. An empty order reference is bound as `NULL`. -/
def conversionRow (c : Conversion) : ConversionRow where
  clickToken := c.clickToken
  ts := c.ts
  orderRef := if c.orderRef.isEmpty then none else some c.orderRef
  amountKopek := c.amount
  status := c.status
  raw := some c.raw

/-- `DO UPDATE SET status, amount_kopek, ts`: the click token of the row in place
stays. -/
def onConflictOrderRef : Table.Merge ConversionRow.orderRef where
  set old new := { old with
    status := new.status
    amountKopek := new.amountKopek
    ts := new.ts }
  key_set _ _ := rfl

/-- `CHECK (status IN ('pending','approved','rejected'))`. -/
def statusChecked (status : Text) : Bool :=
  status == bytes "pending" || status == bytes "approved" || status == bytes "rejected"

/-- `SELECT 1 FROM events WHERE click_token = ?1`. A `NULL` equals nothing. -/
def Db.knows (db : Db) (token : Text) : Bool :=
  decide (token ∈ db.events.keys)

def recordConversion (f : RecordFaults) (db : Db) (c : Conversion) :
    Db × Except SqliteError Bool :=
  if f.check then (db, .error .busy)
  else if !db.knows c.clickToken then (db, .ok false)
  else if f.upsert then (db, .error .busy)
  else if !statusChecked c.status then (db, .error .constraint)
  else
    ({ db with
        conversions := db.conversions.upsert onConflictOrderRef (conversionRow c) },
      .ok true)

/-- What the environment and the data must allow for `record_conversion` to
return. -/
def RecordsCleanly (f : RecordFaults) (db : Db) (c : Conversion) : Prop :=
  f.check = false ∧
    (db.knows c.clickToken = true → f.upsert = false ∧ statusChecked c.status = true)

instance (f : RecordFaults) (db : Db) (c : Conversion) : Decidable (RecordsCleanly f db c) :=
  inferInstanceAs (Decidable (_ ∧ _))

theorem recordConversion_cases (f : RecordFaults) (db : Db) (c : Conversion) :
    (∃ e, recordConversion f db c = (db, .error e) ∧ ¬ RecordsCleanly f db c) ∨
      (recordConversion f db c = (db, .ok false) ∧ RecordsCleanly f db c ∧
        db.knows c.clickToken = false) ∨
      (recordConversion f db c =
          ({ db with
              conversions := db.conversions.upsert onConflictOrderRef (conversionRow c) },
            .ok true) ∧
        RecordsCleanly f db c ∧ db.knows c.clickToken = true) := by
  unfold recordConversion RecordsCleanly
  cases hcheck : f.check
  · cases hknows : db.knows c.clickToken
    · right; left
      simp
    · cases hupsert : f.upsert
      · cases hstatus : statusChecked c.status
        · left
          exact ⟨.constraint, by simp⟩
        · right; right
          simp
      · left
        exact ⟨.busy, by simp⟩
  · left
    exact ⟨.busy, by simp⟩

theorem recordConversion_events (f : RecordFaults) (db : Db) (c : Conversion) :
    (recordConversion f db c).1.events = db.events := by
  rcases recordConversion_cases f db c with ⟨e, h, -⟩ | ⟨h, -⟩ | ⟨h, -⟩ <;> rw [h]

theorem recordConversion_dailyItemStats (f : RecordFaults) (db : Db) (c : Conversion) :
    (recordConversion f db c).1.dailyItemStats = db.dailyItemStats := by
  rcases recordConversion_cases f db c with ⟨e, h, -⟩ | ⟨h, -⟩ | ⟨h, -⟩ <;> rw [h]

/-- Either it returns what the table of events says, or it changes nothing. -/
theorem recordConversion_outcome (f : RecordFaults) (db : Db) (c : Conversion) :
    (recordConversion f db c = ((recordConversion f db c).1, .ok (db.knows c.clickToken)) ∧
        RecordsCleanly f db c) ∨
      (∃ e, recordConversion f db c = (db, .error e) ∧ ¬ RecordsCleanly f db c) := by
  rcases recordConversion_cases f db c with ⟨e, h, hnot⟩ | ⟨h, hclean, hk⟩ | ⟨h, hclean, hk⟩
  · exact Or.inr ⟨e, h, hnot⟩
  · exact Or.inl ⟨by rw [h, hk], hclean⟩
  · exact Or.inl ⟨by rw [h, hk], hclean⟩

end SSize
