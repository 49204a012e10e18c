import SSize.Retention.Archive

/-!
# Whether an event is counted before it is pruned

A maintenance call looks at two days, and the timer starts anew with the
process. When the process is down, or not up for an hour, on an event's day and
on the next, no rollup ever counts the event, and the prune deletes it
all the same.
-/

namespace SSize

open Lib

/-- Every deleted event that the statistics should know was rolled up. -/
def PrunedCounted (s : Archive) : Prop :=
  ∀ p ∈ s.pruned, p.1.countable = true → p.2 = true

instance (s : Archive) : Decidable (PrunedCounted s) :=
  inferInstanceAs (Decidable (∀ p ∈ s.pruned, _ → _))

def maintainTimes (as : List ArchiveAct) : List TsMs :=
  as.filterMap fun
    | .maintain now => some now
    | _ => none

/-- Maintenance at these times counts the row before it deletes it: some call
covers its day, and the row has not expired at any earlier one. -/
def CountedInTime (days : Int) (r : EventRow) : List TsMs → Prop
  | [] => True
  | now :: later =>
      rollupCovers now r = true ∨ (expired days now r = false ∧ CountedInTime days r later)

/-- So it is for every countable event from its insertion on. -/
def AllCountedInTime (days : Int) : List ArchiveAct → Prop
  | [] => True
  | .insert _ batch :: as =>
      (∀ ev ∈ batch, (eventRow ev).countable = true →
          CountedInTime days (eventRow ev) (maintainTimes as)) ∧
        AllCountedInTime days as
  | _ :: as => AllCountedInTime days as

instance decidableCountedInTime (days : Int) (r : EventRow) :
    ∀ times, Decidable (CountedInTime days r times)
  | [] => isTrue trivial
  | now :: later =>
      have := decidableCountedInTime days r later
      inferInstanceAs (Decidable (rollupCovers now r = true ∨ _ ∧ _))

instance decidableAllCountedInTime (days : Int) :
    ∀ as, Decidable (AllCountedInTime days as)
  | [] => isTrue trivial
  | .insert _ batch :: as =>
      have := decidableAllCountedInTime days as
      inferInstanceAs (Decidable ((∀ ev ∈ batch, _ → _) ∧ _))
  | .start _ :: as => decidableAllCountedInTime days as
  | .stop _ :: as => decidableAllCountedInTime days as
  | .maintain _ :: as => decidableAllCountedInTime days as

inductive Process where
  | down
  | fresh (started : TsMs)
  | warm

/-- A run of the program: only a running process inserts and maintains, and its
first maintenance comes an hour or more after its start. -/
def scheduled : Process → List ArchiveAct → Bool
  | _, [] => true
  | _, .start now :: as => scheduled (.fresh now) as
  | _, .stop _ :: as => scheduled .down as
  | .down, .insert _ _ :: _ => false
  | p, .insert _ _ :: as => scheduled p as
  | .down, .maintain _ :: _ => false
  | .fresh started, .maintain now :: as =>
      decide (started + 3600000 ≤ now) && scheduled .warm as
  | .warm, .maintain _ :: as => scheduled .warm as

variable {days : Int} {s t : Archive}

def Provided (days : Int) (times : List TsMs) (p : EventRow × Bool) : Prop :=
  p.1.countable = true → p.2 = true ∨ CountedInTime days p.1 times

/-- What one maintenance call settles for one stored row. -/
theorem provided_cons {now : TsMs} {later : List TsMs} {p : EventRow × Bool} :
    Provided days (now :: later) p ↔
      (expired days now p.1 = true → p.1.countable = true →
          (p.2 || rollupCovers now p.1) = true) ∧
        (expired days now p.1 = false →
          Provided days later (p.1, p.2 || rollupCovers now p.1)) := by
  unfold Provided
  rw [CountedInTime]
  simp only [Bool.or_eq_true]
  cases expired days now p.1 <;> grind

theorem forall_mem_rolledUp {now : TsMs} {stored : List (EventRow × Bool)}
    {f : EventRow × Bool → Bool} {P : EventRow × Bool → Prop} :
    (∀ p ∈ (rolledUp now stored).filter f, P p) ↔
      ∀ p ∈ stored, f (p.1, p.2 || rollupCovers now p.1) = true →
        P (p.1, p.2 || rollupCovers now p.1) := by
  constructor
  · intro h p hp hf
    exact h _ (List.mem_filter.2 ⟨List.mem_map_of_mem hp, hf⟩)
  · intro h q hq
    obtain ⟨hmem, hf⟩ := List.mem_filter.1 hq
    obtain ⟨p, hp, rfl⟩ := List.mem_map.1 hmem
    exact h p hp hf

theorem prunedCounted_run {as : List ArchiveAct}
    (hrun : Runs.exec (archiveStep days) s as = some t) :
    PrunedCounted t ↔ PrunedCounted s ∧
      (∀ p ∈ s.stored, Provided days (maintainTimes as) p) ∧ AllCountedInTime days as := by
  induction as generalizing s with
  | nil =>
      cases hrun
      simp [Provided, maintainTimes, CountedInTime, AllCountedInTime]
  | cons a as ih =>
      obtain ⟨u, hu, hrest⟩ := Runs.exec_cons_eq_some.1 hrun
      rw [ih hrest]
      obtain ⟨-, -, ⟨⟨now, rfl | rfl⟩, -, hstored, hpruned⟩ |
        ⟨now, batch, rfl, -, hstored, hpruned⟩ |
        ⟨now, rfl, -, hstored, hpruned⟩⟩ := archiveStep_cases hu
      · simp only [PrunedCounted, hstored, hpruned]
        exact Iff.rfl
      · simp only [PrunedCounted, hstored, hpruned]
        exact Iff.rfl
      · have hbatch : (∀ p ∈ batch.map fun ev => (eventRow ev, false),
              Provided days (maintainTimes as) p) ↔
            ∀ ev ∈ batch, (eventRow ev).countable = true →
              CountedInTime days (eventRow ev) (maintainTimes as) := by
          simp [Provided]
        simp only [PrunedCounted, hstored, hpruned, List.forall_mem_append, hbatch]
        show _ ↔ _ ∧ (∀ p ∈ s.stored, Provided days (maintainTimes as) p) ∧ (_ ∧ _)
        tauto
      · have hsplit : (∀ p ∈ s.stored, Provided days (now :: maintainTimes as) p) ↔
            (∀ p ∈ s.stored, expired days now p.1 = true → p.1.countable = true →
                (p.2 || rollupCovers now p.1) = true) ∧
              ∀ p ∈ s.stored, expired days now p.1 = false →
                Provided days (maintainTimes as) (p.1, p.2 || rollupCovers now p.1) := by
          simp only [provided_cons]
          exact forall₂_and
        simp only [PrunedCounted, hstored, hpruned, List.forall_mem_append,
          forall_mem_rolledUp, Bool.not_eq_true']
        show _ ↔ _ ∧ (∀ p ∈ s.stored, Provided days (now :: maintainTimes as) p) ∧ _
        rw [hsplit]
        show _ ↔ _ ∧ _ ∧ AllCountedInTime days as
        tauto

end SSize
