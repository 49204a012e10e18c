import SSize.Lib.Handoff
import SSize.Worker.Moves

/-!
# The pipeline as two hand-overs

Both queues with their drained batches are hand-overs in the sense of
`Lib.Handoff`: of events to the `events` table, delivered a batch at a time, and
of postbacks to `record_conversion`, delivered one at a time. `Moves.events` and
`Moves.conversions` are the simulations; `Ledger` is what every run keeps.
-/

namespace SSize

open Lib

def Pipeline.eventHandoff (s : Pipeline) : Handoff Event where
  accepted := s.seen.accepted
  pending := s.events.pending
  batch := s.pc.events
  done := s.seen.written
  lost := s.seen.lostEvents

def Pipeline.conversionHandoff (s : Pipeline) : Handoff Conversion where
  accepted := s.seen.acked.map Prod.fst
  pending := s.conversions.pending
  batch := s.pc.conversions
  done := s.seen.judged.map Judgement.conversion
  lost := s.seen.lostConversions

variable {kopeksOf : Text → Option Kopek} {cfg : Config} {s t : Pipeline} {a : Act}

/-- A step that moves no event is a stutter of the hand-over. -/
theorem event_stutter (haccepted : t.seen.accepted = s.seen.accepted)
    (hpending : t.events.pending = s.events.pending) (hbatch : t.pc.events = s.pc.events)
    (hwritten : t.seen.written = s.seen.written)
    (hlost : t.seen.lostEvents = s.seen.lostEvents) :
    s.eventHandoff.Move t.eventHandoff := by
  have hsame : t.eventHandoff = s.eventHandoff := by
    simp only [Pipeline.eventHandoff, haccepted, hpending, hbatch, hwritten, hlost]
  rw [hsame]
  exact .stay _

theorem conversion_stutter (hacked : t.seen.acked = s.seen.acked)
    (hpending : t.conversions.pending = s.conversions.pending)
    (hbatch : t.pc.conversions = s.pc.conversions)
    (hjudged : t.seen.judged = s.seen.judged)
    (hlost : t.seen.lostConversions = s.seen.lostConversions) :
    s.conversionHandoff.Move t.conversionHandoff := by
  have hsame : t.conversionHandoff = s.conversionHandoff := by
    simp only [Pipeline.conversionHandoff, hacked, hpending, hbatch, hjudged, hlost]
  rw [hsame]
  exact .stay _

theorem Moves.events (hm : Moves kopeksOf cfg s a t) :
    s.eventHandoff.Move t.eventHandoff := by
  cases hm with
  | @accept ev q hserving hpush =>
      have hpending := (EventQueue.push_accepted hpush).1
      convert Handoff.Move.accept s.eventHandoff ev using 1
      simp [Pipeline.eventHandoff, hpending]
  | refuse hserving hpush =>
      exact event_stutter rfl (EventQueue.push_refused hpush).1 rfl rfl rfl
  | reject hserving hconv => exact .stay _
  | ack hserving hconv => exact event_stutter rfl rfl rfl rfl rfl
  | stopServer => exact event_stutter rfl rfl rfl rfl rfl
  | stopWorker hserving => exact event_stutter rfl rfl rfl rfl rfl
  | enter hpc hrunning => exact event_stutter rfl rfl (by rw [hpc]; rfl) rfl rfl
  | leave hpc hrunning => exact event_stutter rfl rfl (by rw [hpc]; rfl) rfl rfl
  | refresh hpc => exact event_stutter rfl rfl (by rw [hpc]; rfl) rfl rfl
  | drainEvents hpc =>
      rcases hpc with ⟨hpc, rfl⟩ | ⟨hpc, rfl⟩
      · exact .drain s.eventHandoff (congrArg Pc.events hpc)
      · exact .drain s.eventHandoff (congrArg Pc.events hpc)
  | @write env batch db pc hpc hclean hcall =>
      have hbatch : s.eventHandoff.batch = batch ++ [] := by
        rcases hpc with ⟨hpc, -⟩ | ⟨hpc, -⟩ <;> simp [Pipeline.eventHandoff, hpc, Pc.events]
      have hempty : pc.events = [] := by
        rcases hpc with ⟨-, rfl⟩ | ⟨-, rfl⟩ <;> rfl
      convert Handoff.Move.deliver s.eventHandoff batch [] hbatch using 1
      simp [Pipeline.eventHandoff, hempty]
  | @writeFails env batch pc hpc hclean =>
      have hbatch : s.pc.events = batch := by
        rcases hpc with ⟨hpc, -⟩ | ⟨hpc, -⟩ <;> simp [hpc, Pc.events]
      have hempty : pc.events = [] := by
        rcases hpc with ⟨-, rfl⟩ | ⟨-, rfl⟩ <;> rfl
      convert Handoff.Move.lose s.eventHandoff using 1
      simp [Pipeline.eventHandoff, hempty, hbatch]
  | drainConversions hpc => exact event_stutter rfl rfl (by rw [hpc]; rfl) rfl rfl
  | flushed hpc => exact event_stutter rfl rfl (by rw [hpc]; rfl) rfl rfl
  | judge hpc hclean => exact event_stutter rfl rfl (by rw [hpc]; rfl) rfl rfl
  | judgeFails hpc hclean => exact event_stutter rfl rfl (by rw [hpc]; rfl) rfl rfl
  | maintain hpc hdue hok => exact event_stutter rfl rfl (by rw [hpc]; rfl) rfl rfl
  | maintainFails hpc hdue hevents => exact event_stutter rfl rfl (by rw [hpc]; rfl) rfl rfl
  | maintainLater hpc hdue => exact event_stutter rfl rfl (by rw [hpc]; rfl) rfl rfl
  | wake hpc => exact event_stutter rfl rfl (by rw [hpc]; rfl) rfl rfl

theorem Moves.conversions (hm : Moves kopeksOf cfg s a t) :
    s.conversionHandoff.Move t.conversionHandoff := by
  cases hm with
  | accept hserving hpush => exact conversion_stutter rfl rfl rfl rfl rfl
  | refuse hserving hpush => exact conversion_stutter rfl rfl rfl rfl rfl
  | reject hserving hconv => exact .stay _
  | @ack now q conv hserving hconv =>
      convert Handoff.Move.accept s.conversionHandoff conv using 1
      simp [Pipeline.conversionHandoff, ConversionQueue.push]
  | stopServer => exact conversion_stutter rfl rfl rfl rfl rfl
  | stopWorker hserving => exact conversion_stutter rfl rfl rfl rfl rfl
  | enter hpc hrunning => exact conversion_stutter rfl rfl (by rw [hpc]; rfl) rfl rfl
  | leave hpc hrunning => exact conversion_stutter rfl rfl (by rw [hpc]; rfl) rfl rfl
  | refresh hpc => exact conversion_stutter rfl rfl (by rw [hpc]; rfl) rfl rfl
  | drainEvents hpc | write hpc _ _ | writeFails hpc _ =>
      refine conversion_stutter rfl rfl ?_ rfl rfl
      rcases hpc with ⟨hpc, rfl⟩ | ⟨hpc, rfl⟩ <;> rw [hpc] <;> rfl
  | drainConversions hpc =>
      have hbatch : s.conversionHandoff.batch = [] := by
        simp [Pipeline.conversionHandoff, hpc, Pc.conversions]
      convert Handoff.Move.drain s.conversionHandoff hbatch using 1
      simp [Pipeline.conversionHandoff, ConversionQueue.drain, Pc.conversions]
  | flushed hpc => exact conversion_stutter rfl rfl (by rw [hpc]; rfl) rfl rfl
  | @judge env c rest hpc hclean =>
      have hbatch : s.conversionHandoff.batch = [c] ++ rest := by
        simp [Pipeline.conversionHandoff, hpc, Pc.conversions]
      convert Handoff.Move.deliver s.conversionHandoff [c] rest hbatch using 1
      simp [Pipeline.conversionHandoff, Pc.conversions]
  | @judgeFails env c rest hpc hclean =>
      convert Handoff.Move.lose s.conversionHandoff using 1
      simp [Pipeline.conversionHandoff, hpc, Pc.conversions]
  | maintain hpc hdue hok => exact conversion_stutter rfl rfl (by rw [hpc]; rfl) rfl rfl
  | maintainFails hpc hdue hevents =>
      exact conversion_stutter rfl rfl (by rw [hpc]; rfl) rfl rfl
  | maintainLater hpc hdue => exact conversion_stutter rfl rfl (by rw [hpc]; rfl) rfl rfl
  | wake hpc => exact conversion_stutter rfl rfl (by rw [hpc]; rfl) rfl rfl

/-- What every run of a process started on `db₀` keeps. -/
structure Ledger (db₀ : Db) (s : Pipeline) : Prop where
  events : s.eventHandoff.Sound
  conversions : s.conversionHandoff.Sound
  stored : (db₀.events.rows ++ s.seen.written.map eventRow).Perm
    (s.db.events.rows ++ s.seen.pruned)
  unpruned : s.seen.pruned = [] →
    s.db.events.rows = db₀.events.rows ++ s.seen.written.map eventRow
  dropped : s.events.dropped = s.seen.refused
  quiet : s.seen.failures = 0 → s.seen.lostEvents = [] ∧ s.seen.lostConversions = []
  queued : ∀ c ∈ s.pc.conversions ++ s.conversions.pending, c.Accepted
  marked : ∀ p ∈ s.seen.acked, p.2 ≤ s.seen.accepted.length
  joined : s.running = false → s.serving = false

theorem Ledger.init (cfg : Config) (db₀ : Db) (started : Int) :
    Ledger db₀ (Pipeline.init cfg db₀ started) where
  events := Handoff.sound_start
  conversions := Handoff.sound_start
  stored := by simp [Pipeline.init]
  unpruned _ := by simp [Pipeline.init]
  dropped := rfl
  quiet _ := ⟨rfl, rfl⟩
  queued c hc := by simp [Pipeline.init, Pc.conversions] at hc
  marked p hp := by simp [Pipeline.init] at hp
  joined h := by simp [Pipeline.init] at h

theorem Moves.stored {db₀ : Db} (hm : Moves kopeksOf cfg s a t)
    (h : (db₀.events.rows ++ s.seen.written.map eventRow).Perm
      (s.db.events.rows ++ s.seen.pruned)) :
    (db₀.events.rows ++ t.seen.written.map eventRow).Perm
      (t.db.events.rows ++ t.seen.pruned) := by
  cases hm with
  | @write env batch db pc hpc hclean hcall =>
      have hrows := (insertEvents_ok hcall).1
      show (db₀.events.rows ++ (s.seen.written ++ batch).map eventRow).Perm
        (db.events.rows ++ s.seen.pruned)
      rw [hrows, List.map_append, ← List.append_assoc]
      have hadd := h.append_right (batch.map eventRow)
      have hswap : (s.seen.pruned ++ batch.map eventRow).Perm
          (batch.map eventRow ++ s.seen.pruned) := List.perm_append_comm
      apply hadd.trans
      rw [List.append_assoc, List.append_assoc]
      exact hswap.append_left _
  | judge hpc hclean =>
      simp only [recordConversion_events]
      exact h
  | @maintain env removed hpc hdue hok =>
      have hrows := maintenance_ok hok
      show (db₀.events.rows ++ s.seen.written.map eventRow).Perm
        ((maintenance env cfg.eventRetentionDays s.db).1.events.rows ++
          (s.seen.pruned ++ s.db.events.rows.filter (expired cfg.eventRetentionDays env.now)))
      rw [hrows]
      have hsplit :=
        List.filter_append_perm (expired cfg.eventRetentionDays env.now) s.db.events.rows
      apply h.trans
      apply (hsplit.symm.append_right s.seen.pruned).trans
      have hswap : ((s.db.events.rows.filter (expired cfg.eventRetentionDays env.now)) ++
            (s.db.events.rows.filter fun r => !expired cfg.eventRetentionDays env.now r)).Perm
          ((s.db.events.rows.filter fun r => !expired cfg.eventRetentionDays env.now r) ++
            s.db.events.rows.filter (expired cfg.eventRetentionDays env.now)) :=
        List.perm_append_comm
      apply (hswap.append_right s.seen.pruned).trans
      rw [List.append_assoc]
      exact List.perm_append_comm.append_left _
  | maintainFails hpc hdue hevents =>
      simp only [hevents]
      exact h
  | _ => exact h

/-- Nothing in `pruned` means that nothing was ever deleted, so the rows are
still in the order of their insertion. -/
theorem Moves.unpruned {db₀ : Db} (hm : Moves kopeksOf cfg s a t)
    (h : s.seen.pruned = [] →
      s.db.events.rows = db₀.events.rows ++ s.seen.written.map eventRow)
    (hpruned : t.seen.pruned = []) :
    t.db.events.rows = db₀.events.rows ++ t.seen.written.map eventRow := by
  cases hm with
  | @write env batch db pc hpc hclean hcall =>
      have hrows := (insertEvents_ok hcall).1
      simp only [List.map_append]
      rw [hrows, h hpruned, List.append_assoc]
  | judge hpc hclean =>
      simp only [recordConversion_events]
      exact h hpruned
  | @maintain env removed hpc hdue hok =>
      have hrows := maintenance_ok hok
      have hboth := List.append_eq_nil_iff.1 hpruned
      have hkeep : ∀ r ∈ s.db.events.rows, expired cfg.eventRetentionDays env.now r = false := by
        intro r hr
        have hnone := List.filter_eq_nil_iff.1 hboth.2 r hr
        simpa using hnone
      show (maintenance env cfg.eventRetentionDays s.db).1.events.rows =
        db₀.events.rows ++ s.seen.written.map eventRow
      rw [hrows, List.filter_eq_self.2 fun r hr => by simp [hkeep r hr]]
      exact h hboth.1
  | maintainFails hpc hdue hevents =>
      simp only [hevents]
      exact h hpruned
  | _ => exact h hpruned

/-- What `handle_postback` guarantees of a conversion holds of every one that waits. -/
theorem Moves.queued {P : Conversion → Prop}
    (hP : ∀ now q c, (handlePostback kopeksOf cfg now q).2 = some c → P c)
    (hm : Moves kopeksOf cfg s a t)
    (h : ∀ c ∈ s.pc.conversions ++ s.conversions.pending, P c) :
    ∀ c ∈ t.pc.conversions ++ t.conversions.pending, P c := by
  intro c hc
  have hs : c ∈ s.pc.conversions ++ s.conversions.pending ∨ P c := by
    cases hm with
    | @ack now q conv hserving hconv =>
        rw [ConversionQueue.push, ← List.append_assoc, List.mem_append] at hc
        rcases hc with hc | hc
        · exact Or.inl hc
        · rw [List.mem_singleton.1 hc]
          exact Or.inr (hP now q conv hconv)
    | drainConversions hpc =>
        rw [hpc]
        exact Or.inl (by simpa [ConversionQueue.drain, Pc.conversions] using hc)
    | judge hpc hclean =>
        rw [hpc]
        exact Or.inl (List.mem_cons_of_mem _ hc)
    | judgeFails hpc hclean =>
        exact Or.inl (List.mem_append_right _ hc)
    | drainEvents hpc | write hpc _ _ | writeFails hpc _ =>
        rcases hpc with ⟨-, rfl⟩ | ⟨-, rfl⟩ <;> exact Or.inl (List.mem_append_right _ hc)
    | _ => first
        | exact Or.inl hc
        | exact Or.inl (List.mem_append_right _ hc)
  rcases hs with hs | hs
  · exact h c hs
  · exact hs

theorem Moves.dropped (hm : Moves kopeksOf cfg s a t)
    (h : s.events.dropped = s.seen.refused) : t.events.dropped = t.seen.refused := by
  cases hm with
  | accept hserving hpush =>
      have hsame := (EventQueue.push_accepted hpush).2.1
      exact hsame.trans h
  | refuse hserving hpush =>
      have hsame := (EventQueue.push_refused hpush).2.1
      show _ = s.seen.refused + 1
      rw [← h]
      exact hsame
  | _ => exact h

theorem Moves.quiet (hm : Moves kopeksOf cfg s a t)
    (h : s.seen.failures = 0 → s.seen.lostEvents = [] ∧ s.seen.lostConversions = []) :
    t.seen.failures = 0 → t.seen.lostEvents = [] ∧ t.seen.lostConversions = [] := by
  intro ht
  cases hm with
  | writeFails hpc hclean => exact absurd ht (Nat.succ_ne_zero _)
  | judgeFails hpc hclean => exact absurd ht (Nat.succ_ne_zero _)
  | maintainFails hpc hdue hevents => exact absurd ht (Nat.succ_ne_zero _)
  | _ => exact h ht

theorem Moves.marked (hm : Moves kopeksOf cfg s a t)
    (h : ∀ p ∈ s.seen.acked, p.2 ≤ s.seen.accepted.length) :
    ∀ p ∈ t.seen.acked, p.2 ≤ t.seen.accepted.length := by
  intro p hp
  cases hm with
  | accept hserving hpush =>
      have hle := h p hp
      simp only [List.length_append, List.length_singleton]
      omega
  | ack hserving hconv =>
      rcases List.mem_append.1 hp with hp | hp
      · exact h p hp
      · rw [List.mem_singleton.1 hp]
  | _ => exact h p hp

theorem Moves.joined (hm : Moves kopeksOf cfg s a t)
    (h : s.running = false → s.serving = false) : t.running = false → t.serving = false := by
  cases hm with
  | stopServer => exact fun _ => rfl
  | stopWorker hserving => exact fun _ => hserving
  | _ => exact h

theorem Ledger.step {db₀ : Db} (hl : Ledger db₀ s) (h : step kopeksOf cfg s a = some t) :
    Ledger db₀ t := by
  have hm := step_moves kopeksOf cfg h
  constructor
  · exact hm.events.sound hl.events
  · exact hm.conversions.sound hl.conversions
  · exact hm.stored hl.stored
  · exact hm.unpruned hl.unpruned
  · exact hm.dropped hl.dropped
  · exact hm.quiet hl.quiet
  · exact hm.queued (fun _ _ _ hconv => handlePostback_accepted kopeksOf cfg hconv) hl.queued
  · exact hm.marked hl.marked
  · exact hm.joined hl.joined

theorem Ledger.run {db₀ : Db} {as : List Act} (hl : Ledger db₀ s)
    (h : Runs.exec (SSize.step kopeksOf cfg) s as = some t) : Ledger db₀ t := by
  apply Runs.exec_invariant (I := Ledger db₀) ?_ hl h
  intro u a v hu huv
  exact hu.step huv

end SSize
