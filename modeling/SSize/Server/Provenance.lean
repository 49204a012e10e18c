import SSize.Server.Run

/-!
# Where tokens come from

A token gets into `events` only through an outbound click and into `conversions`
only through a row of `events`. So every token in either table was generated by a
redirect, also after the prune has deleted the click.
-/

namespace SSize

open Lib

variable {lib : Library} {s t : Server} {a : ServerAct}

/-- An outbound click carries an issued token, every other event carries none. -/
def Server.Traced (s : Server) (ev : Event) : Prop :=
  (ev.type = .outbound ∧ ev.clickToken ≠ [] ∧ s.Issued ev.clickToken) ∨
    (ev.type ≠ .outbound ∧ ev.clickToken = [])

structure Server.RowTraced (s : Server) (r : EventRow) : Prop where
  token_iff : r.clickToken.isSome = true ↔ r.type = EventType.outbound.toString
  issued : ∀ token, r.clickToken = some token → s.Issued token

/-- The binding of an empty token as `NULL` keeps the two notions in step. -/
theorem Server.Traced.row {ev : Event} (h : s.Traced ev) : s.RowTraced (eventRow ev) := by
  rcases h with ⟨htype, htoken, hissued⟩ | ⟨htype, htoken⟩
  · constructor
    · simp [eventRow, htype, htoken]
    · intro token hsome
      have heq : ev.clickToken = token := by simpa [eventRow, htoken] using hsome
      exact heq ▸ hissued
  · constructor
    · have hother : ev.type.toString ≠ EventType.outbound.toString :=
        fun heq => htype (EventType.toString_injective heq)
      simp [eventRow, htoken, hother]
    · intro token hsome
      simp [eventRow, htoken] at hsome

theorem Server.Traced.mono (hissued : ∀ token, s.Issued token → t.Issued token) {ev : Event}
    (h : s.Traced ev) : t.Traced ev := by
  rcases h with ⟨htype, htoken, h⟩ | h
  · exact Or.inl ⟨htype, htoken, hissued _ h⟩
  · exact Or.inr h

theorem Server.RowTraced.mono (hissued : ∀ token, s.Issued token → t.Issued token)
    {r : EventRow} (h : s.RowTraced r) : t.RowTraced r :=
  ⟨h.token_iff, fun token htoken => hissued token (h.issued token htoken)⟩

/-! ## What the pipeline adds to its tables -/

variable {kopeksOf : Text → Option Kopek} {cfg : Config} {p p' : Pipeline} {b : Act}

theorem Moves.mem_accepted (hm : Moves kopeksOf cfg p b p') {ev : Event}
    (h : ev ∈ p'.seen.accepted) : ev ∈ p.seen.accepted ∨ b = .push ev := by
  cases hm with
  | @accept x q hserving hpush =>
      rcases List.mem_append.1 h with h | h
      · exact Or.inl h
      · rw [List.mem_singleton.1 h]
        exact Or.inr rfl
  | _ => exact Or.inl h

/-- A row of `events` was there when the process started or is an accepted event. -/
theorem Ledger.mem_rows {db₀ : Db} (hl : Ledger db₀ p) {r : EventRow}
    (h : r ∈ p.db.events.rows) :
    r ∈ db₀.events.rows ∨ ∃ ev ∈ p.seen.accepted, r = eventRow ev := by
  have hstored := hl.stored.symm.subset (List.mem_append_left p.seen.pruned h)
  rcases List.mem_append.1 hstored with hstart | hwritten
  · exact Or.inl hstart
  · obtain ⟨ev, hev, rfl⟩ := List.mem_map.1 hwritten
    have haccepted := hl.events.conserved.symm.subset (a := ev) (by
      simp [Pipeline.eventHandoff, hev])
    exact Or.inr ⟨ev, haccepted, rfl⟩

/-- A conversion is written under a token of the `events` table, or over a row
that has its token already. -/
theorem Moves.mem_conversions (hm : Moves kopeksOf cfg p b p') {r : ConversionRow}
    (h : r ∈ p'.db.conversions.rows) :
    (∃ old ∈ p.db.conversions.rows, old.clickToken = r.clickToken) ∨
      r.clickToken ∈ p.db.events.keys := by
  cases hm with
  | @write env batch db pc hpc hclean hcall =>
      have hsame := (insertEvents_ok hcall).2.1
      exact Or.inl ⟨r, hsame ▸ h, rfl⟩
  | @judge env c rest hpc hclean =>
      rcases recordConversion_cases env.record p.db c with
        ⟨e, hcall, -⟩ | ⟨hcall, -, -⟩ | ⟨hcall, -, hknown⟩
      · exact Or.inl ⟨r, by simpa [hcall] using h, rfl⟩
      · exact Or.inl ⟨r, by simpa [hcall] using h, rfl⟩
      · have hrow : r ∈ (p.db.conversions.upsert onConflictOrderRef (conversionRow c)).rows := by
          simpa [hcall] using h
        rcases Table.mem_upsert _ hrow with rfl | hold | ⟨old, hold, -, rfl⟩
        · exact Or.inr (by simpa [Db.knows, conversionRow] using hknown)
        · exact Or.inl ⟨r, hold, rfl⟩
        · exact Or.inl ⟨old, hold, rfl⟩
  | maintain hpc hdue hok =>
      exact Or.inl ⟨r, by simpa using h, rfl⟩
  | maintainFails hpc hdue hevents =>
      exact Or.inl ⟨r, by simpa using h, rfl⟩
  | _ => exact Or.inl ⟨r, h, rfl⟩

/-! ## The invariant -/

structure Provenance (s : Server) : Prop where
  todo : ∀ ev, Effect.event ev ∈ s.todo → s.Traced ev
  accepted : ∀ ev ∈ s.pipeline.seen.accepted, s.Traced ev
  ledger : ∃ db₀, Ledger db₀ s.pipeline ∧ ∀ r ∈ db₀.events.rows, s.RowTraced r
  conversions : ∀ r ∈ s.pipeline.db.conversions.rows, s.Issued r.clickToken

theorem Provenance.init (cfg : Config) (started : Int) : Provenance (.init cfg started) where
  todo ev hev := by simp [Server.init] at hev
  accepted ev hev := by simp [Server.init, Pipeline.init] at hev
  ledger := ⟨{}, Ledger.init cfg {} started, fun r hr => by simp at hr⟩
  conversions r hr := by simp [Server.init, Pipeline.init] at hr

theorem Provenance.rows (h : Provenance s) :
    ∀ r ∈ s.pipeline.db.events.rows, s.RowTraced r := by
  intro r hr
  obtain ⟨db₀, hledger, hstart⟩ := h.ledger
  rcases hledger.mem_rows hr with hr | ⟨ev, hev, rfl⟩
  · exact hstart r hr
  · exact (h.accepted ev hev).row

theorem Provenance.known (h : Provenance s) {token : Text}
    (hknown : token ∈ s.pipeline.db.events.keys) : s.Issued token := by
  obtain ⟨r, hr, htoken⟩ := Table.mem_keys.1 hknown
  exact (h.rows r hr).issued token htoken

theorem Provenance.pipeline (h : Provenance s) {todo : List Effect}
    (htodo : ∀ ev, Effect.event ev ∈ todo → s.Traced ev) (hpush : ∀ ev, b = .push ev → s.Traced ev)
    (hstep : step lib.kopeksOf s.cfg s.pipeline b = some p) :
    Provenance { s with todo := todo, pipeline := p } := by
  have hm := step_moves lib.kopeksOf s.cfg hstep
  constructor
  · exact htodo
  · intro ev hev
    rcases hm.mem_accepted hev with hold | hnew
    · exact h.accepted ev hold
    · exact hpush ev hnew
  · obtain ⟨db₀, hledger, hstart⟩ := h.ledger
    have hsame : ∀ token, s.Issued token →
        Server.Issued { s with todo := todo, pipeline := p } token := fun _ hissued => hissued
    exact ⟨db₀, hledger.step hstep, fun r hr => (hstart r hr).mono hsame⟩
  · intro r hr
    rcases hm.mem_conversions hr with ⟨old, hold, htoken⟩ | hknown
    · exact htoken ▸ h.conversions old hold
    · exact h.known hknown

theorem Provenance.step (h : Provenance s) (hstep : serverStep lib s a = some t) :
    Provenance t := by
  have hmoves := serverStep_moves hstep
  have hissued : ∀ token, s.Issued token → t.Issued token := fun _ => hmoves.issued
  cases hmoves with
  | @request amb req peer reply hreply =>
      have heffects := dispatch_effects lib s.cfg amb s.catalog s.cache req
        (clientAddress req peer)
      rw [← hreply] at heffects
      constructor
      · intro ev hev
        rcases heffects.1 ev hev with ⟨htype, htoken, hminted⟩ | hother
        · have hfound := heffects.2 _ hminted
          refine Or.inl ⟨htype, htoken, ⟨_, reply.response.status⟩, ?_, rfl, hfound⟩
          simp [hminted]
        · exact Or.inr hother
      · exact fun ev hev => (h.accepted ev hev).mono hissued
      · obtain ⟨db₀, hledger, hstart⟩ := h.ledger
        exact ⟨db₀, hledger, fun r hr => (hstart r hr).mono hissued⟩
      · exact fun r hr => hissued _ (h.conversions r hr)
  | @push effect rest p htodo hp =>
      apply h.pipeline ?_ ?_ hp
      · intro ev hev
        exact h.todo ev (htodo ▸ List.mem_cons_of_mem effect hev)
      · intro ev hev
        have heffect : effect = .event ev := by
          cases effect with
          | event x => simpa [Effect.act] using hev
          | postback now q => simp [Effect.act] at hev
        exact h.todo ev (htodo ▸ heffect ▸ List.mem_cons_self)
  | setCatalog =>
      constructor
      · exact fun ev hev => (h.todo ev hev).mono hissued
      · exact fun ev hev => (h.accepted ev hev).mono hissued
      · obtain ⟨db₀, hledger, hstart⟩ := h.ledger
        exact ⟨db₀, hledger, fun r hr => (hstart r hr).mono hissued⟩
      · exact h.conversions
  | other hquiet hp => exact h.pipeline h.todo (fun ev hev => absurd hev (hquiet ev)) hp
  | @restart cfg started =>
      constructor
      · intro ev hev
        simp at hev
      · intro ev hev
        simp [Pipeline.init] at hev
      · have hledger := Ledger.init cfg s.pipeline.db started
        exact ⟨s.pipeline.db, hledger, fun r hr => (h.rows r hr).mono hissued⟩
      · exact h.conversions

theorem Provenance.run {cfg : Config} {started : Int} {as : List ServerAct}
    (hrun : Runs.exec (serverStep lib) (.init cfg started) as = some s) : Provenance s := by
  apply Runs.exec_invariant ?_ (Provenance.init cfg started) hrun
  intro u a v hu huv
  exact hu.step huv

theorem Provenance.written (h : Provenance s) (hstep : serverStep lib s a = some t)
    {r : ConversionRow} (hr : r ∈ t.pipeline.db.conversions.rows) : s.Issued r.clickToken := by
  have hpipeline : ∀ (b : Act) (p : Pipeline),
      SSize.step lib.kopeksOf s.cfg s.pipeline b = some p → r ∈ p.db.conversions.rows →
        s.Issued r.clickToken := by
    intro b p hp hr
    rcases (step_moves lib.kopeksOf s.cfg hp).mem_conversions hr with
      ⟨old, hold, htoken⟩ | hknown
    · exact htoken ▸ h.conversions old hold
    · exact h.known hknown
  cases serverStep_moves hstep with
  | request hreply => exact h.conversions r hr
  | push htodo hp => exact hpipeline _ _ hp hr
  | setCatalog => exact h.conversions r hr
  | other hquiet hp => exact hpipeline _ _ hp hr
  | restart => exact h.conversions r hr

/-- Whatever step of the run writes `r`, its token was issued before that step. -/
def IssuedBeforeWritten (lib : Library) (s₀ : Server) (as : List ServerAct)
    (r : ConversionRow) : Prop :=
  ∀ (before after : List ServerAct) (a : ServerAct) (u v : Server),
    as = before ++ a :: after → Runs.exec (serverStep lib) s₀ before = some u →
      serverStep lib u a = some v → r ∉ u.pipeline.db.conversions.rows →
        r ∈ v.pipeline.db.conversions.rows → u.Issued r.clickToken

/-- No invented conversions: a row of `events` has a token exactly when it is an
outbound click, and then one that was issued; a conversion is written only under a
token issued before. -/
theorem noInventedConversions (cfg : Config) (started : Int) {as : List ServerAct}
    (hrun : Runs.exec (serverStep lib) (.init cfg started) as = some s) :
    (∀ r ∈ s.pipeline.db.events.rows,
        (r.clickToken.isSome = true ↔ r.type = EventType.outbound.toString) ∧
          ∀ token, r.clickToken = some token → s.Issued token) ∧
      (∀ r ∈ s.pipeline.db.conversions.rows, s.Issued r.clickToken) ∧
      ∀ r, IssuedBeforeWritten lib (.init cfg started) as r := by
  have hs : Provenance s := .run hrun
  refine ⟨fun r hr => ⟨(hs.rows r hr).token_iff, (hs.rows r hr).issued⟩, hs.conversions, ?_⟩
  intro r before after a u v _ hbefore hstep _ hr
  have hu : Provenance u := .run hbefore
  exact hu.written hstep hr

/-- A click that is answered 302 and written, then its postback. -/
def clickThenPostback : List ServerAct :=
  [.setCatalog (.ofRows [{ id := 7, productUrl := bytes "https://p/7" }] []),
    .request (.bare 1000) { target := bytes "/r/7?p=3" } (bytes "10.0.0.1"), .push] ++
  List.replicate 8 (.worker {}) ++
  [.request (.bare 2000)
      { target := bytes "/cpa/postback?sign=s&subid=000000000000" } (bytes "10.0.0.2"),
    .push] ++
  List.replicate 8 (.worker {})

theorem noInventedConversions_click :
    ∃ s, Runs.exec (serverStep .bare) (.init { postbackSecret := bytes "s" } 0)
        clickThenPostback = some s ∧
      s.pipeline.db.conversions.rows.length = 1 ∧
      (∀ r ∈ s.pipeline.db.conversions.rows, s.Issued r.clickToken) := by
  have hrun : (Runs.exec (serverStep .bare) (.init { postbackSecret := bytes "s" } 0)
      clickThenPostback).map (fun s => s.pipeline.db.conversions.rows.length) = some 1 := by
    decide
  obtain ⟨s, hs, hlength⟩ := Option.map_eq_some_iff.1 hrun
  exact ⟨s, hs, hlength, (noInventedConversions _ 0 hs).2.1⟩

end SSize
