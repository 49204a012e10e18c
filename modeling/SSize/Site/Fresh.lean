import SSize.Catalog.Between
import SSize.Server.Redirects
import SSize.Site.Snapshots
import SSize.Site.Timetable

/-!
# How long a visitor can be behind the tables

The snapshot is that of the tables as they stand once a refresh has begun after the last
transaction, and in a run that is `Prompt` that takes the interval and two rounds at most.
From then on `/r/{id}` follows the rows of the tables.
-/

namespace SSize

open Lib Site CatalogDb

variable {lib : Library} {s t : Site} {a : SiteAct}

/-- What is read while nobody commits is one state. -/
structure Site.Tracks (s : Site) : Prop where
  reads : s.refresher.pc ≠ .start → s.times.lastCommit < s.times.asked →
    s.refresher.reads = .single s.refresher.db
  booted : ∀ cfg catalog, s.stage = .booted cfg catalog →
    s.times.lastCommit < s.times.stamp → catalog = (Reads.single s.refresher.db).catalogOf
  handed : s.stage.working = true → s.times.lastCommit < s.times.stamp →
    s.server.catalog.catalog = (Reads.single s.refresher.db).catalogOf

theorem Site.Tracks.init (db : CatalogDb) (clock : Int) : (Site.init db clock).Tracks where
  reads h := absurd rfl h
  booted cfg catalog h := by simp [Site.init] at h
  handed h := by simp [Site.init, Stage.working] at h

/-- A `SELECT` among others of one state. -/
theorem reads_select {r r' : Refresher} (hselect : refreshStep r .select = some r')
    (h : r.pc ≠ .start → r.reads = .single r.db) : r'.reads = .single r'.db := by
  rw [refreshStep] at hselect
  split at hselect
  case h_1 hpc =>
    cases hselect
    rfl
  all_goals
    next hpc =>
      cases hselect
      have hreads := h (by rw [hpc]; simp)
      simp only
      rw [hreads]
      rfl

/-- The last `SELECT` makes the catalog of that state. -/
theorem completes_single {catalog : Catalog} (hfaithful : s.refresher.Faithful)
    (hlast : s.completes = some catalog)
    (h : s.refresher.reads = .single s.refresher.db) :
    catalog = (Reads.single s.refresher.db).catalogOf := by
  have hloaded := hfaithful.loaded
  rw [completes] at hlast
  split at hlast
  · next items hpc =>
      rw [hpc, RefreshPc.Loaded, h] at hloaded
      rw [← Option.some.inj hlast, hloaded]
      rfl
  · simp at hlast

theorem Site.Tracks.step (h : s.Tracks) (hregular : s.clockwork.Regular)
    (hfaithful : s.refresher.Faithful) (hm : SiteMoves lib s a t) : t.Tracks := by
  have hasked : s.times.asked ≤ s.clock := hregular.asked_le
  have hstamp : s.times.stamp ≤ s.clock := hregular.stamp_le
  cases hm with
  | elapse => exact ⟨h.reads, h.booted, h.handed⟩
  | commit hcommit =>
      refine ⟨fun _ hlt => ?_, fun _ _ _ hlt => ?_, fun _ hlt => ?_⟩ <;>
        exact absurd hlt (by simp only; omega)
  | boot | bootFails =>
      exact ⟨fun hpc => absurd rfl hpc, by simp, by simp [Stage.working]⟩
  | read hready hmore hselect =>
      have hdb := (Refresher.everRead_select hselect).2.2
      refine ⟨fun _ hlt => reads_select hselect fun hpc => ?_, ?_, ?_⟩
      · simp only [if_neg hpc] at hlt
        exact h.reads hpc hlt
      · simp only [hdb]
        exact h.booted
      · simp only [hdb]
        exact h.handed
  | booted hstage hlast hselect =>
      have hdb := (Refresher.everRead_select hselect).2.2
      obtain ⟨hpc, hdone⟩ := (select_reading hselect).2 _ hlast
      refine ⟨fun hnot => absurd hdone hnot, fun cfg catalog heq hlt => ?_,
        by simp [Stage.working]⟩
      obtain ⟨-, rfl⟩ := Stage.booted.inj heq
      rw [hdb]
      exact completes_single hfaithful hlast (h.reads hpc hlt)
  | swap hdue hlast hselect =>
      have hdb := (Refresher.everRead_select hselect).2.2
      obtain ⟨hpc, hdone⟩ := (select_reading hselect).2 _ hlast
      refine ⟨fun hnot => absurd hdone hnot, fun cfg catalog heq => ?_, fun _ hlt => ?_⟩
      · have hworking := hdue.1
        rw [show s.stage = _ from heq] at hworking
        simp [Stage.working] at hworking
      · have hsingle := completes_single hfaithful hlast (h.reads hpc hlt)
        simpa [Site.refreshed, Server.pastRefresh, Server.setCatalog, hdb] using hsingle
  | refreshFails hdue => exact ⟨fun hpc => absurd rfl hpc, h.booted, h.handed⟩
  | startWorker hstage =>
      exact ⟨h.reads, by simp, fun _ hlt => h.booted _ _ hstage hlt⟩
  | startServer hstage =>
      exact ⟨h.reads, by simp, fun _ hlt => h.handed (by rw [hstage]; rfl) hlt⟩
  | request hstage hstep | push hstage hstep | stopWorker hstage hstep
  | worker _ _ _ hstep =>
      have hsame := serverStep_catalog hstep (by simp) (by simp)
      refine ⟨h.reads, h.booted, fun hworking hlt => ?_⟩
      simp only [hsame]
      exact h.handed hworking hlt
  | stopServer hstage hstep =>
      have hsame := serverStep_catalog hstep (by simp) (by simp)
      refine ⟨h.reads, by simp, fun _ hlt => ?_⟩
      simp only [hsame]
      exact h.handed (Stage.working_of_up hstage) hlt
  | down => exact ⟨h.reads, by simp, by simp [Stage.working]⟩

variable {db : CatalogDb} {clock : Int} {as : List SiteAct} {interval length : Nat}

/-- Every step of the run is prompt, in the sense of the timetable. -/
def PromptRun (lib : Library) (interval length : Nat) (s : Site) (as : List SiteAct) : Prop :=
  Runs.Along (siteStep lib) (fun s a => s.clockwork.Prompt interval length a) s as

/-- When nobody has committed for an interval and two rounds, the snapshot is that of the
tables. -/
theorem snapshot_current (hprompt : PromptRun lib interval length (.init db clock) as)
    (hrun : Runs.exec (siteStep lib) (.init db clock) as = some s) (hup : s.stage.up = true)
    (hidle : s.times.lastCommit + max interval length + 2 * length < s.clock) :
    s.server.catalog.catalog = (Reads.single s.refresher.db).catalogOf := by
  have hkept : s.clockwork.Regular ∧ s.clockwork.Refreshing interval length ∧
      s.Sourced ∧ s.Tracks := by
    refine Runs.exec_invariant_along (I := fun s => s.clockwork.Regular ∧
      s.clockwork.Refreshing interval length ∧ s.Sourced ∧ s.Tracks) ?_ ?_ hprompt hrun
    · rintro u a v ⟨hregular, hrefreshing, hsourced, htracks⟩ hprompt huv
      have hm := siteStep_moves huv
      exact ⟨hregular.tick hm.ticks, hrefreshing.tick hregular hprompt hm.ticks,
        hsourced.step huv, htracks.step hregular hsourced.faithful hm⟩
    · refine ⟨regular_init db clock, ?_, .init db clock, .init db clock⟩
      constructor <;> simp [Clockwork.OnTime, Clockwork.deadline, Clockwork.starting,
        Site.clockwork, Site.init, Stage.up]
  obtain ⟨-, hrefreshing, -, htracks⟩ := hkept
  have hage := hrefreshing.age hup
  apply htracks.handed (Stage.working_of_up hup)
  have hstamp : s.clock ≤ s.times.stamp + max interval length + 2 * length := hage
  omega

/-! ## What the visitors get -/

/-- Where the tables send a visitor who is given this token. -/
def CatalogDb.target (db : CatalogDb) (row : ItemRow) (token : Text) : Text :=
  match db.partners.rows.find? fun p => p.id == row.partnerId.getD 0 with
  | some p =>
      if p.enabled then
        renderLink p.linkTemplate
          { url := row.productUrl, subid := token, campaign := orEmpty row.campaign }
      else row.productUrl
  | none => row.productUrl

theorem SendsOn.target {row : ItemRow} {ev : Event} {reply : Reply}
    (h : SendsOn (Reads.single db).catalogOf
      ((Reads.single db).withChildren (itemOfRow row)) ev reply) :
    reply.response.valuesOf (bytes "Location") = [db.target row ev.clickToken] := by
  have hlookup : (Reads.single db).catalogOf.partner
      ((Reads.single db).withChildren (itemOfRow row)).partnerId =
      db.partners.rows.find? fun p => p.id == row.partnerId.getD 0 := rfl
  rw [CatalogDb.target]
  cases hpartner : db.partners.rows.find? fun p => p.id == row.partnerId.getD 0 with
  | none =>
      rw [hpartner] at hlookup
      rw [h.rawTarget fun p hp => by rw [hlookup] at hp; cases hp]
      rfl
  | some p =>
      rw [hpartner] at hlookup
      cases henabled : p.enabled with
      | true =>
          rw [h.partnerTarget p hlookup henabled]
          simp only [henabled, if_true]
          rfl
      | false =>
          rw [h.rawTarget fun q hq => by
            rw [hlookup, Option.some.injEq] at hq
            rw [← hq, henabled]]
          simp only [henabled, Bool.false_eq_true, if_false]
          rfl

/-- A second at a time, with a refresh in each. -/
def fourSeconds : List SiteAct :=
  (List.replicate 4 (idleRound ++ [.elapse 1000, .worker {}])).flatten

end SSize
