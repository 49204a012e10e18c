import SSize.Catalog.Between
import SSize.Site.Moves

/-!
# Where the answers come from

No request is answered from the empty catalog that the handle starts with, or from a
refresh that stopped half way: over crashes, failed refreshes and restarts the snapshot is
the one that was published last. So what visitors see of the catalog tables moves forward
in the order of the commits, table by table.
-/

namespace SSize

open Lib Site

variable {lib : Library} {s t : Site} {a : SiteAct}

/-- Only `set` and a restart change the handle. -/
theorem serverStep_catalog {s t : Server} {a : ServerAct} (h : serverStep lib s a = some t)
    (hset : ∀ catalog, a ≠ .setCatalog catalog)
    (hrestart : ∀ cfg started, a ≠ .restart cfg started) : t.catalog = s.catalog := by
  cases serverStep_moves h with
  | request | push | other => rfl
  | setCatalog => exact absurd rfl (hset _)
  | restart => exact absurd rfl (hrestart _ _)

/-- The refresh that was published last made this catalog. -/
def Refresher.Latest (s : Refresher) (catalog : Catalog) : Prop :=
  ∃ p, s.published.getLast? = some p ∧ p.catalog = catalog

structure Site.Sourced (s : Site) : Prop where
  faithful : s.refresher.Faithful
  forward : s.refresher.Forward
  booted : ∀ cfg catalog, s.stage = .booted cfg catalog → s.refresher.Latest catalog
  handed : s.stage.working = true → s.refresher.Latest s.server.catalog.catalog

theorem Site.Sourced.init (db : CatalogDb) (clock : Int) : (Site.init db clock).Sourced where
  faithful := .init db
  forward := .init db
  booted cfg catalog h := by simp [Site.init] at h
  handed h := by simp [Site.init, Stage.working] at h

theorem latest_of_completes {catalog : Catalog} {r : Refresher}
    (hlast : s.completes = some catalog) (hselect : refreshStep s.refresher .select = some r) :
    r.Latest catalog := by
  rcases Refresher.published_select hselect with ⟨-, hpc⟩ | ⟨items, hpc, hpublished⟩
  · rw [completes] at hlast
    split at hlast
    · next items hitems => exact absurd hitems (hpc items)
    · simp at hlast
  · simp only [completes, hpc, Option.some.injEq] at hlast
    exact ⟨_, by rw [hpublished, List.getLast?_concat], hlast⟩

/-- A step that completes no refresh leaves the last one. -/
theorem Refresher.Latest.frame {r r' : Refresher} {catalog : Catalog} (h : r.Latest catalog)
    (hsame : r'.published = r.published) : r'.Latest catalog := by
  rwa [Latest, hsame]

theorem published_eq_of_completes_none {r : Refresher} (hmore : s.completes = none)
    (hselect : refreshStep s.refresher .select = some r) :
    r.published = s.refresher.published := by
  rcases Refresher.published_select hselect with ⟨hsame, -⟩ | ⟨items, hpc, -⟩
  · exact hsame
  · simp [completes, hpc] at hmore

theorem commit_published {r : Refresher} {tx : List WriterOp}
    (hcommit : refreshStep s.refresher (.commit tx) = some r) :
    r.published = s.refresher.published := by
  rw [refreshStep] at hcommit
  split at hcommit
  · cases hcommit
    rfl
  · cases hcommit
    rfl

/-- What becomes of the handle, and of the catalog that waits for it. -/
theorem SiteMoves.handed (hm : SiteMoves lib s a t) (h : s.Sourced) :
    (∀ cfg catalog, t.stage = .booted cfg catalog → t.refresher.Latest catalog) ∧
      (t.stage.working = true → t.refresher.Latest t.server.catalog.catalog) := by
  cases hm with
  | elapse => exact ⟨h.booted, h.handed⟩
  | commit hcommit =>
      have hsame := commit_published hcommit
      exact ⟨fun cfg catalog hstage => (h.booted cfg catalog hstage).frame hsame,
        fun hworking => (h.handed hworking).frame hsame⟩
  | boot | bootFails | down => simp [Stage.working]
  | read hready hmore hselect =>
      have hsame := published_eq_of_completes_none hmore hselect
      exact ⟨fun cfg catalog hstage => (h.booted cfg catalog hstage).frame hsame,
        fun hworking => (h.handed hworking).frame hsame⟩
  | booted hstage hlast hselect =>
      have hlatest := latest_of_completes hlast hselect
      refine ⟨fun cfg catalog heq => ?_, fun hworking => by simp [Stage.working] at hworking⟩
      obtain ⟨rfl, rfl⟩ := Stage.booted.inj heq
      exact hlatest
  | swap hdue hlast hselect =>
      have hlatest := latest_of_completes hlast hselect
      refine ⟨fun cfg catalog hstage => ?_, fun _ => hlatest⟩
      have hworking := hdue.1
      rw [show s.stage = .booted cfg catalog from hstage] at hworking
      simp [Stage.working] at hworking
  | refreshFails hdue => exact ⟨h.booted, h.handed⟩
  | startWorker hstage =>
      exact ⟨fun cfg catalog heq => by simp at heq, fun _ => h.booted _ _ hstage⟩
  | startServer hstage =>
      exact ⟨fun cfg catalog heq => by simp at heq, fun _ => h.handed (by rw [hstage]; rfl)⟩
  | request hstage hstep | push hstage hstep =>
      have hsame := serverStep_catalog hstep (by simp) (by simp)
      refine ⟨fun cfg catalog heq => ?_, fun hworking => ?_⟩
      · exact h.booted cfg catalog heq
      · rw [hsame]
        exact h.handed hworking
  | stopServer hstage hstep =>
      have hsame := serverStep_catalog hstep (by simp) (by simp)
      refine ⟨fun cfg catalog heq => by simp at heq, fun _ => ?_⟩
      rw [hsame]
      exact h.handed (Stage.working_of_up hstage)
  | stopWorker hstage hstep =>
      have hsame := serverStep_catalog hstep (by simp) (by simp)
      refine ⟨h.booted, fun hworking => ?_⟩
      rw [hsame]
      exact h.handed hworking
  | worker hworking hdue hwake hstep =>
      have hsame := serverStep_catalog hstep (by simp) (by simp)
      refine ⟨h.booted, fun hworking => ?_⟩
      rw [hsame]
      exact h.handed hworking

theorem Site.Sourced.step (h : s.Sourced) (hstep : siteStep lib s a = some t) : t.Sourced := by
  have hm := siteStep_moves hstep
  obtain ⟨hbooted, hhanded⟩ := hm.handed h
  rcases hm.refresher with hsame | ⟨b, hb⟩
  · exact ⟨hsame ▸ h.faithful, hsame ▸ h.forward, hbooted, hhanded⟩
  · exact ⟨h.faithful.step hb, h.forward.step hb, hbooted, hhanded⟩

theorem Site.Sourced.run {as : List SiteAct} (h : s.Sourced)
    (hrun : Runs.exec (siteStep lib) s as = some t) : t.Sourced := by
  apply Runs.exec_invariant ?_ h hrun
  intro u a v hu huv
  exact hu.step huv

/-! ## Forward only -/

theorem published_prefix_run {as : List SiteAct}
    (hrun : Runs.exec (siteStep lib) s as = some t) :
    s.refresher.published <+: t.refresher.published := by
  refine Runs.exec_invariant (I := fun u => s.refresher.published <+: u.refresher.published) ?_
    List.prefix_rfl hrun
  intro u a v hu huv
  rcases (siteStep_moves huv).refresher with hsame | ⟨b, hb⟩
  · rwa [hsame]
  · exact hu.trans (Refresher.published_prefix hb)

/-- Two published catalogs, in the order of their refreshes. -/
theorem Refresher.Forward.published_pair {r : Refresher} (h : r.Forward)
    {before between after : List Published} {p q : Published}
    (hpublished : r.published = before ++ p :: between ++ q :: after) :
    Walks r.committed (p.reads.inOrder ++ q.reads.inOrder) := by
  apply h.walks.sublist
  rw [everRead, hpublished]
  simp only [List.flatMap_append, List.flatMap_cons, List.append_assoc]
  apply List.sublist_append_of_sublist_right
  apply List.Sublist.append_left
  apply List.sublist_append_of_sublist_right
  exact List.sublist_append_left _ _

theorem Refresher.Forward.published_one {r : Refresher} (h : r.Forward) {p : Published}
    (hp : p ∈ r.published) : Walks r.committed p.reads.inOrder := by
  apply h.walks.sublist
  obtain ⟨before, after, hsplit⟩ := List.append_of_mem hp
  rw [everRead, hsplit]
  simp only [List.flatMap_append, List.flatMap_cons, List.append_assoc]
  apply List.sublist_append_of_sublist_right
  exact List.sublist_append_left _ _

/-- Whatever requests are answered in the states `s` and later `t`, the six reads behind
the answers follow one another in the history of commits, unless they are the same. -/
theorem answers_read_forward {db : CatalogDb} {clock : Int} {as bs : List SiteAct}
    (hs : Runs.exec (siteStep lib) (.init db clock) as = some s)
    (ht : Runs.exec (siteStep lib) s bs = some t) (hup : s.stage.up = true)
    (hstill : t.stage.up = true) :
    ∃ r r' : Reads, s.server.catalog.catalog = r.catalogOf ∧
      t.server.catalog.catalog = r'.catalogOf ∧ Walks s.refresher.committed r.inOrder ∧
      (r' = r ∨ Walks t.refresher.committed (r.inOrder ++ r'.inOrder)) := by
  have hsourced := (Site.Sourced.init db clock).run hs
  have hsourced' := hsourced.run ht
  obtain ⟨p, hp, hcatalog⟩ := hsourced.handed (Stage.working_of_up hup)
  obtain ⟨q, hq, hcatalog'⟩ := hsourced'.handed (Stage.working_of_up hstill)
  have hmem := List.mem_of_getLast? hp
  have hmem' := List.mem_of_getLast? hq
  refine ⟨p.reads, q.reads, ?_, ?_, hsourced.forward.published_one hmem, ?_⟩
  · rw [← hcatalog, hsourced.faithful.published p hmem]
  · rw [← hcatalog', hsourced'.faithful.published q hmem']
  obtain ⟨before, hbefore⟩ := List.getLast?_eq_some_iff.1 hp
  obtain ⟨more, hmore⟩ := published_prefix_run ht
  rcases List.eq_nil_or_concat more with rfl | ⟨between, q', rfl⟩
  · rw [List.append_nil] at hmore
    rw [← hmore, hp, Option.some.injEq] at hq
    exact Or.inl (congrArg Published.reads hq.symm)
  · rw [List.concat_eq_append] at hmore
    rw [← hmore, ← List.append_assoc, List.getLast?_concat, Option.some.injEq] at hq
    subst hq
    right
    have hsplit : t.refresher.published = before ++ p :: between ++ q' :: [] := by
      rw [← hmore, hbefore]
      simp
    exact hsourced'.forward.published_pair hsplit

/-- A transaction commits while the second refresh is between its second and third
`SELECT`. -/
theorem answers_read_forward_interrupted :
    ∃ s t, Runs.exec (siteStep .bare) (.init .migrated 0) (.commit oneItem :: startUp {}) =
        some s ∧
      Runs.exec (siteStep .bare) s ([.worker {}, .select, .select, .commit photoAndTag] ++
        List.replicate 4 .select) = some t ∧
      ∃ r r' : Reads, s.server.catalog.catalog = r.catalogOf ∧
        t.server.catalog.catalog = r'.catalogOf ∧ Walks s.refresher.committed r.inOrder ∧
        (r' = r ∨ Walks t.refresher.committed (r.inOrder ++ r'.inOrder)) := by
  have hrun : ((Runs.exec (siteStep .bare) (.init .migrated 0)
      (.commit oneItem :: startUp {})).bind fun s =>
        (Runs.exec (siteStep .bare) s ([.worker {}, .select, .select, .commit photoAndTag] ++
          List.replicate 4 .select)).map fun t => (s.stage.up, t.stage.up)) =
      some (true, true) := by
    decide
  obtain ⟨s, hs, ht⟩ := Option.bind_eq_some_iff.1 hrun
  obtain ⟨t, ht, hboth⟩ := Option.map_eq_some_iff.1 ht
  obtain ⟨hup, hstill⟩ := Prod.mk.inj hboth
  exact ⟨s, t, hs, ht, answers_read_forward hs ht hup hstill⟩

/-! ## Transactions between the `SELECT`s -/

theorem chained_run {db : CatalogDb} {clock : Int} {as : List SiteAct} (hschema : db.Schema)
    (hrun : Runs.exec (siteStep lib) (.init db clock) as = some s) : s.refresher.Chained := by
  refine Runs.exec_invariant (I := fun s => s.refresher.Chained) ?_ (.init hschema) hrun
  intro u a v hu huv
  rcases (siteStep_moves huv).refresher with hsame | ⟨b, hb⟩
  · rwa [hsame]
  · exact hu.step hb

end SSize
