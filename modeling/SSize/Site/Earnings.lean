import SSize.Server.Redirects
import SSize.Site.Latency

/-!
# From a click to its earnings

A redirect hands a token to the partner and logs it, and a postback that comes back with the
token earns only if the click is in its table by then. The click is there two rounds after the
redirect, the postback is judged two rounds after its answer, and in between only a prune can
take the click away.
-/

namespace SSize

open Lib

/-! ## What the table tells of a postback -/

/-- The order of the postback is in the table, or its row where it names no order. -/
def ConversionsTable.Credits (t : ConversionsTable) (c : Conversion) : Prop :=
  ∃ r ∈ t.rows, r.orderRef = (conversionRow c).orderRef ∧
    (r.orderRef = none → r = conversionRow c)

theorem credits_upsert (t : ConversionsTable) (c : Conversion) :
    ConversionsTable.Credits (t.upsert onConflictOrderRef (conversionRow c)) c := by
  cases hkey : (conversionRow c).orderRef with
  | none =>
      refine ⟨conversionRow c, ?_, rfl, fun _ => rfl⟩
      rw [Table.rows_upsert_null onConflictOrderRef hkey]
      exact List.mem_append_right _ (List.mem_singleton_self _)
  | some order =>
      have hmem : order ∈ (t.upsert onConflictOrderRef (conversionRow c)).keys :=
        (Table.mem_keys_upsert onConflictOrderRef).2 (Or.inr hkey)
      obtain ⟨r, hr, horder⟩ := Table.mem_keys.1 hmem
      exact ⟨r, hr, by rw [horder, hkey], fun hnone => by rw [horder] at hnone; cases hnone⟩

/-- Later postbacks leave it. -/
theorem ConversionsTable.Credits.upsert {t : ConversionsTable} {c : Conversion}
    (h : ConversionsTable.Credits t c) (row : ConversionRow) :
    ConversionsTable.Credits (t.upsert onConflictOrderRef row) c := by
  obtain ⟨r, hr, horder, hplain⟩ := h
  cases hkey : r.orderRef with
  | none =>
      have hnull : r ∈ (t.upsert onConflictOrderRef row).rows.filter
          fun x => x.orderRef.isNone := by
        rw [Table.filter_null_upsert]
        exact List.mem_append_left _ (List.mem_filter.2 ⟨hr, by simp [hkey]⟩)
      exact ⟨r, (List.mem_filter.1 hnull).1, horder, hplain⟩
  | some order =>
      have hmem : order ∈ (t.upsert onConflictOrderRef row).keys :=
        (Table.mem_keys_upsert onConflictOrderRef).2
          (Or.inl (Table.mem_keys.2 ⟨r, hr, hkey⟩))
      obtain ⟨r', hr', horder'⟩ := Table.mem_keys.1 hmem
      refine ⟨r', hr', by rw [horder', ← horder, hkey], fun hnone => ?_⟩
      rw [horder'] at hnone
      cases hnone

/-! ## The click and what comes in for it -/

/-- The click is in the table or was pruned, and the postbacks of its token that were judged
after the first `since` are credited unless it was. -/
structure Earning (click : EventRow) (since : Nat) (p : Pipeline) : Prop where
  kept : click ∈ p.db.events.rows ∨ click ∈ p.seen.pruned
  credited : ∀ j ∈ p.seen.judged.drop since, click.clickToken = some j.conversion.clickToken →
    click ∈ p.seen.pruned ∨ ConversionsTable.Credits p.db.conversions j.conversion

variable {kopeksOf : Text → Option Kopek} {cfg : Config} {p q : Pipeline} {b : Act}
  {click : EventRow} {since : Nat}

theorem Moves.pruned_subset (hm : Moves kopeksOf cfg p b q) :
    p.seen.pruned ⊆ q.seen.pruned := by
  cases hm with
  | maintain hpc hdue hok => exact List.subset_append_left _ _
  | _ => exact List.Subset.refl _

theorem Earning.kept_move (h : Earning click since p) (hm : Moves kopeksOf cfg p b q) :
    click ∈ q.db.events.rows ∨ click ∈ q.seen.pruned := by
  rcases h.kept with hrow | hpruned
  · cases hm with
    | write hpc hclean hcall =>
        left
        rw [(insertEvents_ok hcall).1]
        exact List.mem_append_left _ hrow
    | judge hpc hclean =>
        left
        simp only [recordConversion_events]
        exact hrow
    | @maintain env removed hpc hdue hok =>
        cases hexpired : expired cfg.eventRetentionDays env.now click with
        | true => exact Or.inr (List.mem_append_right _ (List.mem_filter.2 ⟨hrow, hexpired⟩))
        | false =>
            left
            simp only [maintenance_ok hok]
            exact List.mem_filter.2 ⟨hrow, by rw [hexpired]; rfl⟩
    | maintainFails hpc hdue hevents =>
        left
        simp only [hevents]
        exact hrow
    | _ => exact Or.inl hrow
  · exact Or.inr (hm.pruned_subset hpruned)

/-- A step that judges nothing and leaves the conversions. -/
theorem Earning.quiet (h : Earning click since p) (hm : Moves kopeksOf cfg p b q)
    (hjudged : q.seen.judged = p.seen.judged) (htable : q.db.conversions = p.db.conversions) :
    Earning click since q where
  kept := h.kept_move hm
  credited := by
    intro j hj htoken
    rw [hjudged] at hj
    rw [htable]
    exact (h.credited j hj htoken).imp_left (hm.pruned_subset ·)

theorem Earning.move (h : Earning click since p) (hsince : since ≤ p.seen.judged.length)
    (hm : Moves kopeksOf cfg p b q) : Earning click since q := by
  have hkept := h.kept_move hm
  have hquiet : q.seen.judged = p.seen.judged → q.db.conversions = p.db.conversions →
      Earning click since q := h.quiet hm
  cases hm with
  | @judge env c rest hpc hclean =>
      refine ⟨hkept, fun j hj htoken => ?_⟩
      rw [List.drop_append_of_le_length hsince] at hj
      rcases recordConversion_cases env.record p.db c with ⟨e, -, hnot⟩ |
        ⟨hcall, -, hunknown⟩ | ⟨hcall, -, hknown⟩
      · exact absurd hclean hnot
      · rw [hcall]
        rcases List.mem_append.1 hj with hold | hnew
        · exact h.credited j hold htoken
        · -- A click that is in the table is known.
          left
          rw [List.mem_singleton.1 hnew] at htoken
          rcases h.kept with hrow | hpruned
          · have hknown : p.db.knows c.clickToken = true :=
              decide_eq_true (Table.mem_keys.2 ⟨click, hrow, htoken⟩)
            rw [hunknown] at hknown
            cases hknown
          · exact hpruned
      · rw [hcall]
        rcases List.mem_append.1 hj with hold | hnew
        · exact (h.credited j hold htoken).imp_right fun hcredits => hcredits.upsert _
        · rw [List.mem_singleton.1 hnew]
          exact Or.inr (credits_upsert p.db.conversions c)
  | write hpc hclean hcall => exact hquiet rfl (insertEvents_ok hcall).2.1
  | maintain | maintainFails => exact hquiet rfl (maintenance_conversions _ _ _)
  | _ => exact hquiet rfl rfl

theorem Moves.judged_prefix (hm : Moves kopeksOf cfg p b q) :
    p.seen.judged <+: q.seen.judged := by
  cases hm with
  | judge => exact List.prefix_append _ _
  | _ => exact List.prefix_rfl

/-! ## In a process -/

variable {lib : Library} {s t : Site} {length : Nat}

theorem earning_run {bs : List SiteAct} (h : Earning click since s.server.pipeline)
    (hsince : since ≤ s.server.pipeline.seen.judged.length)
    (halong : Runs.Along (siteStep lib) (OneProcess length) s bs)
    (hrun : Runs.exec (siteStep lib) s bs = some t) : Earning click since t.server.pipeline := by
  have hkept : since ≤ t.server.pipeline.seen.judged.length ∧
      Earning click since t.server.pipeline := by
    refine Runs.exec_invariant_along (I := fun u => since ≤ u.server.pipeline.seen.judged.length ∧
      Earning click since u.server.pipeline) ?_ ⟨hsince, h⟩ halong hrun
    rintro u a v ⟨hlength, hearning⟩ hone huv
    have hmoved : ∀ {b : Act}, Moves lib.kopeksOf u.server.cfg u.server.pipeline b
        v.server.pipeline → since ≤ v.server.pipeline.seen.judged.length ∧
          Earning click since v.server.pipeline := by
      intro b hm
      exact ⟨hlength.trans hm.judged_prefix.length_le, hearning.move hlength hm⟩
    rcases (siteStep_moves huv).pipeline hone.ne with ⟨hsame, -⟩ | ⟨b, hb, -⟩ | ⟨env, henv, -⟩
    · rw [hsame]
      exact ⟨hlength, hearning⟩
    · exact hmoved hb
    · exact hmoved henv
  exact hkept.2

/-- A request with one effect, and its push. -/
theorem request_push {amb : Ambient} {req : HttpRequest} {peer : Text} {effect : Effect}
    (heffects : (s.server.reply lib amb req peer).effects = [effect])
    (h : Runs.exec (siteStep lib) s [.request amb req peer, .push] = some t) :
    s.stage = .serving ∧ t.clock = s.clock ∧
      step lib.kopeksOf s.server.cfg s.server.pipeline effect.act = some t.server.pipeline := by
  obtain ⟨u, hu, hrest⟩ := Runs.exec_cons_eq_some.1 h
  obtain ⟨v, hv, hend⟩ := Runs.exec_cons_eq_some.1 hrest
  rw [Runs.exec_nil, Option.some.injEq] at hend
  subst hend
  rw [siteStep] at hu
  split at hu
  · next hstage =>
      obtain ⟨server, hserver, rfl⟩ := Option.map_eq_some_iff.1 hu
      rw [serverStep, Option.ite_none_right_eq_some] at hserver
      obtain ⟨-, hserver⟩ := hserver
      have htodo : server.todo = [effect] := by
        rw [← Option.some.inj hserver]
        exact heffects
      have hpipeline : server.pipeline = s.server.pipeline ∧ server.cfg = s.server.cfg := by
        rw [← Option.some.inj hserver]
        exact ⟨rfl, rfl⟩
      rw [siteStep] at hv
      simp only [hstage] at hv
      obtain ⟨server', hpush, rfl⟩ := Option.map_eq_some_iff.1 hv
      rw [serverStep, htodo] at hpush
      obtain ⟨p, hp, rfl⟩ := pipelineStep_eq_some.1 hpush
      rw [← hpipeline.1, ← hpipeline.2]
      exact ⟨hstage, rfl, hp⟩
  · simp at hu

/-- The partner's request. -/
structure AsksPostback (cfg : Config) (req : HttpRequest) (q : Query) : Prop where
  method : req.method = .get
  path : pathOf cfg req = bytes "/cpa/postback"
  query : q = parseQuery (splitTarget req.target).2

theorem reply_postback (lib : Library) (amb : Ambient) (peer : Text) {server : Server}
    {req : HttpRequest} {q : Query} (h : AsksPostback server.cfg req q) :
    (server.reply lib amb req peer).effects = [.postback (amb.clock 0) q] ∧
      (server.reply lib amb req peer).response.status =
        (handlePostback lib.kopeksOf server.cfg (amb.clock 0) q).1.status := by
  obtain ⟨hget, hpath, rfl⟩ := h
  have hfeed : ¬ (req.method = .get ∧ pathOf server.cfg req = bytes "/") := by
    rw [hpath]
    rintro ⟨-, hroot⟩
    exact absurd hroot (by decide)
  have hrouted : routed lib server.cfg amb server.catalog.catalog req (clientAddress req peer) =
      { effects := [.postback (amb.clock 0) (parseQuery (splitTarget req.target).2)]
        result := some (handlePostback lib.kopeksOf server.cfg (amb.clock 0)
          (parseQuery (splitTarget req.target).2)).1 } := by
    have hroutes : (bytes "/item/").isPrefixOf (bytes "/cpa/postback") = false ∧
        (bytes "/r/").isPrefixOf (bytes "/cpa/postback") = false ∧
        (bytes "/static/").isPrefixOf (bytes "/cpa/postback") = false ∧
        (bytes "/media/").isPrefixOf (bytes "/cpa/postback") = false := by decide
    obtain ⟨hitem, hredirect, hstatic, hmedia⟩ := hroutes
    unfold routed route
    simp [hpath, hget, hitem, hredirect, hstatic, hmedia]
  constructor
  · rw [Server.reply, dispatch_effects_eq, if_neg hfeed, hrouted]
  · rw [Server.reply, dispatch_response lib server.cfg amb server.catalog server.cache req _ hfeed,
      hrouted, finish_status]
    rfl

theorem failures_run {bs : List SiteAct}
    (halong : Runs.Along (siteStep lib) (OneProcess length) s bs)
    (hrun : Runs.exec (siteStep lib) s bs = some t) :
    s.server.pipeline.seen.failures ≤ t.server.pipeline.seen.failures := by
  refine Runs.exec_invariant_along (I := fun u =>
    s.server.pipeline.seen.failures ≤ u.server.pipeline.seen.failures) ?_ le_rfl halong hrun
  intro u a v hle hone huv
  exact hle.trans ((siteStep_moves huv).failures_le hone.ne)

/-- The push of an event that is not refused. -/
theorem push_inFlight {ev : Event} (h : step kopeksOf cfg p (.push ev) = some q)
    (haccepted : q.seen.refused = p.seen.refused) : ev ∈ q.inFlight := by
  cases step_moves kopeksOf cfg h with
  | accept hserving hpush =>
      rw [Pipeline.inFlight, List.mem_append]
      right
      simp only [(EventQueue.push_accepted hpush).1]
      exact List.mem_append_right _ (List.mem_singleton_self ev)
  | refuse => exact absurd haccepted (Nat.succ_ne_self _)

/-- The push of a postback that is answered 200. -/
theorem push_postback {now : TsMs} {query : Query}
    (h : step kopeksOf cfg p (.postback now query) = some q)
    (hok : (handlePostback kopeksOf cfg now query).1.status = .ok) :
    ∃ conv, (handlePostback kopeksOf cfg now query).2 = some conv ∧
      conv ∈ q.conversions.pending ∧ q.db = p.db ∧ q.seen.pruned = p.seen.pruned ∧
      q.seen.failures = p.seen.failures := by
  have hsome := (handlePostback_ok_iff kopeksOf cfg now query).1 hok
  cases step_moves kopeksOf cfg h with
  | reject hserving hconv =>
      rw [hconv] at hsome
      cases hsome
  | @ack _ _ conv hserving hconv =>
      refine ⟨conv, hconv, ?_, rfl, rfl, rfl⟩
      exact List.mem_append_right _ (List.mem_singleton_self conv)

theorem postback_token {now : TsMs} {query : Query} {conv : Conversion} {token : Text}
    (hconv : (handlePostback kopeksOf cfg now query).2 = some conv)
    (hsubid : query (bytes "subid") = some token) : conv.clickToken = token ∧ token ≠ [] := by
  unfold handlePostback at hconv
  split at hconv
  · simp at hconv
  · next read hread =>
      rw [Option.some.injEq] at hconv
      subst hconv
      obtain ⟨-, -, hnonempty, htoken, -⟩ := (readPostback_ok_iff kopeksOf cfg).1 hread
      rw [hsubid, Option.some.injEq] at htoken
      exact ⟨htoken.symm, htoken ▸ hnonempty⟩

/-- The first token of a server whose random bytes are zero. -/
def firstToken : Text := makeClickToken (.replicate 12 0)

def boughtItem : HttpRequest :=
  { target := bytes "/cpa/postback?sign=s3cret&status=approved&order=A1&subid=" ++ firstToken }

def earningConfig : Config := { postbackSecret := bytes "s3cret" }

def beforeTheClick : List SiteAct := .commit oneItem :: startUp earningConfig

def theClick : List SiteAct := [.request (.bare 5000) { target := bytes "/r/1" } [], .push]

def thePostback : List SiteAct := [.request (.bare 9000) boughtItem [], .push]

/-- A round with a postback, and two idle ones. -/
def afterThePostback : List SiteAct :=
  List.replicate 8 (.worker {}) ++ [.elapse 1000, .worker {}] ++
    (List.replicate 2 (List.replicate 7 (.worker {}) ++ [.elapse 1000, .worker {}])).flatten

end SSize
