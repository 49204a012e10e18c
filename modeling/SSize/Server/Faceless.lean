import SSize.Lib.Unwinding
import SSize.Server.Headers
import SSize.Server.Run
import SSize.Worker.Faceless

/-!
# Who asks does not matter

Two runs of the server with the same requests by other people: other cookies, other addresses,
other referrers, other browsers as long as a bot stays a bot. All answers are the same but for
their cookies, and so is everything that is stored but for the columns that say who it was.
-/

namespace SSize

open Lib

/-! ## The same request by somebody else -/

/-- The world answers the same, but for the ids that it draws. -/
structure Ambient.Alike (amb amb' : Ambient) : Prop where
  clock : amb'.clock = amb.clock
  tokenDraw : amb'.tokenDraw = amb.tokenDraw
  render : amb'.render = amb.render
  files : amb'.files = amb.files

structure HttpRequest.Alike (req req' : HttpRequest) : Prop where
  method : req'.method = req.method
  target : req'.target = req.target
  ifNoneMatch : req'.ifNoneMatch = req.ifNoneMatch
  body : req'.body = req.body
  bot : classifyUa req'.userAgent = bytes "bot" ↔ classifyUa req.userAgent = bytes "bot"

inductive ServerAct.Alike : ServerAct → ServerAct → Prop
  | request {amb amb' : Ambient} {req req' : HttpRequest} (hamb : amb.Alike amb')
      (hreq : req.Alike req') (peer peer' : Text) :
      Alike (.request amb req peer) (.request amb' req' peer')
  | same (a : ServerAct) : Alike a a

theorem Ambient.Alike.eq_with {amb amb' : Ambient} (h : amb.Alike amb') :
    amb' = { amb with anonDraw := amb'.anonDraw, sessionDraw := amb'.sessionDraw } := by
  cases amb'
  obtain ⟨rfl, rfl, rfl, rfl⟩ := h
  rfl

/-! ## Replies without their cookies -/

def Response.withoutCookies (res : Response) : Response :=
  { res with fields := res.fields.filter fun f => f.1 != bytes "Set-Cookie" }

theorem Response.withoutCookies_set (res : Response) {name : Text}
    (hname : name ≠ bytes "Set-Cookie") (value : Text) :
    (res.set name value).withoutCookies = res.withoutCookies.set name value := by
  have hnew : (name != bytes "Set-Cookie") = true := bne_iff_ne.2 hname
  simp only [withoutCookies, set, List.filter_append, List.filter_filter, Bool.and_comm,
    List.filter_singleton, hnew, cond_true]

theorem withoutCookies_applyIdentity (cfg : Config) (id : Identity) (res : Response) :
    (applyIdentity cfg id res).withoutCookies = res.withoutCookies := by
  have hdropped : ∀ (name value : Text) (maxAge : Int) (res : Response),
      (setCookie cfg name value maxAge res).withoutCookies = res.withoutCookies := by
    intro name value maxAge res
    simp [setCookie, Response.insert, Response.withoutCookies, List.filter_append]
  unfold applyIdentity
  split
  · rw [hdropped, hdropped]
  · rw [hdropped]

theorem any_withoutCookies (res : Response) {name : Text} (hname : name ≠ bytes "Set-Cookie") :
    res.withoutCookies.fields.any (fun f => f.1 == name) =
      res.fields.any fun f => f.1 == name := by
  rw [Response.withoutCookies, List.any_filter]
  congr 1
  funext f
  by_cases hf : f.1 = name
  · simp [hf, hname]
  · simp [hf]

/-- `finish` as it shows without the cookies. -/
theorem withoutCookies_finish (cfg : Config) (id : Identity) (res : Response) :
    (finish cfg id res).withoutCookies =
      if (res.withoutCookies.set (bytes "Server") (bytes "ssize")).fields.any
          (fun f => f.1 == bytes "Cache-Control") then
        res.withoutCookies.set (bytes "Server") (bytes "ssize")
      else (res.withoutCookies.set (bytes "Server") (bytes "ssize")).set
        (bytes "Cache-Control") noStore := by
  have hserved : ((applyIdentity cfg id res).set (bytes "Server") (bytes "ssize")).withoutCookies =
      res.withoutCookies.set (bytes "Server") (bytes "ssize") := by
    rw [Response.withoutCookies_set _ (by decide), withoutCookies_applyIdentity]
  unfold finish
  rw [← hserved, any_withoutCookies _ (by decide)]
  dsimp only
  split
  · rfl
  · rw [Response.withoutCookies_set _ (by decide)]

/-! ## The handlers -/

def Effect.faceless : Effect → Effect
  | .event ev => .event ev.faceless
  | .postback now q => .postback now q

/-- The same outcome for somebody else. -/
structure Outcome.Alike (out out' : Outcome) : Prop where
  effects : out'.effects.map Effect.faceless = out.effects.map Effect.faceless
  result : out'.result = out.result
  minted : out'.minted = out.minted

theorem Outcome.Alike.refl (out : Outcome) : out.Alike out := ⟨rfl, rfl, rfl⟩

variable {lib : Library} {cfg : Config} {amb amb' : Ambient} {visit visit' : Visit}
  {req req' : HttpRequest}

/-- The two visitors are bots, or neither of them is. -/
def Visit.AsBot (visit visit' : Visit) : Prop :=
  classifyUa visit'.userAgent = bytes "bot" ↔ classifyUa visit.userAgent = bytes "bot"

theorem botOrNot_congr {ua ua' : Text} (h : ua' = bytes "bot" ↔ ua = bytes "bot") :
    botOrNot ua' = botOrNot ua := by
  by_cases hbot : ua = bytes "bot"
  · rw [botOrNot, botOrNot, if_pos (h.2 hbot), if_pos hbot]
  · rw [botOrNot, botOrNot, if_neg fun hbot' => hbot (h.1 hbot'), if_neg hbot]

theorem logEvent_alike (h : visit.AsBot visit') (now : TsMs) {ev ev' : Event}
    (hev : { ev' with source := [] } = { ev with source := [] }) :
    (logEvent lib cfg visit' now ev').faceless = (logEvent lib cfg visit now ev).faceless :=
  calc (logEvent lib cfg visit' now ev').faceless
      = (logEvent lib cfg visit now { ev' with source := [] }).faceless := by
        simp only [logEvent, Effect.faceless, Event.faceless, botOrNot_congr h]
    _ = (logEvent lib cfg visit now { ev with source := [] }).faceless := by rw [hev]
    _ = (logEvent lib cfg visit now ev).faceless := rfl

theorem handleItem_alike (h : visit.AsBot visit') (catalog : Catalog) (itemId : Int) (q : Query) :
    (handleItem lib cfg amb catalog visit itemId q).Alike
      (handleItem lib cfg amb catalog visit' itemId q) := by
  unfold handleItem
  split
  · exact .refl _
  · exact ⟨congrArg (fun effect => [effect]) (logEvent_alike h _ rfl), rfl, rfl⟩

theorem handleRedirect_alike (h : visit.AsBot visit') (catalog : Catalog) (itemId : Int)
    (q : Query) :
    (handleRedirect lib cfg amb catalog visit itemId q).Alike
      (handleRedirect lib cfg amb catalog visit' itemId q) := by
  unfold handleRedirect
  split
  · exact .refl _
  · exact ⟨congrArg (fun effect => [effect]) (logEvent_alike h _ rfl), rfl, rfl⟩

theorem logImpressions_alike (h : visit.AsBot visit') (accepted : Nat) (elements : List Json) :
    (logImpressions lib cfg amb visit' accepted elements).map Effect.faceless =
      (logImpressions lib cfg amb visit accepted elements).map Effect.faceless := by
  induction elements generalizing accepted with
  | nil => rfl
  | cons e rest ih =>
      rw [logImpressions, logImpressions]
      split
      · rfl
      split
      · exact ih accepted
      · next ev _ =>
          rw [List.map_cons, List.map_cons, ih (accepted + 1)]
          exact congrArg (· :: _) (logEvent_alike h _ rfl)

theorem handleBeacon_alike (h : visit.AsBot visit') (body : Text) :
    (handleBeacon lib cfg amb visit body).Alike (handleBeacon lib cfg amb visit' body) := by
  unfold handleBeacon
  split
  · exact .refl _
  · exact ⟨logImpressions_alike h 0 _, rfl, rfl⟩
  · exact .refl _

theorem route_alike (h : visit.AsBot visit') (catalog : Catalog) (req : HttpRequest) (p : Text)
    (q : Query) :
    (route lib cfg amb catalog visit req p q).Alike
      (route lib cfg amb catalog visit' req p q) := by
  unfold route
  split
  · split
    · exact handleItem_alike h catalog _ q
    · exact .refl _
  split
  · split
    · exact handleRedirect_alike h catalog _ q
    · exact .refl _
  split
  · exact .refl _
  split
  · exact .refl _
  split
  · exact handleBeacon_alike h req.body
  split
  · exact .refl _
  split
  · exact .refl _
  · exact .refl _

theorem logImpressions_congr (hclock : amb'.clock = amb.clock) (visit : Visit) (accepted : Nat)
    (elements : List Json) :
    logImpressions lib cfg amb' visit accepted elements =
      logImpressions lib cfg amb visit accepted elements := by
  induction elements generalizing accepted with
  | nil => rfl
  | cons e rest ih => rw [logImpressions, logImpressions, hclock, ih accepted, ih (accepted + 1)]

/-- A route reads no more of a request and of the world than is the same for somebody else. -/
theorem route_congr (hamb : amb.Alike amb') (hreq : req.Alike req') (catalog : Catalog)
    (visit : Visit) (p : Text) (q : Query) :
    route lib cfg amb' catalog visit req' p q = route lib cfg amb catalog visit req p q := by
  have hitem : ∀ id, handleItem lib cfg amb' catalog visit id q =
      handleItem lib cfg amb catalog visit id q := by
    intro id
    rw [hamb.eq_with]
    rfl
  have hredirect : ∀ id, handleRedirect lib cfg amb' catalog visit id q =
      handleRedirect lib cfg amb catalog visit id q := by
    intro id
    rw [hamb.eq_with]
    rfl
  have hfile : ∀ root rel, handleFile amb' req' root rel = handleFile amb req root rel := by
    intro root rel
    rw [handleFile, handleFile, hamb.files, hreq.ifNoneMatch]
  have hbeacon : handleBeacon lib cfg amb' visit req'.body =
      handleBeacon lib cfg amb visit req.body := by
    simp only [handleBeacon, hreq.body, logImpressions_congr hamb.clock]
  simp only [route, hreq.method, hamb.clock, hitem, hredirect, hfile, hbeacon]

theorem dispatch_alike (lib : Library) (cfg : Config) (hamb : amb.Alike amb')
    (hreq : req.Alike req') (ptr : CatalogPtr) (cache : FeedCache) (clientIp clientIp' : Text) :
    let reply := dispatch lib cfg amb ptr cache req clientIp
    let reply' := dispatch lib cfg amb' ptr cache req' clientIp'
    reply'.cache = reply.cache ∧
      reply'.effects.map Effect.faceless = reply.effects.map Effect.faceless ∧
      reply'.minted = reply.minted ∧
      reply'.response.withoutCookies = reply.response.withoutCookies := by
  have hfeed : ∀ q, handleFeed cfg amb' ptr cache q = handleFeed cfg amb ptr cache q := by
    intro q
    rw [hamb.eq_with]
    rfl
  have hroute : ∀ p q, (route lib cfg amb ptr.catalog (visitOf amb req clientIp) req p q).Alike
      (route lib cfg amb' ptr.catalog (visitOf amb' req' clientIp') req' p q) := by
    intro p q
    have hbot : (visitOf amb req clientIp).AsBot (visitOf amb' req' clientIp') := hreq.bot
    rw [route_congr hamb hreq]
    exact route_alike hbot ptr.catalog req p q
  have hresult : ∀ (out out' : Outcome), out.Alike out' →
      (finish cfg (identify amb' req') (out'.result.getD
          (textResponse .internalServerError (bytes "internal error")))).withoutCookies =
        (finish cfg (identify amb req) (out.result.getD
          (textResponse .internalServerError (bytes "internal error")))).withoutCookies := by
    intro out out' halike
    rw [withoutCookies_finish, withoutCookies_finish, halike.result]
  unfold dispatch
  rw [hreq.method, hreq.target]
  dsimp only
  split
  · rw [hfeed]
    exact ⟨rfl, rfl, rfl, hresult _ _ (.refl _)⟩
  · have halike := hroute (routePath cfg (splitTarget req.target).1)
      (parseQuery (splitTarget req.target).2)
    exact ⟨rfl, halike.effects, halike.minted, hresult _ _ halike⟩

/-! ## A step -/

def Server.faceless (s : Server) : Server :=
  { s with
    pipeline := s.pipeline.faceless
    todo := s.todo.map Effect.faceless }

/-- What is answered to a request, without its cookies. -/
def Server.answer (lib : Library) (s : Server) : ServerAct → Option Response
  | .request amb req peer =>
      some (dispatch lib s.cfg amb s.catalog s.cache req
        (clientAddress req peer)).response.withoutCookies
  | _ => none

variable {s s' : Server}

theorem pipelineStep_faceless (s : Server) (a : Act) :
    s.faceless.pipelineStep lib a.faceless = (s.pipelineStep lib a).map Server.faceless := by
  have hstep : step lib.kopeksOf s.faceless.cfg s.faceless.pipeline a.faceless =
      (step lib.kopeksOf s.cfg s.pipeline a).map Pipeline.faceless :=
    step_faceless s.cfg s.pipeline a
  rw [Server.pipelineStep, Server.pipelineStep, hstep, Option.map_map, Option.map_map]
  rfl

/-- Blanking commutes with every step but the one that reads a request. -/
theorem serverStep_faceless (s : Server) {a : ServerAct}
    (ha : ∀ amb req peer, a ≠ .request amb req peer) :
    serverStep lib s.faceless a = (serverStep lib s a).map Server.faceless := by
  have hempty : s.faceless.todo.isEmpty = s.todo.isEmpty := List.isEmpty_map
  cases a with
  | request amb req peer => exact absurd rfl (ha amb req peer)
  | push =>
      have htodo : s.faceless.todo = s.todo.map Effect.faceless := rfl
      rw [serverStep, serverStep, htodo]
      cases s.todo with
      | nil => rfl
      | cons effect rest =>
          have hact : effect.faceless.act = effect.act.faceless := by
            cases effect <;> rfl
          simp only [List.map_cons, hact]
          exact pipelineStep_faceless { s with todo := rest } effect.act
  | setCatalog catalog => rfl
  | stopServer =>
      rw [serverStep, serverStep, hempty]
      split
      · exact pipelineStep_faceless s .stopServer
      · rfl
  | stopWorker => exact pipelineStep_faceless s .stopWorker
  | worker env => exact pipelineStep_faceless s (.worker env)
  | restart cfg started => rfl

theorem HttpRequest.Alike.refl (req : HttpRequest) : req.Alike req :=
  ⟨rfl, rfl, rfl, rfl, Iff.rfl⟩

theorem Ambient.Alike.refl (amb : Ambient) : amb.Alike amb := ⟨rfl, rfl, rfl, rfl⟩

theorem request_alike (hview : s.faceless = s'.faceless) (hamb : amb.Alike amb')
    (hreq : req.Alike req') (peer peer' : Text) :
    (serverStep lib s (.request amb req peer)).map Server.faceless =
      (serverStep lib s' (.request amb' req' peer')).map Server.faceless := by
  have hcfg : s'.cfg = s.cfg := (congrArg Server.cfg hview).symm
  have hcatalog : s'.catalog = s.catalog := (congrArg Server.catalog hview).symm
  have hcache : s'.cache = s.cache := (congrArg Server.cache hview).symm
  have hredirects : s'.redirects = s.redirects := (congrArg Server.redirects hview).symm
  have hpipeline : s'.pipeline.faceless = s.pipeline.faceless :=
    (congrArg Server.pipeline hview).symm
  have hserving : s'.pipeline.serving = s.pipeline.serving := by
    change s'.pipeline.faceless.serving = s.pipeline.faceless.serving
    rw [hpipeline]
  have hempty : s'.todo.isEmpty = s.todo.isEmpty := by
    have htodo : s'.todo.map Effect.faceless = s.todo.map Effect.faceless :=
      (congrArg Server.todo hview).symm
    rw [← List.isEmpty_map (f := Effect.faceless), htodo, List.isEmpty_map]
  have hreply := dispatch_alike lib s.cfg hamb hreq s.catalog s.cache (clientAddress req peer)
    (clientAddress req' peer')
  rw [serverStep, serverStep, hserving, hempty, hcfg, hcatalog, hcache, hredirects]
  generalize dispatch lib s.cfg amb s.catalog s.cache req (clientAddress req peer) = reply
    at hreply ⊢
  generalize dispatch lib s.cfg amb' s.catalog s.cache req' (clientAddress req' peer') = reply'
    at hreply ⊢
  obtain ⟨hcache', heffects, hminted, hresponse⟩ := hreply
  have hstatus : reply'.response.status = reply.response.status := by
    change reply'.response.withoutCookies.status = reply.response.withoutCookies.status
    rw [hresponse]
  split
  · simp only [Option.map_some, Server.faceless, hcache', heffects, hminted, hstatus, hpipeline]
  · rfl

theorem serverStep_alike (lib : Library) :
    Runs.Unwinds (serverStep lib) (Server.answer lib) Server.faceless ServerAct.Alike where
  step := by
    intro s s' a a' hview halike
    cases halike with
    | request hamb hreq peer peer' => exact request_alike hview hamb hreq peer peer'
    | same =>
        by_cases ha : ∃ amb req peer, a = .request amb req peer
        · obtain ⟨amb, req, peer, rfl⟩ := ha
          exact request_alike hview (.refl amb) (.refl req) peer peer
        · have ha' : ∀ amb req peer, a ≠ .request amb req peer :=
            fun amb req peer heq => ha ⟨amb, req, peer, heq⟩
          rw [← serverStep_faceless s ha', ← serverStep_faceless s' ha', hview]
  answer := by
    intro s s' a a' hview halike
    have hcfg : s'.cfg = s.cfg := (congrArg Server.cfg hview).symm
    have hcatalog : s'.catalog = s.catalog := (congrArg Server.catalog hview).symm
    have hcache : s'.cache = s.cache := (congrArg Server.cache hview).symm
    cases halike with
    | @request amb amb' req req' hamb hreq peer peer' =>
        have hreply := dispatch_alike lib s.cfg hamb hreq s.catalog s.cache
          (clientAddress req peer) (clientAddress req' peer')
        rw [Server.answer, Server.answer, hcfg, hcatalog, hcache, hreply.2.2.2]
    | same =>
        unfold Server.answer
        rw [hcfg, hcatalog, hcache]

/-- Whoever the visitors are, they all get the same answers but for the cookies, and the
daily statistics, the conversions and the number of refused events are the same; the events
differ in the columns that say who it was. -/
theorem visitors_interchangeable {started : Int} {run run' : List ServerAct} {t : Server}
    (h : List.Forall₂ ServerAct.Alike run run')
    (hrun : Runs.exec (serverStep lib) (.init cfg started) run = some t) :
    ∃ t', Runs.exec (serverStep lib) (.init cfg started) run' = some t' ∧
      Runs.answers (serverStep lib) (Server.answer lib) (.init cfg started) run' =
        Runs.answers (serverStep lib) (Server.answer lib) (.init cfg started) run ∧
      t'.pipeline.db.dailyItemStats = t.pipeline.db.dailyItemStats ∧
      t'.pipeline.db.conversions = t.pipeline.db.conversions ∧
      t'.pipeline.seen.refused = t.pipeline.seen.refused ∧
      t'.pipeline.db.events.rows.map EventRow.faceless =
        t.pipeline.db.events.rows.map EventRow.faceless := by
  obtain ⟨hend, hanswers⟩ := (serverStep_alike lib).run (s := .init cfg started) rfl h
  rw [hrun, Option.map_some] at hend
  obtain ⟨t', ht', hview⟩ := Option.map_eq_some_iff.1 hend.symm
  have hpipeline : t'.pipeline.faceless = t.pipeline.faceless := congrArg Server.pipeline hview
  have hdb : t'.pipeline.db.faceless = t.pipeline.db.faceless := congrArg Pipeline.db hpipeline
  refine ⟨t', ht', hanswers.symm, ?_, ?_, ?_, ?_⟩
  · change t'.pipeline.db.faceless.dailyItemStats = t.pipeline.db.faceless.dailyItemStats
    rw [hdb]
  · change t'.pipeline.db.faceless.conversions = t.pipeline.db.faceless.conversions
    rw [hdb]
  · change t'.pipeline.faceless.seen.refused = t.pipeline.faceless.seen.refused
    rw [hpipeline]
  · change t'.pipeline.db.faceless.events.rows = t.pipeline.db.faceless.events.rows
    rw [hdb]

/-- A click on the only item. -/
def clickBy (agent cookie referer peer : Text) : List ServerAct :=
  [.setCatalog (.ofRows [{ id := 7, productUrl := bytes "https://shop.example/7" }] []),
    .request (.bare 0)
      { target := bytes "/r/7?p=3", userAgent := agent, cookie := cookie, referer := referer } peer,
    .push]

/-- Somebody with a phone who was here before, and somebody who was not. -/
theorem visitors_interchangeable_phone :
    Runs.answers (serverStep .bare) (Server.answer .bare) (.init {} 0)
        (clickBy (bytes "Mozilla/5.0 (X11)") [] [] (bytes "198.51.100.9")) =
      Runs.answers (serverStep .bare) (Server.answer .bare) (.init {} 0)
        (clickBy (bytes "Mozilla/5.0 (iPhone) Mobile") (bytes "aid=ab; sid=cd")
          (bytes "https://t.me/s/size") (bytes "203.0.113.5")) := by
  have hrun : (Runs.exec (serverStep .bare) (.init {} 0)
      (clickBy (bytes "Mozilla/5.0 (iPhone) Mobile") (bytes "aid=ab; sid=cd")
        (bytes "https://t.me/s/size") (bytes "203.0.113.5"))).isSome = true := by
    decide +kernel
  obtain ⟨t, ht⟩ := Option.isSome_iff_exists.1 hrun
  have hreq : HttpRequest.Alike
      { target := bytes "/r/7?p=3"
        userAgent := bytes "Mozilla/5.0 (iPhone) Mobile"
        cookie := bytes "aid=ab; sid=cd"
        referer := bytes "https://t.me/s/size" }
      { target := bytes "/r/7?p=3", userAgent := bytes "Mozilla/5.0 (X11)" } :=
    ⟨rfl, rfl, rfl, rfl, by decide⟩
  obtain ⟨t', -, hanswers, -⟩ := visitors_interchangeable
    (.cons (.same _) (.cons (.request (.refl _) hreq _ _) (.cons (.same _) .nil))) ht
  exact hanswers

end SSize
