import SSize.Handlers.Pages

/-!
# `dispatch`

`Reply.effects_click` is the one fact about all handlers that later proofs use:
whatever a request queues, only a redirect that is answered 302 queues a token.
-/

namespace SSize

variable (lib : Library) (cfg : Config) (amb : Ambient)

def routePath (cfg : Config) (path : Text) : Text :=
  let p :=
    if !cfg.basePath.isEmpty && cfg.basePath.isPrefixOf path then path.drop cfg.basePath.length
    else path
  if p.isEmpty then bytes "/" else p

/-- The routes that take no part in the feed cache, in their order. -/
def route (catalog : Catalog) (visit : Visit) (req : HttpRequest) (p : Text) (q : Query) :
    Outcome :=
  if req.method = .get ∧ (bytes "/item/").isPrefixOf p then
    match parseInt (p.drop 6) with
    | some id => handleItem lib cfg amb catalog visit id q
    | none => .answer (textResponse .badRequest (bytes "bad id"))
  else if req.method = .get ∧ (bytes "/r/").isPrefixOf p then
    match parseInt (p.drop 3) with
    | some id => handleRedirect lib cfg amb catalog visit id q
    | none => .answer (textResponse .badRequest (bytes "bad id"))
  else if req.method = .get ∧ (bytes "/static/").isPrefixOf p then
    .answer (handleFile amb req cfg.staticDir (p.drop 8))
  else if req.method = .get ∧ (bytes "/media/").isPrefixOf p then
    .answer (handleFile amb req cfg.mediaRoot (p.drop 7))
  else if req.method = .post ∧ p = bytes "/api/ev" then
    handleBeacon lib cfg amb visit req.body
  else if req.method = .get ∧ p = bytes "/cpa/postback" then
    { effects := [.postback (amb.clock 0) q]
      result := some (handlePostback lib.kopeksOf cfg (amb.clock 0) q).1 }
  else if req.method = .get ∧ p = bytes "/healthz" then .answer (textResponse .ok (bytes "ok"))
  else .answer (textResponse .notFound (bytes "not found"))

def finish (cfg : Config) (id : Identity) (res : Response) : Response :=
  let res := (applyIdentity cfg id res).set (bytes "Server") (bytes "ssize")
  if res.fields.any (fun f => f.1 == bytes "Cache-Control") then res
  else res.set (bytes "Cache-Control") (bytes "no-store")

@[simp] theorem finish_status (cfg : Config) (id : Identity) (res : Response) :
    (finish cfg id res).status = res.status := by
  unfold finish
  dsimp only
  split
  · exact applyIdentity_status cfg id res
  · exact applyIdentity_status cfg id res

structure Reply where
  cache : FeedCache
  effects : List Effect
  response : Response
  minted : Option Text

/-- Always a response: what a handler throws becomes a 500. -/
def dispatch (ptr : CatalogPtr) (cache : FeedCache) (req : HttpRequest) (clientIp : Text) :
    Reply :=
  let id := identify amb req
  let (path, query) := splitTarget req.target
  let q := parseQuery query
  let p := routePath cfg path
  let visit : Visit :=
    { id := id, clientIp := clientIp, userAgent := req.userAgent, referer := req.referer }
  let (cache, out) :=
    if req.method = .get ∧ p = bytes "/" then handleFeed cfg amb ptr cache q
    else (cache, route lib cfg amb ptr.catalog visit req p q)
  let res := out.result.getD (textResponse .internalServerError (bytes "internal error"))
  { cache := cache
    effects := out.effects
    response := finish cfg id res
    minted := out.minted }

/-! ## What a request can queue -/

def Event.ClickOf (token : Option Text) (ev : Event) : Prop :=
  (ev.type = .outbound ∧ ev.clickToken ≠ [] ∧ token = some ev.clickToken) ∨
    (ev.type ≠ .outbound ∧ ev.clickToken = [])

/-- The events among the effects are clicks of `token` or carry no token. -/
def ClicksOf (token : Option Text) (effects : List Effect) : Prop :=
  ∀ ev, Effect.event ev ∈ effects → ev.ClickOf token

/-- A handler's outcome is in order when its events fit its token, and a token
was generated only for an answer 302. -/
structure Outcome.Honest (out : Outcome) : Prop where
  clicks : ClicksOf out.minted out.effects
  found : ∀ token, out.minted = some token → ∃ res, out.result = some res ∧ res.status = .found

theorem clicksOf_nil (token : Option Text) : ClicksOf token [] :=
  fun _ hev => absurd hev List.not_mem_nil

theorem Outcome.honest_answer (res : Response) : (Outcome.answer res).Honest where
  clicks := clicksOf_nil none
  found token htoken := by simp [Outcome.answer] at htoken

theorem handleItem_honest (catalog : Catalog) (visit : Visit) (itemId : Int) (q : Query) :
    (handleItem lib cfg amb catalog visit itemId q).Honest := by
  unfold handleItem
  split
  · exact Outcome.honest_answer _
  · constructor
    · intro ev hev
      simp only [logEvent, List.mem_singleton, Effect.event.injEq] at hev
      exact Or.inr (by simp [hev])
    · intro token htoken
      simp at htoken

theorem handleRedirect_honest (catalog : Catalog) (visit : Visit) (itemId : Int) (q : Query) :
    (handleRedirect lib cfg amb catalog visit itemId q).Honest := by
  unfold handleRedirect
  split
  · exact Outcome.honest_answer _
  · constructor
    · intro ev hev
      simp only [logEvent, List.mem_singleton, Effect.event.injEq] at hev
      have htoken := makeClickToken_ne_nil amb.tokenDraw
      exact Or.inl (by simp [hev, htoken])
    · intro token _
      exact ⟨_, rfl, rfl⟩

theorem impressionOf_type {e : Json} {ev : Event} (h : impressionOf e = some ev) :
    ev.type = .impression ∧ ev.clickToken = [] ∧ ev.source = [] := by
  unfold impressionOf at h
  split at h
  · simp at h
  · split at h
    · simp at h
    · rw [Option.some.injEq] at h
      subst h
      exact ⟨rfl, rfl, rfl⟩

theorem logImpressions_clicks (visit : Visit) (accepted : Nat) (elements : List Json) :
    ClicksOf none (logImpressions lib cfg amb visit accepted elements) := by
  induction elements generalizing accepted with
  | nil => exact clicksOf_nil none
  | cons e rest ih =>
      rw [logImpressions]
      split
      · exact clicksOf_nil none
      · split
        · exact ih accepted
        · next ev hev =>
            intro x hx
            rcases List.mem_cons.1 hx with hx | hx
            · have htype := impressionOf_type hev
              simp only [logEvent, Effect.event.injEq] at hx
              exact Or.inr (by simp [hx, htype])
            · exact ih (accepted + 1) x hx

theorem handleBeacon_honest (visit : Visit) (body : Text) :
    (handleBeacon lib cfg amb visit body).Honest := by
  unfold handleBeacon
  split
  · exact Outcome.honest_answer _
  · constructor
    · exact logImpressions_clicks lib cfg amb visit 0 _
    · intro token htoken
      simp at htoken
  · exact Outcome.honest_answer _

theorem handleFeed_honest (ptr : CatalogPtr) (cache : FeedCache) (q : Query) :
    (handleFeed cfg amb ptr cache q).2.Honest := by
  unfold handleFeed
  simp only
  split
  · exact Outcome.honest_answer _
  · split
    · exact ⟨clicksOf_nil none, fun token htoken => by simp at htoken⟩
    · split
      · exact Outcome.honest_answer _
      · exact Outcome.honest_answer _

theorem route_honest (catalog : Catalog) (visit : Visit) (req : HttpRequest) (p : Text)
    (q : Query) : (route lib cfg amb catalog visit req p q).Honest := by
  unfold route
  split
  · split
    · exact handleItem_honest lib cfg amb catalog visit _ q
    · exact Outcome.honest_answer _
  split
  · split
    · exact handleRedirect_honest lib cfg amb catalog visit _ q
    · exact Outcome.honest_answer _
  split
  · exact Outcome.honest_answer _
  split
  · exact Outcome.honest_answer _
  split
  · exact handleBeacon_honest lib cfg amb visit req.body
  split
  · constructor
    · intro ev hev
      simp at hev
    · intro token htoken
      simp at htoken
  split
  · exact Outcome.honest_answer _
  · exact Outcome.honest_answer _

/-- Whatever a request queues, a token in it is the one that the request
generated, and the request is answered 302. -/
theorem dispatch_effects (ptr : CatalogPtr) (cache : FeedCache) (req : HttpRequest)
    (clientIp : Text) :
    ClicksOf (dispatch lib cfg amb ptr cache req clientIp).minted
        (dispatch lib cfg amb ptr cache req clientIp).effects ∧
      ∀ token, (dispatch lib cfg amb ptr cache req clientIp).minted = some token →
        (dispatch lib cfg amb ptr cache req clientIp).response.status = .found := by
  have hhonest : ∀ (out : Outcome), out.Honest →
      ClicksOf out.minted out.effects ∧ ∀ token, out.minted = some token →
        (finish cfg (identify amb req) (out.result.getD
          (textResponse .internalServerError (bytes "internal error")))).status = .found := by
    intro out hout
    refine ⟨hout.clicks, fun token htoken => ?_⟩
    obtain ⟨res, hres, hfound⟩ := hout.found token htoken
    simp [hres, hfound]
  unfold dispatch
  by_cases hfeed : req.method = .get ∧ routePath cfg (splitTarget req.target).1 = bytes "/"
  · simp only [hfeed, and_self, if_true]
    exact hhonest _ (handleFeed_honest cfg amb ptr cache _)
  · simp only [hfeed, if_false]
    exact hhonest _ (route_honest lib cfg amb ptr.catalog _ req _ _)

end SSize
