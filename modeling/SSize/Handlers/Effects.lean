import SSize.Handlers.Dispatch

/-!
# What a request logs

The effects of a request do not depend on the feed cache, and every event among
them is stamped and classed by `log_event`. Impressions apart there is at most one
event: the click of a redirect that is answered 302, or the one of an item page.
-/

namespace SSize

variable (lib : Library) (cfg : Config) (amb : Ambient)

def Effect.event? : Effect → Option Event
  | .event ev => some ev
  | .postback _ _ => none

def eventsOf (effects : List Effect) : List Event := effects.filterMap Effect.event?

theorem mem_eventsOf {effects : List Effect} {ev : Event} :
    ev ∈ eventsOf effects ↔ Effect.event ev ∈ effects := by
  rw [eventsOf, List.mem_filterMap]
  constructor
  · rintro ⟨effect, heffect, hev⟩
    cases effect with
    | event ev' =>
        rw [Effect.event?, Option.some.injEq] at hev
        exact hev ▸ heffect
    | postback now q => simp [Effect.event?] at hev
  · exact fun h => ⟨.event ev, h, rfl⟩

/-- The visit that `dispatch` hands to the handlers. -/
def visitOf (amb : Ambient) (req : HttpRequest) (clientIp : Text) : Visit where
  id := identify amb req
  clientIp := clientIp
  userAgent := req.userAgent
  referer := req.referer

/-- The path that is routed. -/
def pathOf (cfg : Config) (req : HttpRequest) : Text := routePath cfg (splitTarget req.target).1

/-- The outcome of the handlers other than `handle_feed`. -/
def routed (catalog : Catalog) (req : HttpRequest) (clientIp : Text) : Outcome :=
  route lib cfg amb catalog (visitOf amb req clientIp) req (pathOf cfg req)
    (parseQuery (splitTarget req.target).2)

theorem handleFeed_effects (ptr : CatalogPtr) (cache : FeedCache) (q : Query) :
    (handleFeed cfg amb ptr cache q).2.effects = [] := by
  unfold handleFeed
  simp only
  split
  · rfl
  · split
    · rfl
    · split <;> rfl

/-- The feed has no effects, every other request those of its route. -/
theorem dispatch_effects_eq (ptr : CatalogPtr) (cache : FeedCache) (req : HttpRequest)
    (clientIp : Text) :
    (dispatch lib cfg amb ptr cache req clientIp).effects =
      if req.method = .get ∧ pathOf cfg req = bytes "/" then []
      else (routed lib cfg amb ptr.catalog req clientIp).effects := by
  unfold dispatch
  by_cases hfeed : req.method = .get ∧ pathOf cfg req = bytes "/"
  · have hroute : req.method = .get ∧ routePath cfg (splitTarget req.target).1 = bytes "/" := hfeed
    simp only [if_pos hfeed, if_pos hroute]
    exact handleFeed_effects cfg amb ptr cache _
  · have hroute : ¬ (req.method = .get ∧ routePath cfg (splitTarget req.target).1 = bytes "/") :=
      hfeed
    simp only [if_neg hfeed, if_neg hroute]
    rfl

/-- The response to a request that is not for the feed. -/
theorem dispatch_response (ptr : CatalogPtr) (cache : FeedCache) (req : HttpRequest)
    (clientIp : Text) (hfeed : ¬ (req.method = .get ∧ pathOf cfg req = bytes "/")) :
    (dispatch lib cfg amb ptr cache req clientIp).response =
      finish cfg (identify amb req) ((routed lib cfg amb ptr.catalog req clientIp).result.getD
        (textResponse .internalServerError (bytes "internal error"))) := by
  have hroute : ¬ (req.method = .get ∧ routePath cfg (splitTarget req.target).1 = bytes "/") :=
    hfeed
  unfold dispatch
  simp only [if_neg hroute]
  rfl

/-- The effects are the same with any two caches. -/
theorem dispatch_effects_cache (ptr : CatalogPtr) (cache cache' : FeedCache) (req : HttpRequest)
    (clientIp : Text) :
    (dispatch lib cfg amb ptr cache req clientIp).effects =
      (dispatch lib cfg amb ptr cache' req clientIp).effects := by
  rw [dispatch_effects_eq, dispatch_effects_eq]

/-! ## Stamps and classes -/

/-- Each event was stamped and classed by `log_event` for this visit. -/
def LoggedFor (visit : Visit) (effects : List Effect) : Prop :=
  ∀ ev ∈ eventsOf effects, ∃ k ev₀, Effect.event ev = logEvent lib cfg visit (amb.clock k) ev₀

theorem loggedFor_nil (visit : Visit) : LoggedFor lib cfg amb visit [] :=
  fun _ hev => absurd hev List.not_mem_nil

theorem loggedFor_answer (visit : Visit) (res : Response) :
    LoggedFor lib cfg amb visit (Outcome.answer res).effects := loggedFor_nil lib cfg amb visit

theorem loggedFor_click (visit : Visit) (ev₀ : Event) :
    LoggedFor lib cfg amb visit [logEvent lib cfg visit (amb.clock 0) ev₀] := by
  intro ev hev
  rw [mem_eventsOf, List.mem_singleton] at hev
  exact ⟨0, ev₀, hev⟩

theorem loggedFor_impressions (visit : Visit) (accepted : Nat) (elements : List Json) :
    LoggedFor lib cfg amb visit (logImpressions lib cfg amb visit accepted elements) := by
  induction elements generalizing accepted with
  | nil => exact loggedFor_nil lib cfg amb visit
  | cons e rest ih =>
      rw [logImpressions]
      split
      · exact loggedFor_nil lib cfg amb visit
      · split
        · exact ih accepted
        · next ev₀ _ =>
            intro ev hev
            rw [mem_eventsOf] at hev
            rcases List.mem_cons.1 hev with hfirst | hlater
            · exact ⟨accepted, ev₀, hfirst⟩
            · exact ih (accepted + 1) ev (mem_eventsOf.2 hlater)

theorem loggedFor_route (catalog : Catalog) (visit : Visit) (req : HttpRequest) (p : Text)
    (q : Query) :
    LoggedFor lib cfg amb visit (route lib cfg amb catalog visit req p q).effects := by
  unfold route
  split
  · split
    · unfold handleItem
      split
      · exact loggedFor_answer lib cfg amb visit _
      · exact loggedFor_click lib cfg amb visit _
    · exact loggedFor_answer lib cfg amb visit _
  split
  · split
    · unfold handleRedirect
      split
      · exact loggedFor_answer lib cfg amb visit _
      · exact loggedFor_click lib cfg amb visit _
    · exact loggedFor_answer lib cfg amb visit _
  split
  · exact loggedFor_answer lib cfg amb visit _
  split
  · exact loggedFor_answer lib cfg amb visit _
  split
  · unfold handleBeacon
    split
    · exact loggedFor_answer lib cfg amb visit _
    · exact loggedFor_impressions lib cfg amb visit 0 _
    · exact loggedFor_answer lib cfg amb visit _
  split
  · intro ev hev
    simp [eventsOf, Effect.event?] at hev
  split <;> exact loggedFor_answer lib cfg amb visit _

theorem dispatch_logged (ptr : CatalogPtr) (cache : FeedCache) (req : HttpRequest)
    (clientIp : Text) :
    LoggedFor lib cfg amb (visitOf amb req clientIp)
      (dispatch lib cfg amb ptr cache req clientIp).effects := by
  rw [dispatch_effects_eq]
  split
  · exact loggedFor_nil lib cfg amb _
  · exact loggedFor_route lib cfg amb ptr.catalog _ req _ _

variable {lib cfg amb}

theorem LoggedFor.uaClass {visit : Visit} {effects : List Effect} {ev : Event}
    (h : LoggedFor lib cfg amb visit effects) (hev : ev ∈ eventsOf effects) :
    ev.uaClass = classifyUa visit.userAgent := by
  obtain ⟨k, ev₀, hlog⟩ := h ev hev
  rw [logEvent, Effect.event.injEq] at hlog
  rw [hlog]

theorem LoggedFor.ts {visit : Visit} {effects : List Effect} {ev : Event}
    (h : LoggedFor lib cfg amb visit effects) (hev : ev ∈ eventsOf effects) :
    ∃ k, ev.ts = amb.clock k := by
  obtain ⟨k, ev₀, hlog⟩ := h ev hev
  rw [logEvent, Effect.event.injEq] at hlog
  exact ⟨k, by rw [hlog]⟩

end SSize
