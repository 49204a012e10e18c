import SSize.Server.Calm
import SSize.Worker.Thinned

/-!
# The requests that are clicks

`GET /r/{id}` answered 302 and `GET /item/{id}` answered 200 each log one event of
their own type for that item, and no other request logs one of these types. So in
what a request logs, the events that the rollup counts for a day and an item are
one or none, as the request was `served` or not.
-/

namespace SSize

variable (lib : Library) (cfg : Config) (amb : Ambient)

/-- The rollup counts the event for this day and item in the column of `type`. -/
def Event.countsFor (type : EventType) (day item : Int) (ev : Event) : Bool :=
  ev.type == type && (ev.itemId == some item && ev.countable && dayOf ev.ts == day)

/-- The item of a request for `/item/{id}` or `/r/{id}`, `root` being the first part. -/
def requestedItem (root : Text) (cfg : Config) (req : HttpRequest) : Option Int :=
  if req.method = .get ∧ root.isPrefixOf (pathOf cfg req) then
    parseInt ((pathOf cfg req).drop root.length)
  else none

/-- The reply to a request that the server takes in this state. -/
def Server.reply (lib : Library) (s : Server) (amb : Ambient) (req : HttpRequest)
    (peer : Text) : Reply :=
  dispatch lib s.cfg amb s.catalog s.cache req (clientAddress req peer)

/-- A request for `root` and this item that is answered with `status`, whose event
was stamped on `day` and whose `User-Agent` is not one of a bot. -/
def Server.served (lib : Library) (root : Text) (status : Status) (day item : Int)
    (s : Server) : ServerAct → Bool
  | .request amb req peer =>
      requestedItem root s.cfg req == some item &&
        (s.reply lib amb req peer).response.status == status &&
        (eventsOf (s.reply lib amb req peer).effects).any (fun ev => dayOf ev.ts == day) &&
        classifyUa req.userAgent != bytes "bot"
  | _ => false

/-- inja renders `item.html` from what `handle_item` hands it. -/
def RendersItems (amb : Ambient) : Prop :=
  ∀ cfg item position, (amb.render (bytes "item.html") (itemData cfg item position)).isSome

/-! ## The outcome of the three kinds of request -/

/-- The status that goes out for an outcome. -/
def Outcome.status (out : Outcome) : Status :=
  (out.result.getD (textResponse .internalServerError (bytes "internal error"))).status

theorem dispatch_status (ptr : CatalogPtr) (cache : FeedCache) (req : HttpRequest)
    (clientIp : Text) (hfeed : ¬ (req.method = .get ∧ pathOf cfg req = bytes "/")) :
    (dispatch lib cfg amb ptr cache req clientIp).response.status =
      (routed lib cfg amb ptr.catalog req clientIp).status := by
  rw [dispatch_response lib cfg amb ptr cache req clientIp hfeed, finish_status]
  rfl

variable {cfg} {catalog : Catalog} {req : HttpRequest} {clientIp : Text} {id : Int}

theorem requestedItem_eq_some {root : Text} (h : requestedItem root cfg req = some id) :
    req.method = .get ∧ root.isPrefixOf (pathOf cfg req) = true ∧
      parseInt ((pathOf cfg req).drop root.length) = some id := by
  rw [requestedItem, Option.ite_none_right_eq_some] at h
  exact ⟨h.1.1, h.1.2, h.2⟩

theorem routed_item (h : requestedItem (bytes "/item/") cfg req = some id) :
    routed lib cfg amb catalog req clientIp =
      handleItem lib cfg amb catalog (visitOf amb req clientIp) id
        (parseQuery (splitTarget req.target).2) := by
  obtain ⟨hget, hroot, hid⟩ := requestedItem_eq_some h
  have hid' : parseInt ((pathOf cfg req).drop 6) = some id := hid
  rw [routed, route, if_pos ⟨hget, hroot⟩, hid']

/-- No path starts with both. -/
theorem not_item_of_redirect {p : Text} (h : (bytes "/r/").isPrefixOf p = true) :
    ¬ (bytes "/item/").isPrefixOf p = true := by
  rw [List.isPrefixOf_iff_prefix] at h ⊢
  intro hitem
  have hshort : bytes "/r/" <+: bytes "/item/" :=
    List.prefix_of_prefix_length_le h hitem (by decide)
  exact absurd hshort (by decide)

theorem routed_redirect (h : requestedItem (bytes "/r/") cfg req = some id) :
    routed lib cfg amb catalog req clientIp =
      handleRedirect lib cfg amb catalog (visitOf amb req clientIp) id
        (parseQuery (splitTarget req.target).2) := by
  obtain ⟨hget, hroot, hid⟩ := requestedItem_eq_some h
  have hid' : parseInt ((pathOf cfg req).drop 3) = some id := hid
  rw [routed, route, if_neg fun hitem => not_item_of_redirect hroot hitem.2,
    if_pos ⟨hget, hroot⟩, hid']

/-- No request is for both. -/
theorem requestedItem_redirect (h : requestedItem (bytes "/r/") cfg req = some id) :
    requestedItem (bytes "/item/") cfg req = none := by
  obtain ⟨-, hroot, -⟩ := requestedItem_eq_some h
  rw [requestedItem, if_neg fun hitem => not_item_of_redirect hroot hitem.2]

theorem logImpressions_type (visit : Visit) (accepted : Nat) (elements : List Json) :
    ∀ ev ∈ eventsOf (logImpressions lib cfg amb visit accepted elements),
      ev.type = .impression ∧ ev.source = [] := by
  induction elements generalizing accepted with
  | nil => simp [logImpressions, eventsOf]
  | cons e rest ih =>
      rw [logImpressions]
      split
      · simp [eventsOf]
      · split
        · exact ih accepted
        · next ev₀ hev₀ =>
            intro ev hev
            rcases List.mem_cons.1 (mem_eventsOf.1 hev) with hfirst | hlater
            · rw [logEvent, Effect.event.injEq] at hfirst
              rw [hfirst]
              exact ⟨(impressionOf_type hev₀).1, (impressionOf_type hev₀).2.2⟩
            · exact ih (accepted + 1) ev (mem_eventsOf.2 hlater)

/-- Every other request logs impressions at most, which have no source. -/
theorem routed_other (hitem : requestedItem (bytes "/item/") cfg req = none)
    (hredirect : requestedItem (bytes "/r/") cfg req = none) :
    ∀ ev ∈ eventsOf (routed lib cfg amb catalog req clientIp).effects,
      ev.type = .impression ∧ ev.source = [] := by
  unfold routed route
  split
  · next h =>
      have hid : parseInt ((pathOf cfg req).drop 6) = none := by
        rw [requestedItem, if_pos h] at hitem
        exact hitem
      simp [hid, Outcome.answer, eventsOf]
  split
  · next h =>
      have hid : parseInt ((pathOf cfg req).drop 3) = none := by
        rw [requestedItem, if_pos h] at hredirect
        exact hredirect
      simp [hid, Outcome.answer, eventsOf]
  split
  · simp [Outcome.answer, eventsOf]
  split
  · simp [Outcome.answer, eventsOf]
  split
  · unfold handleBeacon
    split
    · simp [Outcome.answer, eventsOf]
    · exact logImpressions_type lib amb _ 0 _
    · simp [Outcome.answer, eventsOf]
  split
  · simp [eventsOf, Effect.event?]
  split <;> simp [Outcome.answer, eventsOf]

theorem requestedItem_not_feed {root : Text} (hroot : root.isPrefixOf (bytes "/") = false)
    (h : requestedItem root cfg req = some id) :
    ¬ (req.method = .get ∧ pathOf cfg req = bytes "/") := by
  rintro ⟨-, hpath⟩
  obtain ⟨-, hstarts, -⟩ := requestedItem_eq_some h
  rw [hpath, hroot] at hstarts
  simp at hstarts

/-- What any request logs and answers, as far as clicks go. -/
inductive Reply.ClickCases (lib : Library) (cfg : Config) (amb : Ambient) (catalog : Catalog)
    (visit : Visit) (req : HttpRequest) (q : Query) (reply : Reply) : Prop
  | item {id : Int} (hitem : requestedItem (bytes "/item/") cfg req = some id)
      (hredirect : requestedItem (bytes "/r/") cfg req = none)
      (heffects : reply.effects = (handleItem lib cfg amb catalog visit id q).effects)
      (hstatus : reply.response.status = (handleItem lib cfg amb catalog visit id q).status)
  | redirect {id : Int} (hitem : requestedItem (bytes "/item/") cfg req = none)
      (hredirect : requestedItem (bytes "/r/") cfg req = some id)
      (heffects : reply.effects = (handleRedirect lib cfg amb catalog visit id q).effects)
      (hstatus : reply.response.status = (handleRedirect lib cfg amb catalog visit id q).status)
  | other (hitem : requestedItem (bytes "/item/") cfg req = none)
      (hredirect : requestedItem (bytes "/r/") cfg req = none)
      (himpressions : ∀ ev ∈ eventsOf reply.effects, ev.type = .impression)

theorem reply_clickCases (s : Server) (req : HttpRequest) (peer : Text) :
    (s.reply lib amb req peer).ClickCases lib s.cfg amb s.catalog.catalog
      (visitOf amb req (clientAddress req peer)) req (parseQuery (splitTarget req.target).2) := by
  have heffects := dispatch_effects_eq lib s.cfg amb s.catalog s.cache req (clientAddress req peer)
  cases hredirect : requestedItem (bytes "/r/") s.cfg req with
  | some id =>
      have hfeed := requestedItem_not_feed (by decide) hredirect
      rw [if_neg hfeed, routed_redirect lib amb hredirect] at heffects
      refine .redirect (requestedItem_redirect hredirect) hredirect heffects ?_
      rw [Server.reply, dispatch_status lib s.cfg amb s.catalog s.cache req _ hfeed,
        routed_redirect lib amb hredirect]
  | none =>
      cases hitem : requestedItem (bytes "/item/") s.cfg req with
      | some id =>
          have hfeed := requestedItem_not_feed (by decide) hitem
          rw [if_neg hfeed, routed_item lib amb hitem] at heffects
          refine .item hitem hredirect heffects ?_
          rw [Server.reply, dispatch_status lib s.cfg amb s.catalog s.cache req _ hfeed,
            routed_item lib amb hitem]
      | none =>
          refine .other hitem hredirect ?_
          rw [Server.reply, heffects]
          split
          · simp [eventsOf]
          · exact fun ev hev => (routed_other lib amb hitem hredirect ev hev).1

/-! ## Counting -/

theorem countP_countsFor_eq_zero {type : EventType} {events : List Event} (day item : Int)
    (h : ∀ ev ∈ events, ev.type ≠ type) : events.countP (Event.countsFor type day item) = 0 := by
  rw [List.countP_eq_zero]
  intro ev hev
  simp [Event.countsFor, h ev hev]

/-- The event of a click counts once, in its own column, day and row. -/
theorem countP_click (cfg : Config) (visit : Visit) (now : TsMs) {ev : Event}
    (hitem : ev.itemId = some id) (type : EventType) (day item : Int) :
    (eventsOf [logEvent lib cfg visit now ev]).countP (Event.countsFor type day item) =
      if ev.type = type ∧ id = item ∧ dayOf now = day ∧
        classifyUa visit.userAgent ≠ bytes "bot" then 1 else 0 := by
  have hevents : eventsOf [logEvent lib cfg visit now ev] =
      [{ ev with
          ts := now
          anonId := visit.id.anonId
          sessionId := visit.id.sessionId
          uaClass := classifyUa visit.userAgent
          ipHash := lib.hashIp visit.clientIp cfg.ipHashSecret }] := rfl
  rw [hevents, List.countP_singleton]
  simp only [Event.countsFor, Event.countable, EventRow.countable, eventRow, hitem]
  congr 1
  simp [and_assoc, and_comm, and_left_comm]

variable (s : Server) (peer : Text) (day item : Int)

theorem served_eq_false {root : Text} (h : requestedItem root s.cfg req = none) (status : Status) :
    s.served lib root status day item (.request amb req peer) = false := by
  simp [Server.served, h]

theorem countP_outbound :
    (eventsOf (s.reply lib amb req peer).effects).countP (Event.countsFor .outbound day item) =
      if s.served lib (bytes "/r/") .found day item (.request amb req peer) then 1 else 0 := by
  cases reply_clickCases lib amb s req peer with
  | item hitem hredirect heffects hstatus =>
      rw [served_eq_false lib amb s peer day item hredirect, heffects]
      apply countP_countsFor_eq_zero
      unfold handleItem
      split
      · simp [Outcome.answer, eventsOf]
      · simp [eventsOf, Effect.event?, logEvent]
  | @redirect id hitem hredirect heffects hstatus =>
      simp only [Server.served, hredirect, heffects, hstatus]
      unfold handleRedirect
      split
      · simp [Outcome.answer, Outcome.status, eventsOf]
      · rw [countP_click lib s.cfg _ _ rfl]
        congr 1
        simp [Outcome.status, eventsOf, Effect.event?, logEvent, foundResponse, Response.set,
          visitOf, and_assoc]
  | other hitem hredirect himpressions =>
      rw [served_eq_false lib amb s peer day item hredirect]
      apply countP_countsFor_eq_zero
      intro ev hev
      simp [himpressions ev hev]

theorem countP_cardClick (hrenders : RendersItems amb) :
    (eventsOf (s.reply lib amb req peer).effects).countP (Event.countsFor .cardClick day item) =
      if s.served lib (bytes "/item/") .ok day item (.request amb req peer) then 1 else 0 := by
  cases reply_clickCases lib amb s req peer with
  | @item id hitem hredirect heffects hstatus =>
      simp only [Server.served, hitem, heffects, hstatus]
      unfold handleItem
      split
      · simp [Outcome.answer, Outcome.status, eventsOf]
      · next found _ =>
          obtain ⟨html, hhtml⟩ := Option.isSome_iff_exists.1
            (hrenders s.cfg found (positionOf (parseQuery (splitTarget req.target).2)))
          rw [countP_click lib s.cfg _ _ rfl]
          congr 1
          simp [Outcome.status, eventsOf, Effect.event?, logEvent, hhtml, htmlPage, makeResponse,
            Response.set, visitOf, and_assoc]
  | redirect hitem hredirect heffects hstatus =>
      rw [served_eq_false lib amb s peer day item hitem, heffects]
      apply countP_countsFor_eq_zero
      unfold handleRedirect
      split
      · simp [Outcome.answer, eventsOf]
      · simp [eventsOf, Effect.event?, logEvent]
  | other hitem hredirect himpressions =>
      rw [served_eq_false lib amb s peer day item hitem]
      apply countP_countsFor_eq_zero
      intro ev hev
      simp [himpressions ev hev]

end SSize
