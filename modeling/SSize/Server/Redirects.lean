import SSize.EventHistory
import SSize.Handlers.Cookies
import SSize.Server.Clicks

/-!
# Redirects and their clicks

A request is answered 302 exactly when it asks for `/r/{id}` with a published item.
Such a request has one effect, the click, whose token is the one that went into the
target. The queue takes the click or counts it as dropped.
-/

namespace SSize

variable (lib : Library) (cfg : Config) (amb : Ambient)

/-! ## What the queue makes of the effects of a request -/

/-- The pushes of a request, one at a time. -/
def EventQueue.pushAll (q : EventQueue) (effects : List Effect) : EventQueue :=
  (eventsOf effects).foldl (fun q ev => (q.push ev).1) q

theorem EventQueue.push_room {q : EventQueue} (hroom : q.pending.length < q.maxPending)
    (ev : Event) :
    (q.push ev).1.pending = q.pending ++ [ev] ∧ (q.push ev).1.dropped = q.dropped := by
  have haccepted : q.push ev = ((q.push ev).1, true) :=
    Prod.ext rfl ((push_accepts_iff q ev).2 hroom)
  have hpush := push_accepted haccepted
  exact ⟨hpush.1, hpush.2.1⟩

theorem EventQueue.push_full {q : EventQueue} (hfull : q.pending.length = q.maxPending)
    (ev : Event) :
    (q.push ev).1.pending = q.pending ∧ (q.push ev).1.dropped = q.dropped + 1 := by
  have hrefused : q.push ev = ((q.push ev).1, false) :=
    Prod.ext rfl ((push_refuses_iff q ev).2 hfull)
  have hpush := push_refused hrefused
  exact ⟨hpush.1, hpush.2.1⟩

/-- What is appended is among the effects. -/
theorem EventQueue.pushAll_pending (q : EventQueue) (effects : List Effect) :
    ∃ added, (q.pushAll effects).pending = q.pending ++ added ∧ added ⊆ eventsOf effects := by
  unfold pushAll
  induction eventsOf effects generalizing q with
  | nil => exact ⟨[], (List.append_nil _).symm, List.Subset.refl _⟩
  | cons ev events ih =>
      obtain ⟨added, hpending, hadded⟩ := ih (q.push ev).1
      rw [List.foldl_cons]
      by_cases hroom : q.pending.length < q.maxPending
      · refine ⟨ev :: added, ?_, List.cons_subset_cons ev hadded⟩
        rw [hpending, (push_room hroom ev).1, List.append_assoc, List.singleton_append]
      · have hfull : q.pending.length = q.maxPending :=
          le_antisymm q.bounded (not_lt.1 hroom)
        refine ⟨added, ?_, List.subset_cons_of_subset ev hadded⟩
        rw [hpending, (push_full hfull ev).1]

/-- The queue takes the event, or is at its capacity and counts it as dropped. -/
structure EventQueue.TakesOrDrops (q : EventQueue) (ev : Event) (q' : EventQueue) : Prop where
  room : q.pending.length < q.maxPending →
    q'.pending = q.pending ++ [ev] ∧ q'.dropped = q.dropped
  full : q.pending.length = q.maxPending →
    q'.pending = q.pending ∧ q'.dropped = q.dropped + 1

theorem EventQueue.pushAll_one (q : EventQueue) (ev : Event) :
    q.TakesOrDrops ev (q.pushAll [.event ev]) :=
  ⟨fun hroom => push_room hroom ev, fun hfull => push_full hfull ev⟩

/-! ## The status -/

theorem handleFile_status_ne (req : HttpRequest) (root rel : Text) :
    (handleFile amb req root rel).status ≠ .found := by
  unfold handleFile
  simp only
  split
  · simp
  split
  · simp
  split
  · simp
  split
  · simp [Response.set]
  split
  · simp
  split <;> simp [Response.set, makeResponse]

theorem handlePostback_status_ne (kopeksOf : Text → Option Kopek) (now : TsMs) (q : Query) :
    (handlePostback kopeksOf cfg now q).1.status ≠ .found := by
  unfold handlePostback
  split
  · next res hread =>
      obtain ⟨st, message, hst, rfl⟩ := readPostback_error_text kopeksOf cfg hread
      rintro hfound
      rw [textResponse_status] at hfound
      rw [hfound] at hst
      simp [Status.refuses] at hst
  · simp

theorem handleFeed_status_ne (ptr : CatalogPtr) (cache : FeedCache) (q : Query) :
    (handleFeed cfg amb ptr cache q).2.status ≠ .found := by
  unfold handleFeed
  simp only
  split
  · simp [Outcome.answer, Outcome.status, htmlPage, makeResponse, Response.set]
  split
  · simp [Outcome.status]
  split <;> simp [Outcome.answer, Outcome.status, htmlPage, makeResponse, Response.set]

theorem handleItem_status_ne (catalog : Catalog) (visit : Visit) (id : Int) (q : Query) :
    (handleItem lib cfg amb catalog visit id q).status ≠ .found := by
  unfold handleItem
  split
  · simp [Outcome.answer, Outcome.status]
  · next item _ =>
      cases hrender : amb.render (bytes "item.html") (itemData cfg item (positionOf q)) with
      | none => simp [Outcome.status, hrender]
      | some html => simp [Outcome.status, hrender, htmlPage, makeResponse, Response.set]

theorem handleBeacon_status_ne (visit : Visit) (body : Text) :
    (handleBeacon lib cfg amb visit body).status ≠ .found := by
  unfold handleBeacon
  split <;> simp [Outcome.answer, Outcome.status]

variable {cfg} {catalog : Catalog} {req : HttpRequest} {clientIp : Text} {id : Int}

/-- Only `handle_redirect` answers 302. -/
theorem routed_status_ne (hredirect : requestedItem (bytes "/r/") cfg req = none) :
    (routed lib cfg amb catalog req clientIp).status ≠ .found := by
  unfold routed route
  split
  · split
    · exact handleItem_status_ne lib cfg amb catalog _ _ _
    · simp [Outcome.answer, Outcome.status]
  split
  · next h =>
      have hid : parseInt ((pathOf cfg req).drop 3) = none := by
        rw [requestedItem, if_pos h] at hredirect
        exact hredirect
      simp [hid, Outcome.answer, Outcome.status]
  split
  · exact handleFile_status_ne amb req _ _
  split
  · exact handleFile_status_ne amb req _ _
  split
  · exact handleBeacon_status_ne lib cfg amb _ req.body
  split
  · exact handlePostback_status_ne cfg lib.kopeksOf _ _
  split <;> simp [Outcome.answer, Outcome.status]

/-! ## The target -/

/-- The values of the fields of this name. -/
def Response.valuesOf (name : Text) (res : Response) : List Text :=
  (res.fields.filter fun f => f.1 == name).map Prod.snd

theorem Response.valuesOf_set_other (res : Response) {name other : Text} (h : name ≠ other)
    (value : Text) : (res.set name value).valuesOf other = res.valuesOf other := by
  rw [valuesOf, res.filter_set h, valuesOf]

theorem valuesOf_setCookie {name : Text} (h : bytes "Set-Cookie" ≠ name) (cookie value : Text)
    (maxAge : Int) (res : Response) :
    (setCookie cfg cookie value maxAge res).valuesOf name = res.valuesOf name := by
  have hother : (bytes "Set-Cookie" == name) = false := beq_false_of_ne h
  simp [setCookie, Response.insert, Response.valuesOf, hother]

/-- What goes out has the target of the response. -/
theorem location_finish (identity : Identity) (res : Response) :
    (finish cfg identity res).valuesOf (bytes "Location") = res.valuesOf (bytes "Location") := by
  have happlied : (applyIdentity cfg identity res).valuesOf (bytes "Location") =
      res.valuesOf (bytes "Location") := by
    unfold applyIdentity
    split
    · rw [valuesOf_setCookie (by decide), valuesOf_setCookie (by decide)]
    · rw [valuesOf_setCookie (by decide)]
  unfold finish
  simp only
  split
  · rw [Response.valuesOf_set_other _ (by decide), happlied]
  · rw [Response.valuesOf_set_other _ (by decide), Response.valuesOf_set_other _ (by decide),
      happlied]

theorem location_foundResponse (target : Text) :
    (foundResponse target).valuesOf (bytes "Location") = [target] := by
  unfold foundResponse
  rw [Response.valuesOf_set_other _ (by decide), Response.valuesOf_set_other _ (by decide)]
  simp [Response.set, Response.valuesOf]

/-- The click on `item` and the target that the visitor is sent to, with one token in both. -/
structure SendsOn (catalog : Catalog) (item : Item) (ev : Event) (reply : Reply) : Prop where
  type : ev.type = .outbound
  itemId : ev.itemId = some item.id
  effects : reply.effects = [.event ev]
  partnerTarget : ∀ partner, catalog.partner item.partnerId = some partner →
    partner.enabled = true →
      reply.response.valuesOf (bytes "Location") =
        [renderLink partner.linkTemplate
          { url := item.productUrl, subid := ev.clickToken, campaign := item.campaign }]
  rawTarget : (∀ partner, catalog.partner item.partnerId = some partner →
    partner.enabled = false) →
      reply.response.valuesOf (bytes "Location") = [item.productUrl]

theorem dispatch_feed_status (ptr : CatalogPtr) (cache : FeedCache)
    (hfeed : req.method = .get ∧ pathOf cfg req = bytes "/") :
    (dispatch lib cfg amb ptr cache req clientIp).response.status =
      (handleFeed cfg amb ptr cache (parseQuery (splitTarget req.target).2)).2.status := by
  have hroute : req.method = .get ∧ routePath cfg (splitTarget req.target).1 = bytes "/" :=
    hfeed
  unfold dispatch
  simp only [if_pos hroute, finish_status]
  rfl

/-- A redirect to a published item. -/
theorem dispatch_redirect {item : Item} (ptr : CatalogPtr) (cache : FeedCache)
    (hid : requestedItem (bytes "/r/") cfg req = some id)
    (hitem : ptr.catalog.find id = some item) :
    (dispatch lib cfg amb ptr cache req clientIp).response.status = .found ∧
      ∃ ev, SendsOn ptr.catalog item ev (dispatch lib cfg amb ptr cache req clientIp) := by
  have hfeed := requestedItem_not_feed (by decide) hid
  have hitemId : item.id = id := by simpa using List.find?_some hitem
  have heffects := dispatch_effects_eq lib cfg amb ptr cache req clientIp
  rw [if_neg hfeed, routed_redirect lib amb hid, handleRedirect, hitem] at heffects
  have hresponse := dispatch_response lib cfg amb ptr cache req clientIp hfeed
  rw [routed_redirect lib amb hid, handleRedirect, hitem] at hresponse
  simp only [Option.getD_some] at hresponse
  refine ⟨?_, _, ⟨rfl, ?_, heffects, ?_, ?_⟩⟩
  · rw [hresponse, finish_status]
    rfl
  · rw [hitemId]
  · intro partner hpartner henabled
    rw [hresponse, location_finish, location_foundResponse, hpartner]
    simp only [henabled, if_true, outboundUrl]
  · intro hunusable
    rw [hresponse, location_finish, location_foundResponse]
    cases hpartner : ptr.catalog.partner item.partnerId with
    | none => rfl
    | some partner => simp [hunusable partner hpartner]

/-- Every other request. -/
theorem dispatch_not_redirect (ptr : CatalogPtr) (cache : FeedCache)
    (hother : ∀ id, requestedItem (bytes "/r/") cfg req = some id → ptr.catalog.find id = none) :
    (dispatch lib cfg amb ptr cache req clientIp).response.status ≠ .found ∧
      ∀ ev ∈ eventsOf (dispatch lib cfg amb ptr cache req clientIp).effects,
        ev.type ≠ .outbound := by
  by_cases hfeed : req.method = .get ∧ pathOf cfg req = bytes "/"
  · rw [dispatch_feed_status lib amb ptr cache hfeed, dispatch_effects_eq, if_pos hfeed]
    exact ⟨handleFeed_status_ne cfg amb ptr cache _, by simp [eventsOf]⟩
  rw [dispatch_status lib cfg amb ptr cache req clientIp hfeed, dispatch_effects_eq,
    if_neg hfeed]
  cases hid : requestedItem (bytes "/r/") cfg req with
  | some id =>
      rw [routed_redirect lib amb hid, handleRedirect, hother id hid]
      exact ⟨by simp [Outcome.answer, Outcome.status], by simp [Outcome.answer, eventsOf]⟩
  | none =>
      refine ⟨routed_status_ne lib amb hid, ?_⟩
      cases hitem : requestedItem (bytes "/item/") cfg req with
      | some id =>
          rw [routed_item lib amb hitem, handleItem]
          split
          · simp [Outcome.answer, eventsOf]
          · simp [eventsOf, Effect.event?, logEvent]
      | none =>
          intro ev hev htype
          have himpression := (routed_other lib amb hitem hid ev hev).1
          rw [htype] at himpression
          simp at himpression

variable (cfg)

/-- 302 is the answer to a GET of `/r/{id}` with a published item and to nothing else.
Its click is taken by the queue or counted, and carries the token of the target; no
other request adds a click. -/
theorem dispatch_found (ptr : CatalogPtr) (cache : FeedCache) (queue : EventQueue)
    (req : HttpRequest) (clientIp : Text) :
    let reply := dispatch lib cfg amb ptr cache req clientIp
    let queue' := queue.pushAll reply.effects
    (reply.response.status = .found ↔
      ∃ id item, requestedItem (bytes "/r/") cfg req = some id ∧
        ptr.catalog.find id = some item) ∧
    (∀ id item, requestedItem (bytes "/r/") cfg req = some id →
      ptr.catalog.find id = some item →
        item.id = id ∧ ∃ ev, SendsOn ptr.catalog item ev reply ∧
          queue.TakesOrDrops ev queue') ∧
    (reply.response.status ≠ .found → ∃ added, queue'.pending = queue.pending ++ added ∧
      ∀ ev ∈ added, ev.type ≠ .outbound) := by
  intro reply queue'
  have hother : (¬ ∃ id item, requestedItem (bytes "/r/") cfg req = some id ∧
      ptr.catalog.find id = some item) →
        ∀ id, requestedItem (bytes "/r/") cfg req = some id → ptr.catalog.find id = none := by
    intro hnone id hid
    by_contra hfind
    obtain ⟨item, hitem⟩ := Option.ne_none_iff_exists'.1 hfind
    exact hnone ⟨id, item, hid, hitem⟩
  refine ⟨⟨fun hfound => ?_, ?_⟩, ?_, ?_⟩
  · by_contra hnone
    exact (dispatch_not_redirect lib amb ptr cache (hother hnone)).1 hfound
  · rintro ⟨id, item, hid, hitem⟩
    exact (dispatch_redirect lib amb ptr cache hid hitem).1
  · intro id item hid hitem
    obtain ⟨-, ev, hsends⟩ :=
      @dispatch_redirect lib cfg amb req clientIp id item ptr cache hid hitem
    refine ⟨by simpa using List.find?_some hitem, ev, hsends, ?_⟩
    have hqueue : queue' = queue.pushAll [.event ev] := congrArg queue.pushAll hsends.effects
    rw [hqueue]
    exact queue.pushAll_one ev
  · intro hstatus
    have hnone : ¬ ∃ id item, requestedItem (bytes "/r/") cfg req = some id ∧
        ptr.catalog.find id = some item := by
      rintro ⟨id, item, hid, hitem⟩
      exact hstatus (dispatch_redirect lib amb ptr cache hid hitem).1
    have hquiet := (@dispatch_not_redirect lib cfg amb req clientIp ptr cache (hother hnone)).2
    obtain ⟨added, hpending, hadded⟩ := queue.pushAll_pending reply.effects
    exact ⟨added, hpending, fun ev hev => hquiet ev (hadded hev)⟩

end SSize
