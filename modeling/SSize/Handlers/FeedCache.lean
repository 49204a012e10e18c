import SSize.Handlers.Dispatch

/-!
# Is the feed cache invisible?

A run is any sequence of requests and of swaps of the snapshot, from a fresh
process on. The template engine is one function for the whole run, so the page of
a request without a cache is a function of the snapshot and of the three
parameters.

The pages are kept under the tag, the byte `0x1f` and the size, one after the
other. Two filters may share such a key: the byte can be part of either.
-/

namespace SSize

/-- A request that `dispatch` hands to `handle_feed`. -/
structure FeedRequest where
  snapshot : CatalogPtr
  query : Query

namespace FeedRequest

def tag (r : FeedRequest) : Text := (r.query (bytes "tag")).getD []
def size (r : FeedRequest) : Text := (r.query (bytes "size")).getD []
def text (r : FeedRequest) : Text := (r.query (bytes "q")).getD []

def key (r : FeedRequest) : Text := r.tag ++ [0x1f] ++ r.size

def data (cfg : Config) (r : FeedRequest) : Json :=
  feedData cfg r.snapshot.catalog r.tag r.size r.text

/-- The body without any cache. -/
def freshBody (cfg : Config) (render : Text → Json → Option Text) (r : FeedRequest) : Text :=
  (render (bytes "feed.html") (r.data cfg)).getD (bytes "internal error")

/-- Both are answered from the same entry of the cache, if it is there. -/
def SameEntry (r₁ r₂ : FeedRequest) : Prop :=
  r₁.text = [] ∧ r₂.text = [] ∧ r₁.snapshot.serial = r₂.snapshot.serial ∧ r₁.key = r₂.key

/-- The page that is kept for the filter of this request, if there is one, is its own. -/
def OwnPage (cfg : Config) (render : Text → Json → Option Text) (cache : FeedCache)
    (r : FeedRequest) : Prop :=
  ∀ html, (cache.forSnapshot r.snapshot.serial).pages.lookup r.key = some html →
    html = r.freshBody cfg render

/-- Requests of one entry have one filter. -/
def Apart (r₁ r₂ : FeedRequest) : Prop :=
  r₁.SameEntry r₂ → r₁.tag = r₂.tag ∧ r₁.size = r₂.size

end FeedRequest

inductive FeedAct where
  | request (amb : Ambient) (req : HttpRequest) (clientIp : Text)
  /-- `CatalogHandle::set`. -/
  | set (catalog : Catalog)

def isFeed (cfg : Config) (req : HttpRequest) : Bool :=
  decide (req.method = .get ∧ routePath cfg (splitTarget req.target).1 = bytes "/")

def feedQuery (req : HttpRequest) : Query := parseQuery (splitTarget req.target).2

def swap (ptr : CatalogPtr) (catalog : Catalog) : CatalogPtr := ⟨ptr.serial + 1, catalog⟩

/-- The feed requests of a run, each with the snapshot that is current then. -/
def feedRequests (cfg : Config) : CatalogPtr → List FeedAct → List FeedRequest
  | _, [] => []
  | ptr, .set catalog :: rest => feedRequests cfg (swap ptr catalog) rest
  | ptr, .request _ req _ :: rest =>
      if isFeed cfg req then ⟨ptr, feedQuery req⟩ :: feedRequests cfg ptr rest
      else feedRequests cfg ptr rest

/-- The bodies of their answers. -/
def feedBodies (lib : Library) (cfg : Config) (render : Text → Json → Option Text) :
    CatalogPtr → FeedCache → List FeedAct → List Text
  | _, _, [] => []
  | ptr, cache, .set catalog :: rest => feedBodies lib cfg render (swap ptr catalog) cache rest
  | ptr, cache, .request amb req clientIp :: rest =>
      let reply := dispatch lib cfg { amb with render := render } ptr cache req clientIp
      if isFeed cfg req then
        reply.response.body :: feedBodies lib cfg render ptr reply.cache rest
      else feedBodies lib cfg render ptr reply.cache rest

variable {lib : Library} {cfg : Config} {render : Text → Json → Option Text}
  {ptr : CatalogPtr} {cache : FeedCache}

/-! ## One request -/

@[simp] theorem applyIdentity_body (cfg : Config) (id : Identity) (res : Response) :
    (applyIdentity cfg id res).body = res.body := by
  unfold applyIdentity
  split <;> rfl

@[simp] theorem finish_body (cfg : Config) (id : Identity) (res : Response) :
    (finish cfg id res).body = res.body := by
  unfold finish
  dsimp only
  split <;> exact applyIdentity_body cfg id res

/-- What `handle_feed` may do: answer with the entry, or render and perhaps keep
the page. -/
inductive FeedAnswer (cfg : Config) (render : Text → Json → Option Text) (cache : FeedCache)
    (r : FeedRequest) : FeedCache → Text → Prop
  | hit {html : Text} (htext : r.text = [])
      (hlookup : (cache.forSnapshot r.snapshot.serial).pages.lookup r.key = some html) :
      FeedAnswer cfg render cache r (cache.forSnapshot r.snapshot.serial) html
  | fresh (hkept : r.text = [] →
        (cache.forSnapshot r.snapshot.serial).pages.lookup r.key = none ∧
          (render (bytes "feed.html") (r.data cfg) = none ∨
            kMaxCachedFeeds ≤ (cache.forSnapshot r.snapshot.serial).pages.length)) :
      FeedAnswer cfg render cache r (cache.forSnapshot r.snapshot.serial) (r.freshBody cfg render)
  | keep {html : Text} (htext : r.text = [])
      (hlookup : (cache.forSnapshot r.snapshot.serial).pages.lookup r.key = none)
      (hrender : render (bytes "feed.html") (r.data cfg) = some html) :
      FeedAnswer cfg render cache r
        { cache.forSnapshot r.snapshot.serial with
          pages := (r.key, html) :: (cache.forSnapshot r.snapshot.serial).pages }
        (r.freshBody cfg render)

theorem handleFeed_answer (cfg : Config) (cache : FeedCache) (amb : Ambient)
    (hamb : amb.render = render) (r : FeedRequest) :
    FeedAnswer cfg render cache r (handleFeed cfg amb r.snapshot cache r.query).1
      (((handleFeed cfg amb r.snapshot cache r.query).2.result.getD
        (textResponse .internalServerError (bytes "internal error"))).body) := by
  subst hamb
  have htag : (r.query (bytes "tag")).getD [] = r.tag := rfl
  have hsize : (r.query (bytes "size")).getD [] = r.size := rfl
  have htext : (r.query (bytes "q")).getD [] = r.text := rfl
  have hkey : r.tag ++ [0x1f] ++ r.size = r.key := rfl
  have hdata : feedData cfg r.snapshot.catalog r.tag r.size r.text = r.data cfg := rfl
  unfold handleFeed
  simp only [htag, hsize, htext, hkey, hdata]
  by_cases hempty : r.text = []
  · rw [hempty, List.isEmpty_nil, if_pos rfl]
    cases hlookup : (cache.forSnapshot r.snapshot.serial).pages.lookup r.key with
    | some html => exact .hit hempty hlookup
    | none =>
        cases hrender : amb.render (bytes "feed.html") (r.data cfg) with
        | none =>
            have hfresh : r.freshBody cfg amb.render = bytes "internal error" := by
              rw [FeedRequest.freshBody, hrender, Option.getD_none]
            exact hfresh ▸ .fresh fun _ => ⟨hlookup, Or.inl hrender⟩
        | some html =>
            have hfresh : r.freshBody cfg amb.render = html := by
              rw [FeedRequest.freshBody, hrender, Option.getD_some]
            simp only [Bool.true_and, decide_eq_true_eq]
            split
            · exact hfresh ▸ .keep hempty hlookup (hfresh ▸ hrender)
            · next hfull => exact hfresh ▸ .fresh fun _ => ⟨hlookup, Or.inr (Nat.not_lt.1 hfull)⟩
  · have hno : r.text.isEmpty = false := by simpa using hempty
    rw [hno, if_neg (by simp)]
    cases hrender : amb.render (bytes "feed.html") (r.data cfg) with
    | none =>
        have hfresh : r.freshBody cfg amb.render = bytes "internal error" := by
          rw [FeedRequest.freshBody, hrender, Option.getD_none]
        exact hfresh ▸ .fresh fun h => absurd h hempty
    | some html =>
        have hfresh : r.freshBody cfg amb.render = html := by
          rw [FeedRequest.freshBody, hrender, Option.getD_some]
        exact hfresh ▸ .fresh fun h => absurd h hempty

/-- One feed request through `dispatch`. -/
theorem dispatch_feed (lib : Library) (render : Text → Json → Option Text) (cache : FeedCache)
    (ptr : CatalogPtr) (amb : Ambient) {req : HttpRequest} (clientIp : Text)
    (hfeed : isFeed cfg req = true) :
    FeedAnswer cfg render cache ⟨ptr, feedQuery req⟩
      (dispatch lib cfg { amb with render := render } ptr cache req clientIp).cache
      (dispatch lib cfg { amb with render := render } ptr cache req clientIp).response.body := by
  have hroute := of_decide_eq_true hfeed
  have hanswer := handleFeed_answer cfg cache { amb with render := render } rfl
    ⟨ptr, feedQuery req⟩
  unfold dispatch
  simp only [hroute, and_self, if_true, finish_body]
  exact hanswer

theorem dispatch_not_feed (amb : Ambient) {req : HttpRequest} (clientIp : Text)
    (hfeed : isFeed cfg req = false) :
    (dispatch lib cfg amb ptr cache req clientIp).cache = cache := by
  have hroute := of_decide_eq_false hfeed
  unfold dispatch
  simp only [if_neg hroute]

theorem FeedAnswer.body_of_ownPage {r : FeedRequest} {cache' : FeedCache} {body : Text}
    (hanswer : FeedAnswer cfg render cache r cache' body)
    (hown : r.text = [] → r.OwnPage cfg render cache) : body = r.freshBody cfg render := by
  cases hanswer with
  | hit htext hlookup => exact hown htext _ hlookup
  | fresh hkept => rfl
  | keep htext hlookup hrender => rfl

/-! ## Filters apart are enough -/

/-- Where the pages in the cache come from. -/
structure Rendered (cfg : Config) (render : Text → Json → Option Text) (past : List FeedRequest)
    (ptr : CatalogPtr) (cache : FeedCache) : Prop where
  old : ∀ n ∈ cache.feedCacheFor, n ≤ ptr.serial
  pages : cache.feedCacheFor = some ptr.serial → ∀ key html,
    cache.pages.lookup key = some html → ∃ r ∈ past, r.snapshot = ptr ∧ r.text = [] ∧
      r.key = key ∧ render (bytes "feed.html") (r.data cfg) = some html

theorem Rendered.swap {past : List FeedRequest} (h : Rendered cfg render past ptr cache)
    (catalog : Catalog) : Rendered cfg render past (swap ptr catalog) cache where
  old n hn := Nat.le_succ_of_le (h.old n hn)
  pages hfor := by
    exact absurd (h.old _ hfor) (Nat.not_succ_le_self _)

theorem Rendered.forSnapshot {past : List FeedRequest}
    (h : Rendered cfg render past ptr cache) :
    Rendered cfg render past ptr (cache.forSnapshot ptr.serial) ∧
      (cache.forSnapshot ptr.serial).feedCacheFor = some ptr.serial := by
  unfold FeedCache.forSnapshot
  split
  · next hsame => exact ⟨h, hsame⟩
  · refine ⟨⟨fun n hn => ?_, fun _ key html hlookup => ?_⟩, rfl⟩
    · rw [Option.mem_some_iff] at hn
      exact hn.ge
    · simp at hlookup

theorem Rendered.past {past past' : List FeedRequest} (h : Rendered cfg render past ptr cache)
    (hsub : past ⊆ past') : Rendered cfg render past' ptr cache where
  old := h.old
  pages hfor key html hlookup := by
    obtain ⟨r, hr, hrest⟩ := h.pages hfor key html hlookup
    exact ⟨r, hsub hr, hrest⟩

theorem Rendered.ownPage {past : List FeedRequest} {r : FeedRequest}
    (h : Rendered cfg render past r.snapshot cache) (hapart : ∀ r' ∈ past, r'.Apart r)
    (htext : r.text = []) : r.OwnPage cfg render cache := by
  intro html hlookup
  obtain ⟨hcache, hfor⟩ := h.forSnapshot
  obtain ⟨r', hr', hsnapshot, htext', hkey, hrender⟩ := hcache.pages hfor _ _ hlookup
  obtain ⟨htag, hsize⟩ := hapart r' hr' ⟨htext', htext, by rw [hsnapshot], hkey⟩
  have hdata : r'.data cfg = r.data cfg := by
    rw [FeedRequest.data, FeedRequest.data, hsnapshot, htag, hsize, htext', htext]
  rw [FeedRequest.freshBody, ← hdata, hrender, Option.getD_some]

/-- A request apart from all before it gets its own page. -/
theorem FeedAnswer.body_eq {past : List FeedRequest} {r : FeedRequest} {cache' : FeedCache}
    {body : Text} (h : Rendered cfg render past r.snapshot cache)
    (hapart : ∀ r' ∈ past, r'.Apart r) (hanswer : FeedAnswer cfg render cache r cache' body) :
    body = r.freshBody cfg render ∧ Rendered cfg render (past ++ [r]) r.snapshot cache' := by
  refine ⟨hanswer.body_of_ownPage (h.ownPage hapart), ?_⟩
  obtain ⟨hcache, hfor⟩ := h.forSnapshot
  have hmore := hcache.past (List.subset_append_left past [r])
  cases hanswer with
  | hit htext hlookup => exact hmore
  | fresh hkept => exact hmore
  | @keep html htext hlookup hrender =>
      refine ⟨hmore.old, fun _ key html' hlookup' => ?_⟩
      rw [List.lookup_cons] at hlookup'
      split at hlookup'
      · next hkey =>
          rw [beq_iff_eq] at hkey
          rw [Option.some.injEq] at hlookup'
          exact ⟨r, by simp, rfl, htext, hkey.symm, hlookup' ▸ hrender⟩
      · exact hmore.pages hfor key html' hlookup'

theorem feedBodies_eq {past : List FeedRequest} {acts : List FeedAct}
    (h : Rendered cfg render past ptr cache)
    (hapart : (past ++ feedRequests cfg ptr acts).Pairwise FeedRequest.Apart) :
    feedBodies lib cfg render ptr cache acts =
      (feedRequests cfg ptr acts).map (FeedRequest.freshBody cfg render) := by
  induction acts generalizing ptr cache past with
  | nil => rfl
  | cons act rest ih =>
      cases act with
      | set catalog => exact ih (h.swap catalog) hapart
      | request amb req clientIp =>
          rw [feedRequests] at hapart ⊢
          rw [feedBodies]
          cases hfeed : isFeed cfg req with
          | true =>
              simp only [hfeed, if_true] at hapart ⊢
              have hbefore := (List.pairwise_append.1 hapart).2.2
              obtain ⟨hbody, hnext⟩ := (dispatch_feed lib _ _ _ amb clientIp hfeed).body_eq h
                fun r' hr' => hbefore r' hr' _ List.mem_cons_self
              rw [List.append_cons] at hapart
              rw [List.map_cons, hbody, ih hnext hapart]
          | false =>
              simp only [hfeed, Bool.false_eq_true, if_false] at hapart ⊢
              rw [dispatch_not_feed _ _ hfeed]
              exact ih h hapart

/-! ## A shared entry shows -/

theorem FeedRequest.data_injective {r₁ r₂ : FeedRequest} (h : r₁.data cfg = r₂.data cfg) :
    r₁.tag = r₂.tag ∧ r₁.size = r₂.size := by
  simp only [FeedRequest.data, feedData, Json.object.injEq, List.cons.injEq, Prod.mk.injEq,
    Json.string.injEq, true_and] at h
  exact ⟨h.2.1, h.2.2.1⟩

/-- An engine that knows the pages of two requests only. -/
noncomputable def renderTwo (cfg : Config) (r₁ r₂ : FeedRequest) (_ : Text) (data : Json) :
    Option Text :=
  open Classical in
  if data = r₁.data cfg then some (bytes "a")
  else if data = r₂.data cfg then some (bytes "b")
  else none

theorem serial_le_of_mem {acts : List FeedAct} {r : FeedRequest}
    (h : r ∈ feedRequests cfg ptr acts) : ptr.serial ≤ r.snapshot.serial := by
  induction acts generalizing ptr with
  | nil => simp [feedRequests] at h
  | cons act rest ih =>
      cases act with
      | set catalog => exact Nat.le_of_succ_le (ih h)
      | request amb req clientIp =>
          rw [feedRequests] at h
          split at h
          · rcases List.mem_cons.1 h with rfl | hrest
            · exact Nat.le_refl _
            · exact ih hrest
          · exact ih h

/-- What is in the cache for this snapshot stays there under its key. -/
theorem FeedAnswer.lookup {r : FeedRequest} {cache' : FeedCache} {body key html : Text}
    (hanswer : FeedAnswer cfg render cache r cache' body)
    (hfor : cache.feedCacheFor = some r.snapshot.serial)
    (hlookup : cache.pages.lookup key = some html) :
    cache'.feedCacheFor = some r.snapshot.serial ∧ cache'.pages.lookup key = some html ∧
      (r.text = [] → r.key = key → body = html) := by
  have hsame : cache.forSnapshot r.snapshot.serial = cache := by
    rw [FeedCache.forSnapshot, if_pos hfor]
  cases hanswer with
  | @hit html' htext hlookup' =>
      rw [hsame] at hlookup' ⊢
      refine ⟨hfor, hlookup, fun _ hkey => ?_⟩
      rw [hkey, hlookup, Option.some.injEq] at hlookup'
      exact hlookup'.symm
  | fresh hkept =>
      rw [hsame] at hkept ⊢
      refine ⟨hfor, hlookup, fun htext hkey => ?_⟩
      rw [hkey, hlookup] at hkept
      exact absurd (hkept htext).1 (by simp)
  | @keep html' htext hnone hrender =>
      rw [hsame] at hnone ⊢
      have hne : key ≠ r.key := by
        rintro rfl
        simp [hlookup] at hnone
      refine ⟨hfor, ?_, fun _ hkey => absurd hkey.symm hne⟩
      rw [List.lookup_cons]
      simp only [beq_eq_false_iff_ne.2 hne]
      exact hlookup

/-- From a cached page on, a request of its entry that wants another one is seen. -/
theorem feedBodies_ne_of_cached {acts : List FeedAct} {r : FeedRequest} {html : Text}
    (hfor : cache.feedCacheFor = some r.snapshot.serial)
    (hold : r.snapshot.serial ≤ ptr.serial) (htext : r.text = [])
    (hlookup : cache.pages.lookup r.key = some html) (hother : r.freshBody cfg render ≠ html)
    (hr : r ∈ feedRequests cfg ptr acts) :
    feedBodies lib cfg render ptr cache acts ≠
      (feedRequests cfg ptr acts).map (FeedRequest.freshBody cfg render) := by
  induction acts generalizing ptr cache with
  | nil => simp [feedRequests] at hr
  | cons act rest ih =>
      have hserial : r.snapshot.serial = ptr.serial := by
        have hnew := serial_le_of_mem hr
        omega
      cases act with
      | set catalog => exact ih hfor (Nat.le_succ_of_le hold) hlookup hr
      | request amb req clientIp =>
          rw [feedRequests] at hr ⊢
          rw [feedBodies]
          cases hfeed : isFeed cfg req with
          | false =>
              simp only [hfeed, Bool.false_eq_true, if_false] at hr ⊢
              rw [dispatch_not_feed _ _ hfeed]
              exact ih hfor hold hlookup hr
          | true =>
              simp only [hfeed, if_true] at hr ⊢
              intro heq
              rw [List.map_cons, List.cons.injEq] at heq
              obtain ⟨hbody, hrest⟩ := heq
              obtain ⟨hfor', hlookup', hhit⟩ := (dispatch_feed lib render _ _ amb
                clientIp hfeed).lookup (hserial ▸ hfor) hlookup
              rcases List.mem_cons.1 hr with rfl | hr
              · exact hother (hbody.symm.trans (hhit htext rfl))
              · exact ih (hserial ▸ hfor') hold hlookup' hr hrest

/-- Nothing but this entry is in the cache. -/
def OnlyKey (key : Text) (cache : FeedCache) : Prop := ∀ page ∈ cache.pages, page.1 = key

theorem OnlyKey.forSnapshot {key : Text} (h : OnlyKey key cache) (serial : Nat) :
    OnlyKey key (cache.forSnapshot serial) := by
  unfold FeedCache.forSnapshot
  split
  · exact h
  · intro page hpage
    simp at hpage

theorem OnlyKey.eq_nil {key : Text} (h : OnlyKey key cache)
    (hlookup : cache.pages.lookup key = none) : cache.pages = [] := by
  cases hpages : cache.pages with
  | nil => rfl
  | cons page pages =>
      have hkey := h page (by simp [hpages])
      rw [hpages, ← hkey, List.lookup_cons_self] at hlookup
      simp at hlookup

section

variable {r₁ r₂ : FeedRequest} (hshared : r₁.SameEntry r₂)

include hshared

/-- Only the two requests of `renderTwo` have a page, and they have one key. -/
theorem OnlyKey.answer {r : FeedRequest} {cache' : FeedCache} {body : Text}
    (h : OnlyKey r₁.key cache)
    (hanswer : FeedAnswer cfg (renderTwo cfg r₁ r₂) cache r cache' body) :
    OnlyKey r₁.key cache' := by
  have hcache := h.forSnapshot r.snapshot.serial
  cases hanswer with
  | hit htext hlookup => exact hcache
  | fresh hkept => exact hcache
  | @keep html htext hlookup hrender =>
      intro page hpage
      rcases List.mem_cons.1 hpage with rfl | hpage
      · have hdata : r.data cfg = r₁.data cfg ∨ r.data cfg = r₂.data cfg := by
          unfold renderTwo at hrender
          by_contra hneither
          rw [not_or] at hneither
          rw [if_neg hneither.1, if_neg hneither.2] at hrender
          simp at hrender
        rcases hdata with hdata | hdata
        · obtain ⟨htag, hsize⟩ := FeedRequest.data_injective hdata
          simp only [FeedRequest.key, htag, hsize]
        · obtain ⟨htag, hsize⟩ := FeedRequest.data_injective hdata
          rw [hshared.2.2.2]
          simp only [FeedRequest.key, htag, hsize]
      · exact hcache page hpage

/-- The first of them leaves its page in the cache. -/
theorem FeedAnswer.caches {cache' : FeedCache} {body : Text} (h : OnlyKey r₁.key cache)
    (hanswer : FeedAnswer cfg (renderTwo cfg r₁ r₂) cache r₁ cache' body)
    (hbody : body = r₁.freshBody cfg (renderTwo cfg r₁ r₂)) :
    cache'.feedCacheFor = some r₁.snapshot.serial ∧
      cache'.pages.lookup r₁.key = some (bytes "a") := by
  have hfresh : r₁.freshBody cfg (renderTwo cfg r₁ r₂) = bytes "a" := by
    simp [FeedRequest.freshBody, renderTwo]
  have hfor : (cache.forSnapshot r₁.snapshot.serial).feedCacheFor = some r₁.snapshot.serial := by
    unfold FeedCache.forSnapshot
    split
    · assumption
    · rfl
  cases hanswer with
  | hit htext hlookup => exact ⟨hfor, by rw [hlookup, hbody, hfresh]⟩
  | fresh hkept =>
      obtain ⟨hlookup, hnone | hfull⟩ := hkept hshared.1
      · simp [renderTwo] at hnone
      · rw [(h.forSnapshot _).eq_nil hlookup] at hfull
        exact absurd hfull (by decide)
  | @keep html htext hlookup hrender =>
      refine ⟨hfor, ?_⟩
      have hhtml : html = bytes "a" := by
        simpa [renderTwo] using hrender.symm
      rw [hhtml, List.lookup_cons_self]

/-- Two requests of one entry with different filters: one is answered with the page
of the other. -/
theorem feedBodies_ne {acts : List FeedAct} (h : OnlyKey r₁.key cache)
    (hother : ¬ (r₁.tag = r₂.tag ∧ r₁.size = r₂.size))
    (hsub : [r₁, r₂].Sublist (feedRequests cfg ptr acts)) :
    feedBodies lib cfg (renderTwo cfg r₁ r₂) ptr cache acts ≠
      (feedRequests cfg ptr acts).map (FeedRequest.freshBody cfg (renderTwo cfg r₁ r₂)) := by
  induction acts generalizing ptr cache with
  | nil => simp [feedRequests] at hsub
  | cons act rest ih =>
      cases act with
      | set catalog => exact ih h hsub
      | request amb req clientIp =>
          rw [feedRequests] at hsub ⊢
          rw [feedBodies]
          cases hfeed : isFeed cfg req with
          | false =>
              simp only [hfeed, Bool.false_eq_true, if_false] at hsub ⊢
              rw [dispatch_not_feed _ _ hfeed]
              exact ih h hsub
          | true =>
              simp only [hfeed, if_true] at hsub ⊢
              intro heq
              rw [List.map_cons, List.cons.injEq] at heq
              obtain ⟨hbody, hrest⟩ := heq
              have hanswer := dispatch_feed lib (renderTwo cfg r₁ r₂) cache ptr amb clientIp hfeed
              cases hsub with
              | cons _ hsub => exact ih (h.answer hshared hanswer) hsub hrest
              | cons_cons _ hsub =>
                  obtain ⟨hfor, hlookup⟩ := hanswer.caches hshared h hbody
                  have hne : r₂.data cfg ≠ FeedRequest.data cfg ⟨ptr, feedQuery req⟩ := by
                    intro hdata
                    obtain ⟨htag, hsize⟩ := FeedRequest.data_injective hdata
                    exact hother ⟨htag.symm, hsize.symm⟩
                  have hfresh : r₂.freshBody cfg (renderTwo cfg ⟨ptr, feedQuery req⟩ r₂) =
                      bytes "b" := by
                    rw [FeedRequest.freshBody, renderTwo, if_neg hne, if_pos rfl,
                      Option.getD_some]
                  obtain ⟨-, htext, hserial, hkey⟩ := hshared
                  exact feedBodies_ne_of_cached (hserial ▸ hfor) hserial.ge htext (hkey ▸ hlookup)
                    (by rw [hfresh]; decide) (List.singleton_sublist.1 hsub) hrest

end

/-- Whatever the templates are, every feed page is the one that the request would
get without a cache, exactly when no two requests of the run share an entry of the
cache with different filters. -/
theorem feedCache_invisible_iff (lib : Library) (cfg : Config) (start : CatalogPtr)
    (acts : List FeedAct) :
    (∀ render, feedBodies lib cfg render start {} acts =
        (feedRequests cfg start acts).map (FeedRequest.freshBody cfg render)) ↔
      (feedRequests cfg start acts).Pairwise FeedRequest.Apart := by
  constructor
  · intro h
    rw [List.pairwise_iff_forall_sublist]
    intro r₁ r₂ hsub hshared
    by_contra hother
    have hempty : OnlyKey r₁.key {} := fun page hpage => absurd hpage List.not_mem_nil
    exact feedBodies_ne hshared hempty hother hsub (h _)
  · intro hapart render
    have hempty : Rendered cfg render [] start {} :=
      ⟨fun n hn => by simp at hn, fun hfor => by simp at hfor⟩
    exact feedBodies_eq hempty hapart

/-- The first chip of `feed.html`, which is marked where there is no tag. -/
def firstChip (_ : Text) (data : Json) : Option Text :=
  (data.string? (bytes "active_tag")).map fun tag =>
    bytes "<a class=\"chip " ++ (if tag.isEmpty then bytes "chip-on" else []) ++
      bytes "\" href=\"/\">всё</a>"

/-- No tag and the size `0x1f M`, then the tag `0x1f` and the size `M`. -/
theorem feed_served_for_other_filter :
    ¬ ∀ (lib : Library) (cfg : Config) (render : Text → Json → Option Text) (start : CatalogPtr)
        (acts : List FeedAct), feedBodies lib cfg render start {} acts =
      (feedRequests cfg start acts).map (FeedRequest.freshBody cfg render) := by
  intro h
  have hbodies := h .bare {} firstChip {}
    [.request (.bare 0) { target := bytes "/?size=%1fM" } [],
      .request (.bare 0) { target := bytes "/?tag=%1f&size=M" } []]
  exact absurd hbodies (by decide)

end SSize
