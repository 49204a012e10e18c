import SSize.Handlers.Files
import SSize.Server.Redirects

/-!
# The fields of a reply

A handler names the type of its body and, for a file or a redirect, how long that may be
kept. `dispatch` adds the rest: the cookies of the identity, one `Server`, and the
`Cache-Control` that forbids to keep the reply where the handler has not set one.
-/

namespace SSize

variable {cfg : Config} {res : Response}

/-! ## Fields of one name -/

theorem Response.valuesOf_set (res : Response) (name value : Text) :
    (res.set name value).valuesOf name = [value] := by
  have hold : (res.fields.filter fun f => f.1 != name).filter (fun f => f.1 == name) = [] := by
    rw [List.filter_filter, List.filter_eq_nil_iff]
    intro f _
    by_cases hf : f.1 = name <;> simp [hf]
  simp [set, valuesOf, List.filter_append, hold]

theorem Response.valuesOf_insert (res : Response) (name value : Text) :
    (res.insert name value).valuesOf name = res.valuesOf name ++ [value] := by
  simp [insert, valuesOf, List.filter_append]

theorem Response.valuesOf_eq_nil_iff {name : Text} :
    res.valuesOf name = [] ↔ ∀ f ∈ res.fields, f.1 ≠ name := by
  simp [valuesOf, List.filter_eq_nil_iff]

theorem Response.mem_fields_set {f : Text × Text} {name value : Text}
    (h : f ∈ (res.set name value).fields) : f ∈ res.fields ∨ f.1 = name := by
  rcases List.mem_append.1 h with hkept | hnew
  · exact Or.inl (List.mem_filter.1 hkept).1
  · exact Or.inr (congrArg Prod.fst (List.mem_singleton.1 hnew))

/-! ## What the handlers set -/

def handlerFields : List Text :=
  ["Content-Type", "Location", "Cache-Control", "Referrer-Policy", "ETag"].map bytes

abbrev noStore : Text := bytes "no-store"

abbrev noCache : Text := bytes "no-cache"

/-- A response before `dispatch` gets it, with the `Cache-Control` that it has by then. -/
structure Response.Handled (control : Option Text) (res : Response) : Prop where
  names : ∀ f ∈ res.fields, f.1 ∈ handlerFields
  control : res.valuesOf (bytes "Cache-Control") = control.toList

variable {control : Option Text}

theorem Response.Handled.set (h : res.Handled control) {name : Text}
    (hname : name ∈ handlerFields) (hother : name ≠ bytes "Cache-Control") (value : Text) :
    (res.set name value).Handled control where
  names f hf := by
    rcases mem_fields_set hf with hkept | hnew
    · exact h.names f hkept
    · exact hnew ▸ hname
  control := by rw [valuesOf_set_other res hother, h.control]

theorem Response.Handled.setControl (h : res.Handled control) (value : Text) :
    (res.set (bytes "Cache-Control") value).Handled (some value) where
  names f hf := by
    rcases mem_fields_set hf with hkept | hnew
    · exact h.names f hkept
    · rw [hnew]
      decide
  control := valuesOf_set res _ value

theorem Response.Handled.body (h : res.Handled control) (body : Text) :
    Response.Handled control { res with body := body } :=
  ⟨h.names, h.control⟩

theorem handled_new (st : Status) : (Response.mk st [] []).Handled none := by
  constructor
  · intro f hf
    exact absurd hf List.not_mem_nil
  · rfl

theorem handled_make (st : Status) (body contentType : Text) :
    (makeResponse st body contentType).Handled none :=
  ((handled_new st).set (by decide) (by decide) contentType).body body

theorem handled_text (st : Status) (body : Text) : (textResponse st body).Handled none :=
  handled_make st body _

theorem handled_found (target : Text) : (foundResponse target).Handled (some noStore) :=
  (((handled_new .found).set (by decide) (by decide) target).setControl noStore).set (by decide)
    (by decide) (bytes "no-referrer")

/-- A file may be kept, if one asks before using it. -/
theorem handled_file (amb : Ambient) (req : HttpRequest) (root rel : Text) :
    ((handleFile amb req root rel).status.servesFile ∧
        (handleFile amb req root rel).Handled (some noCache)) ∨
      (¬ (handleFile amb req root rel).status.servesFile ∧
        (handleFile amb req root rel).Handled none) := by
  have hforbidden : ¬ (textResponse .forbidden (bytes "forbidden")).status.servesFile ∧
      (textResponse .forbidden (bytes "forbidden")).Handled none :=
    ⟨by simp [Status.servesFile], handled_text _ _⟩
  unfold handleFile
  simp only
  split
  · exact Or.inr hforbidden
  split
  · exact Or.inr hforbidden
  split
  · exact Or.inr hforbidden
  split
  · exact Or.inl ⟨Or.inr rfl,
      ((handled_new .notModified).set (by decide) (by decide) _).setControl noCache⟩
  split
  · exact Or.inr ⟨by simp [Status.servesFile], handled_text _ _⟩
  split
  · exact Or.inl ⟨Or.inl rfl,
      ((handled_make .ok _ _).setControl noCache).set (by decide) (by decide) _⟩
  · exact Or.inl ⟨Or.inl rfl, (handled_make .ok _ _).setControl noCache⟩

/-! ## What `dispatch` adds -/

/-- The text that `apply_identity` puts into the field. -/
def cookieField (cfg : Config) (name value : Text) (maxAge : Int) : Text :=
  name ++ bytes "=" ++ value ++ bytes "; Path=" ++
    (if cfg.basePath.isEmpty then bytes "/" else cfg.basePath) ++ bytes "; Max-Age=" ++
    toText maxAge ++ bytes "; HttpOnly; SameSite=Lax" ++
    (if cfg.cookieSecure then bytes "; Secure" else [])

def identityFields (cfg : Config) (id : Identity) : List Text :=
  (if id.setAnon then [cookieField cfg (bytes "aid") id.anonId cfg.anonCookieTtl] else []) ++
    [cookieField cfg (bytes "sid") id.sessionId cfg.sessionIdleTtl]

theorem valuesOf_setCookie_self (name value : Text) (maxAge : Int) (res : Response) :
    (setCookie cfg name value maxAge res).valuesOf (bytes "Set-Cookie") =
      res.valuesOf (bytes "Set-Cookie") ++ [cookieField cfg name value maxAge] :=
  Response.valuesOf_insert res _ _

theorem valuesOf_applyIdentity (cfg : Config) (id : Identity)
    (hplain : res.valuesOf (bytes "Set-Cookie") = []) :
    (applyIdentity cfg id res).valuesOf (bytes "Set-Cookie") = identityFields cfg id := by
  unfold applyIdentity identityFields
  simp only [valuesOf_setCookie_self]
  cases id.setAnon with
  | true => simp [valuesOf_setCookie_self, hplain]
  | false => simp [hplain]

theorem valuesOf_applyIdentity_other (cfg : Config) (id : Identity) (res : Response) {name : Text}
    (hname : bytes "Set-Cookie" ≠ name) :
    (applyIdentity cfg id res).valuesOf name = res.valuesOf name := by
  unfold applyIdentity
  split
  · rw [valuesOf_setCookie hname, valuesOf_setCookie hname]
  · rw [valuesOf_setCookie hname]

/-- The fields that `dispatch` answers for: the cookies of the identity and no other, one
`Server`, one `Cache-Control`. -/
structure Response.Finished (cfg : Config) (id : Identity) (control : Text) (res : Response) :
    Prop where
  cookies : res.valuesOf (bytes "Set-Cookie") = identityFields cfg id
  server : res.valuesOf (bytes "Server") = [bytes "ssize"]
  control : res.valuesOf (bytes "Cache-Control") = [control]

theorem Response.Handled.absent (h : res.Handled control) {name : Text}
    (hname : name ∉ handlerFields) : res.valuesOf name = [] :=
  valuesOf_eq_nil_iff.2 fun f hf heq => hname (heq ▸ h.names f hf)

theorem Response.any_fields_iff {name : Text} :
    (res.fields.any fun f => f.1 == name) = true ↔ res.valuesOf name ≠ [] := by
  simp [valuesOf_eq_nil_iff]

theorem Response.Handled.finish (h : res.Handled control) (id : Identity) :
    (finish cfg id res).Finished cfg id (control.getD noStore) := by
  have hcookies := valuesOf_applyIdentity cfg id (h.absent (by decide))
  have hcontrol := valuesOf_applyIdentity_other cfg id res
    (by decide : bytes "Set-Cookie" ≠ bytes "Cache-Control")
  rw [h.control] at hcontrol
  let served := (applyIdentity cfg id res).set (bytes "Server") (bytes "ssize")
  have hserved : served.valuesOf (bytes "Cache-Control") = control.toList := by
    rw [valuesOf_set_other _ (by decide), hcontrol]
  unfold SSize.finish
  simp only
  cases control with
  | none =>
      have hany : ¬ (served.fields.any fun f => f.1 == bytes "Cache-Control") = true := by
        rw [any_fields_iff, hserved]
        simp
      rw [if_neg hany]
      constructor
      · rw [valuesOf_set_other _ (by decide), valuesOf_set_other _ (by decide), hcookies]
      · rw [valuesOf_set_other _ (by decide), valuesOf_set]
      · rw [valuesOf_set]
        rfl
  | some value =>
      have hany : (served.fields.any fun f => f.1 == bytes "Cache-Control") = true := by
        rw [any_fields_iff, hserved]
        simp
      rw [if_pos hany]
      constructor
      · rw [valuesOf_set_other _ (by decide), hcookies]
      · rw [valuesOf_set]
      · exact hserved

/-! ## Every reply -/

/-- The request is for `/static/` or `/media/`. -/
def asksFile (cfg : Config) (req : HttpRequest) : Prop :=
  req.method = .get ∧
    ((bytes "/static/").isPrefixOf (pathOf cfg req) = true ∨
      (bytes "/media/").isPrefixOf (pathOf cfg req) = true)

instance (cfg : Config) (req : HttpRequest) : Decidable (asksFile cfg req) :=
  inferInstanceAs (Decidable (_ ∧ _))

instance (st : Status) : Decidable st.servesFile :=
  inferInstanceAs (Decidable (_ ∨ _))

/-- A file that was served may be kept, if one asks before using it. -/
def controlOf (cfg : Config) (req : HttpRequest) (st : Status) : Text :=
  if asksFile cfg req ∧ st.servesFile then noCache else noStore

/-- The root of the request and the path under it. -/
def fileOf (cfg : Config) (req : HttpRequest) : Text × Text :=
  if (bytes "/static/").isPrefixOf (pathOf cfg req) then
    (cfg.staticDir, (pathOf cfg req).drop 8)
  else (cfg.mediaRoot, (pathOf cfg req).drop 7)

theorem prefix_of_same {a b p : Text} (ha : a.isPrefixOf p = true) (hb : b.isPrefixOf p = true) :
    a <+: b ∨ b <+: a :=
  List.prefix_or_prefix_of_prefix (List.isPrefixOf_iff_prefix.1 ha)
    (List.isPrefixOf_iff_prefix.1 hb)

variable (lib : Library) (amb : Ambient) {req : HttpRequest}

theorem not_feed_of_asksFile (h : asksFile cfg req) :
    ¬ (req.method = .get ∧ pathOf cfg req = bytes "/") := by
  rintro ⟨-, hroot⟩
  rcases h.2 with hstatic | hmedia
  · rw [hroot] at hstatic
    exact absurd hstatic (by decide)
  · rw [hroot] at hmedia
    exact absurd hmedia (by decide)

theorem routed_file (catalog : Catalog) (clientIp : Text) (h : asksFile cfg req) :
    routed lib cfg amb catalog req clientIp =
      .answer (handleFile amb req (fileOf cfg req).1 (fileOf cfg req).2) := by
  obtain ⟨hget, hpath⟩ := h
  have hitem : ¬ (bytes "/item/").isPrefixOf (pathOf cfg req) = true := by
    intro hitem
    rcases hpath with hstatic | hmedia
    · exact absurd (prefix_of_same hitem hstatic) (by decide)
    · exact absurd (prefix_of_same hitem hmedia) (by decide)
  have hredirect : ¬ (bytes "/r/").isPrefixOf (pathOf cfg req) = true := by
    intro hredirect
    rcases hpath with hstatic | hmedia
    · exact absurd (prefix_of_same hredirect hstatic) (by decide)
    · exact absurd (prefix_of_same hredirect hmedia) (by decide)
  unfold routed route fileOf
  rw [if_neg fun hboth => hitem hboth.2, if_neg fun hboth => hredirect hboth.2]
  by_cases hstatic : (bytes "/static/").isPrefixOf (pathOf cfg req) = true
  · rw [if_pos ⟨hget, hstatic⟩, if_pos hstatic]
  · rw [if_neg fun hboth => hstatic hboth.2, if_pos ⟨hget, hpath.resolve_left hstatic⟩,
      if_neg hstatic]

/-- The response to a request for a file. -/
theorem response_file (ptr : CatalogPtr) (cache : FeedCache) (clientIp : Text)
    (h : asksFile cfg req) :
    (dispatch lib cfg amb ptr cache req clientIp).response =
      finish cfg (identify amb req) (handleFile amb req (fileOf cfg req).1 (fileOf cfg req).2) := by
  rw [dispatch_response lib cfg amb ptr cache req clientIp (not_feed_of_asksFile h),
    routed_file lib amb ptr.catalog clientIp h]
  rfl

/-- What a handler other than `handle_file` answers is not to be kept. -/
def Outcome.Fleeting (out : Outcome) : Prop :=
  ∀ res, out.result = some res → res.Handled none ∨ res.Handled (some noStore)

theorem fleeting_answer (h : res.Handled none) : (Outcome.answer res).Fleeting := by
  intro res' hres
  exact Or.inl (Option.some.inj hres ▸ h)

theorem fleeting_page {out : Outcome} (html : Option Text)
    (h : out.result = html.map htmlPage) : out.Fleeting := by
  intro res hres
  rw [h] at hres
  obtain ⟨text, -, rfl⟩ := Option.map_eq_some_iff.1 hres
  exact Or.inl (handled_make .ok text _)

theorem handleFeed_fleeting (ptr : CatalogPtr) (cache : FeedCache) (q : Query) :
    (handleFeed cfg amb ptr cache q).2.Fleeting := by
  unfold handleFeed
  simp only
  split
  · exact fleeting_page (some _) rfl
  split
  · exact fleeting_page none rfl
  split
  · exact fleeting_page (some _) rfl
  · exact fleeting_page (some _) rfl

theorem handlePostback_handled (kopeksOf : Text → Option Kopek) (now : TsMs) (q : Query) :
    (handlePostback kopeksOf cfg now q).1.Handled none := by
  unfold handlePostback
  split
  · next res hread =>
      obtain ⟨st, message, -, rfl⟩ := readPostback_error_text kopeksOf cfg hread
      exact handled_text st message
  · exact handled_text .ok _

theorem routed_fleeting (catalog : Catalog) (clientIp : Text) (h : ¬ asksFile cfg req) :
    (routed lib cfg amb catalog req clientIp).Fleeting := by
  unfold routed route
  split
  · split
    · unfold handleItem
      split
      · exact fleeting_answer (handled_text .notFound _)
      · exact fleeting_page _ rfl
    · exact fleeting_answer (handled_text .badRequest _)
  split
  · split
    · unfold handleRedirect
      split
      · exact fleeting_answer (handled_text .notFound _)
      · intro res hres
        exact Or.inr (Option.some.inj hres ▸ handled_found _)
    · exact fleeting_answer (handled_text .badRequest _)
  split
  · next hstatic => exact absurd ⟨hstatic.1, Or.inl hstatic.2⟩ h
  split
  · next hmedia => exact absurd ⟨hmedia.1, Or.inr hmedia.2⟩ h
  split
  · unfold handleBeacon
    split
    · exact fleeting_answer (handled_text .badRequest _)
    · exact fleeting_answer (handled_text .noContent _)
    · exact fleeting_answer (handled_text .badRequest _)
  split
  · exact fleeting_answer (handlePostback_handled lib.kopeksOf _ _)
  split
  · exact fleeting_answer (handled_text .ok _)
  · exact fleeting_answer (handled_text .notFound _)

theorem Outcome.Fleeting.finish {out : Outcome} (h : out.Fleeting) (id : Identity) :
    (finish cfg id (out.result.getD
      (textResponse .internalServerError (bytes "internal error")))).Finished cfg id noStore := by
  cases hresult : out.result with
  | none => exact (handled_text .internalServerError _).finish id
  | some res =>
      rcases h res hresult with hplain | hstore
      · exact hplain.finish id
      · exact hstore.finish id

/-- Whatever is asked for and however it is answered, the reply sets the cookies of its
identity and no other, names the server once, and forbids to be kept unless it is a file. -/
theorem dispatch_finished (ptr : CatalogPtr) (cache : FeedCache) (clientIp : Text) :
    let res := (dispatch lib cfg amb ptr cache req clientIp).response
    res.Finished cfg (identify amb req) (controlOf cfg req res.status) := by
  intro res
  by_cases hasks : asksFile cfg req
  · have hfile : res = _ := response_file lib amb ptr cache clientIp hasks
    rw [controlOf, hfile, finish_status]
    rcases handled_file amb req (fileOf cfg req).1 (fileOf cfg req).2 with
      ⟨hserves, hhandled⟩ | ⟨hserves, hhandled⟩
    · rw [if_pos ⟨hasks, hserves⟩]
      exact hhandled.finish _
    · rw [if_neg fun hboth => hserves hboth.2]
      exact hhandled.finish _
  · rw [controlOf, if_neg fun hboth => hasks hboth.1]
    by_cases hfeed : req.method = .get ∧ pathOf cfg req = bytes "/"
    · have hresponse : res = finish cfg (identify amb req)
          ((handleFeed cfg amb ptr cache (parseQuery (splitTarget req.target).2)).2.result.getD
            (textResponse .internalServerError (bytes "internal error"))) := by
        have hroute : req.method = .get ∧ routePath cfg (splitTarget req.target).1 = bytes "/" :=
          hfeed
        simp only [res, dispatch, if_pos hroute]
      rw [hresponse]
      exact (handleFeed_fleeting amb ptr cache _).finish _
    · have hresponse : res = _ := dispatch_response lib cfg amb ptr cache req clientIp hfeed
      rw [hresponse]
      exact (routed_fleeting lib amb ptr.catalog clientIp hasks).finish _

end SSize
