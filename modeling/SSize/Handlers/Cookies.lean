import SSize.Handlers.Effects
import SSize.Handlers.QueryString

/-!
# Cookies there and back

What `cookie_value` makes of a header of pairs joined by `; `, and which cookies a
response sets. The handlers set none: the two of `apply_identity` are all there are.
-/

namespace SSize

open Lib

/-! ## The `Cookie` header -/

abbrev semicolon : UInt8 := ';'.toUInt8

abbrev equals : UInt8 := '='.toUInt8

/-- The value that `cookie_value` reads off one pair, spaces in front skipped. -/
def pairValue (name pair : Text) : Option Text :=
  match (pair.dropWhile (· == ' '.toUInt8)).dropWhile (· != equals) with
  | [] => none
  | _ :: value =>
      if (pair.dropWhile (· == ' '.toUInt8)).takeWhile (· != equals) = name then some value
      else none

theorem cookieValue_eq (header name : Text) :
    cookieValue header name = ((header.splitOn semicolon).filterMap (pairValue name)).headD [] := by
  simp only [cookieValue, List.filterMap_map]
  rfl

theorem pairValue_space (name pair : Text) :
    pairValue name (' '.toUInt8 :: pair) = pairValue name pair := by
  have hspace : (' '.toUInt8 :: pair).dropWhile (· == ' '.toUInt8) =
      pair.dropWhile (· == ' '.toUInt8) := List.dropWhile_cons_of_pos (by simp)
  rw [pairValue, hspace]
  rfl

/-- The pairs joined as a browser joins them. -/
def cookieHeader (pairs : List Text) : Text := (bytes "; ").intercalate pairs

theorem cookieHeader_eq (pair : Text) (pairs : List Text) :
    cookieHeader (pair :: pairs) =
      [semicolon].intercalate (pair :: pairs.map (' '.toUInt8 :: ·)) := by
  induction pairs generalizing pair with
  | nil => simp [cookieHeader]
  | cons next pairs ih =>
      have hsep : bytes "; " = [semicolon, ' '.toUInt8] := by decide
      have hnext := ih next
      unfold cookieHeader at hnext ⊢
      cases pairs with
      | nil => simp [hsep]
      | cons other pairs =>
          rw [List.intercalate_cons_cons, hnext]
          simp [hsep]

/-- `cookie_value` finds the first of the pairs that has the name. -/
theorem cookieValue_cookieHeader {pairs : List Text} (h : ∀ pair ∈ pairs, semicolon ∉ pair)
    (name : Text) :
    cookieValue (cookieHeader pairs) name = (pairs.filterMap (pairValue name)).headD [] := by
  cases pairs with
  | nil => rfl
  | cons pair pairs =>
      have hclean : ∀ text ∈ pair :: pairs.map (' '.toUInt8 :: ·), semicolon ∉ text := by
        intro text htext
        rcases List.mem_cons.1 htext with hfirst | hlater
        · exact hfirst ▸ h pair List.mem_cons_self
        · obtain ⟨other, hother, hspaced⟩ := List.mem_map.1 hlater
          rw [← hspaced, List.mem_cons]
          exact not_or.2 ⟨by decide, h other (List.mem_cons_of_mem _ hother)⟩
      have hspaces : (pairs.map (' '.toUInt8 :: ·)).filterMap (pairValue name) =
          pairs.filterMap (pairValue name) := by
        rw [List.filterMap_map]
        apply List.filterMap_congr
        intro other _
        exact pairValue_space name other
      rw [cookieValue_eq, cookieHeader_eq, List.splitOn_intercalate semicolon hclean (by simp),
        List.filterMap_cons, List.filterMap_cons, hspaces]

/-- A pair with a name that does not begin with a space. -/
theorem pairValue_pair {name : Text} (hname : equals ∉ name)
    (hspace : name.head? ≠ some ' '.toUInt8) (wanted value : Text) :
    pairValue wanted (name ++ equals :: value) = if name = wanted then some value else none := by
  have hfirst : (name ++ equals :: value).dropWhile (· == ' '.toUInt8) =
      name ++ equals :: value := by
    cases name with
    | nil => exact List.dropWhile_cons_of_neg (by decide)
    | cons c name => exact List.dropWhile_cons_of_neg (by simpa using hspace)
  rw [pairValue, hfirst]
  simp only [takeWhile_bne_append hname, dropWhile_bne_append hname]

theorem pairValue_bare {pair : Text} (h : equals ∉ pair) (wanted : Text) :
    pairValue wanted pair = none := by
  have hrest : equals ∉ pair.dropWhile (· == ' '.toUInt8) :=
    fun hmem => h ((List.dropWhile_suffix _).subset hmem)
  rw [pairValue, dropWhile_bne_self hrest]

/-! ## `Set-Cookie` -/

/-- Name and value of a `Set-Cookie` field, as a browser reads them. -/
def readSetCookie (field : Text) : Text × Text :=
  let pair := field.takeWhile (· != semicolon)
  (pair.takeWhile (· != equals), (pair.dropWhile (· != equals)).drop 1)

/-- The cookies that a response sets, in their order. -/
def sentCookies (res : Response) : List (Text × Text) :=
  (res.fields.filter fun f => f.1 == bytes "Set-Cookie").map fun f => readSetCookie f.2

theorem sentCookies_set (res : Response) {name : Text} (h : name ≠ bytes "Set-Cookie")
    (value : Text) : sentCookies (res.set name value) = sentCookies res := by
  rw [sentCookies, res.filter_set h, sentCookies]

theorem sentCookies_insert (res : Response) (field : Text) :
    sentCookies (res.insert (bytes "Set-Cookie") field) =
      sentCookies res ++ [readSetCookie field] := by
  simp [sentCookies, Response.insert]

/-- The attributes come behind a semicolon, so they are no part of the value. -/
theorem sentCookies_setCookie (cfg : Config) {name value : Text} (hname : semicolon ∉ name)
    (hequals : equals ∉ name) (hvalue : semicolon ∉ value) (maxAge : Int) (res : Response) :
    sentCookies (setCookie cfg name value maxAge res) = sentCookies res ++ [(name, value)] := by
  have hpair : semicolon ∉ name ++ equals :: value := by
    rw [List.mem_append, List.mem_cons]
    exact not_or.2 ⟨hname, not_or.2 ⟨by decide, hvalue⟩⟩
  have hequalsSign : bytes "=" = [equals] := by decide
  have hpath : bytes "; Path=" = semicolon :: bytes " Path=" := by decide
  have hfield : ∃ attributes, setCookie cfg name value maxAge res =
      res.insert (bytes "Set-Cookie")
        ((name ++ equals :: value) ++ semicolon :: attributes) := by
    refine ⟨bytes " Path=" ++ ((if cfg.basePath.isEmpty then bytes "/" else cfg.basePath) ++
      (bytes "; Max-Age=" ++ (toText maxAge ++ (bytes "; HttpOnly; SameSite=Lax" ++
        (if cfg.cookieSecure then bytes "; Secure" else []))))), ?_⟩
    simp only [setCookie, hequalsSign, hpath, List.append_assoc, List.cons_append,
      List.nil_append]
  obtain ⟨attributes, hset⟩ := hfield
  have hread : readSetCookie ((name ++ equals :: value) ++ semicolon :: attributes) =
      (name, value) := by
    simp only [readSetCookie, takeWhile_bne_append hpair, takeWhile_bne_append hequals,
      dropWhile_bne_append hequals, List.drop_succ_cons, List.drop_zero]
  rw [hset, sentCookies_insert, hread]

/-! ## Which cookies a reply sets -/

/-- No handler sets a cookie. -/
def Response.Plain (res : Response) : Prop := sentCookies res = []

theorem Response.Plain.set {res : Response} (h : res.Plain) {name : Text}
    (hname : name ≠ bytes "Set-Cookie") (value : Text) : (res.set name value).Plain := by
  rw [Response.Plain, sentCookies_set res hname, h]

theorem plain_new (st : Status) : (Response.mk st [] []).Plain := rfl

theorem makeResponse_plain (st : Status) (body contentType : Text) :
    (makeResponse st body contentType).Plain :=
  (plain_new st).set (by decide) contentType

theorem textResponse_plain (st : Status) (body : Text) : (textResponse st body).Plain :=
  makeResponse_plain st body _

theorem foundResponse_plain (target : Text) : (foundResponse target).Plain :=
  (((plain_new .found).set (by decide) _).set (by decide) _).set (by decide) _

theorem handleFile_plain (amb : Ambient) (req : HttpRequest) (root rel : Text) :
    (handleFile amb req root rel).Plain := by
  have hforbidden := textResponse_plain .forbidden (bytes "forbidden")
  unfold handleFile
  simp only
  split
  · exact hforbidden
  split
  · exact hforbidden
  split
  · exact hforbidden
  split
  · exact ((plain_new .notModified).set (by decide) _).set (by decide) _
  split
  · exact textResponse_plain .notFound _
  split
  · exact ((makeResponse_plain .ok _ _).set (by decide) _).set (by decide) _
  · exact (makeResponse_plain .ok _ _).set (by decide) _

theorem handlePostback_plain (kopeksOf : Text → Option Kopek) (cfg : Config) (now : TsMs)
    (q : Query) : (handlePostback kopeksOf cfg now q).1.Plain := by
  unfold handlePostback
  split
  · next res hread =>
      obtain ⟨st, message, -, rfl⟩ := readPostback_error_text kopeksOf cfg hread
      exact textResponse_plain st message
  · exact textResponse_plain .ok _

section Reply

variable (lib : Library) (cfg : Config) (amb : Ambient)

/-- What goes out for an outcome, before the cookies. -/
def Outcome.Plain (out : Outcome) : Prop := ∀ res, out.result = some res → res.Plain

theorem plain_answer {res : Response} (h : res.Plain) : (Outcome.answer res).Plain := by
  intro res' hres
  exact Option.some.inj hres ▸ h

theorem handleFeed_plain (ptr : CatalogPtr) (cache : FeedCache) (q : Query) :
    (handleFeed cfg amb ptr cache q).2.Plain := by
  have hpage : ∀ html, (htmlPage html).Plain := fun html => makeResponse_plain .ok html _
  unfold handleFeed
  simp only
  split
  · exact plain_answer (hpage _)
  split
  · intro res hres
    simp at hres
  split
  · exact plain_answer (hpage _)
  · exact plain_answer (hpage _)

theorem handleItem_plain (catalog : Catalog) (visit : Visit) (itemId : Int) (q : Query) :
    (handleItem lib cfg amb catalog visit itemId q).Plain := by
  unfold handleItem
  split
  · exact plain_answer (textResponse_plain .notFound _)
  · intro res hres
    obtain ⟨html, -, rfl⟩ := Option.map_eq_some_iff.1 hres
    exact makeResponse_plain .ok html _

theorem handleRedirect_plain (catalog : Catalog) (visit : Visit) (itemId : Int) (q : Query) :
    (handleRedirect lib cfg amb catalog visit itemId q).Plain := by
  unfold handleRedirect
  split
  · exact plain_answer (textResponse_plain .notFound _)
  · intro res hres
    exact Option.some.inj hres ▸ foundResponse_plain _

theorem handleBeacon_plain (visit : Visit) (body : Text) :
    (handleBeacon lib cfg amb visit body).Plain := by
  unfold handleBeacon
  split
  · exact plain_answer (textResponse_plain .badRequest _)
  · exact plain_answer (textResponse_plain .noContent _)
  · exact plain_answer (textResponse_plain .badRequest _)

theorem route_plain (catalog : Catalog) (visit : Visit) (req : HttpRequest) (p : Text)
    (q : Query) : (route lib cfg amb catalog visit req p q).Plain := by
  unfold route
  split
  · split
    · exact handleItem_plain lib cfg amb catalog visit _ q
    · exact plain_answer (textResponse_plain .badRequest _)
  split
  · split
    · exact handleRedirect_plain lib cfg amb catalog visit _ q
    · exact plain_answer (textResponse_plain .badRequest _)
  split
  · exact plain_answer (handleFile_plain amb req _ _)
  split
  · exact plain_answer (handleFile_plain amb req _ _)
  split
  · exact handleBeacon_plain lib cfg amb visit req.body
  split
  · exact plain_answer (handlePostback_plain lib.kopeksOf cfg _ q)
  split
  · exact plain_answer (textResponse_plain .ok _)
  · exact plain_answer (textResponse_plain .notFound _)

theorem semicolon_not_mem_randomId (raw : Vector UInt8 16) : semicolon ∉ randomId raw := by
  have hhex : ∀ b : UInt8, semicolon ∉ [hexLower (b >>> 4), hexLower (b &&& 0x0F)] := by
    decide +kernel
  rw [randomId, List.mem_flatMap]
  rintro ⟨b, -, hb⟩
  exact hhex b hb

theorem randomId_ne_nil (raw : Vector UInt8 16) : randomId raw ≠ [] := by
  intro hnil
  have hlength := congrArg List.length hnil
  simp [randomId, List.length_flatMap] at hlength

/-- The cookies of an identity: `aid` when it is new, `sid` every time. -/
def identityCookies (id : Identity) : List (Text × Text) :=
  (if id.setAnon then [(bytes "aid", id.anonId)] else []) ++ [(bytes "sid", id.sessionId)]

theorem sentCookies_finish {id : Identity} (hanon : semicolon ∉ id.anonId)
    (hsession : semicolon ∉ id.sessionId) {res : Response} (h : res.Plain) :
    sentCookies (finish cfg id res) = identityCookies id := by
  have hsid : ∀ res, sentCookies (setCookie cfg (bytes "sid") id.sessionId cfg.sessionIdleTtl res) =
      sentCookies res ++ [(bytes "sid", id.sessionId)] :=
    sentCookies_setCookie cfg (by decide) (by decide) hsession cfg.sessionIdleTtl
  have haid : ∀ res, sentCookies (setCookie cfg (bytes "aid") id.anonId cfg.anonCookieTtl res) =
      sentCookies res ++ [(bytes "aid", id.anonId)] :=
    sentCookies_setCookie cfg (by decide) (by decide) hanon cfg.anonCookieTtl
  have happlied : sentCookies (applyIdentity cfg id res) = identityCookies id := by
    unfold applyIdentity identityCookies
    cases id.setAnon with
    | true =>
        simp only [if_true, hsid, haid]
        rw [h]
        rfl
    | false =>
        simp only [Bool.false_eq_true, if_false, hsid]
        rw [h]
  unfold finish
  simp only
  split
  · rw [sentCookies_set _ (by decide), happlied]
  · rw [sentCookies_set _ (by decide), sentCookies_set _ (by decide), happlied]

/-- Whatever is asked for, the reply sets the cookies of the identity and no other. -/
theorem sentCookies_dispatch (ptr : CatalogPtr) (cache : FeedCache) (req : HttpRequest)
    (clientIp : Text) (hanon : semicolon ∉ (identify amb req).anonId)
    (hsession : semicolon ∉ (identify amb req).sessionId) :
    sentCookies (dispatch lib cfg amb ptr cache req clientIp).response =
      identityCookies (identify amb req) := by
  have hout : ∀ out : Outcome, out.Plain →
      sentCookies (finish cfg (identify amb req) (out.result.getD
        (textResponse .internalServerError (bytes "internal error")))) =
        identityCookies (identify amb req) := by
    intro out hplain
    apply sentCookies_finish cfg hanon hsession
    cases hresult : out.result with
    | none => exact textResponse_plain .internalServerError _
    | some res => exact hplain res hresult
  unfold dispatch
  by_cases hfeed : req.method = .get ∧ routePath cfg (splitTarget req.target).1 = bytes "/"
  · simp only [hfeed, and_self, if_true]
    exact hout _ (handleFeed_plain cfg amb ptr cache _)
  · simp only [hfeed, if_false]
    exact hout _ (route_plain lib cfg amb ptr.catalog _ req _ _)

end Reply

end SSize
