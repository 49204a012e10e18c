import SSize.Handlers.Cookies

/-!
# One browser, one identity

A client keeps the `aid` and `sid` that responses set and returns them among other
cookies. From its second request on both are found in the header, so nothing is
minted again and every event carries the two of the first response.
-/

namespace SSize

/-! ## A client -/

/-- What a client has stored of ours. -/
structure Jar where
  aid : Option Text := none
  sid : Option Text := none
deriving DecidableEq

namespace Jar

def keep (jar : Jar) (cookie : Text × Text) : Jar :=
  if cookie.1 = bytes "aid" then { jar with aid := some cookie.2 }
  else if cookie.1 = bytes "sid" then { jar with sid := some cookie.2 }
  else jar

def store (jar : Jar) (res : Response) : Jar := (sentCookies res).foldl keep jar

/-- The pairs that are returned. -/
def pairs (jar : Jar) : List Text :=
  (jar.aid.map (bytes "aid=" ++ ·)).toList ++ (jar.sid.map (bytes "sid=" ++ ·)).toList

end Jar

/-- A pair of the header that is none of ours, with or without `=`. -/
inductive ForeignPair : Text → Prop
  | named {name value : Text} (hname : name ≠ bytes "aid" ∧ name ≠ bytes "sid")
      (hplain : equals ∉ name ∧ semicolon ∉ name) (hspace : name.head? ≠ some ' '.toUInt8)
      (hvalue : semicolon ∉ value) : ForeignPair (name ++ equals :: value)
  | bare {text : Text} (hplain : equals ∉ text ∧ semicolon ∉ text) : ForeignPair text

/-- The client returns what it has stored, in any order and among foreign pairs. -/
def Jar.Sends (jar : Jar) (header : Text) : Prop :=
  ∃ foreign pairs, (∀ pair ∈ foreign, ForeignPair pair) ∧ pairs.Perm (jar.pairs ++ foreign) ∧
    header = cookieHeader pairs

/-- A request, and what it meets when it is dispatched. -/
structure Contact where
  amb : Ambient
  ptr : CatalogPtr
  cache : FeedCache
  req : HttpRequest
  clientIp : Text

variable (lib : Library) (cfg : Config)

def Contact.reply (x : Contact) : Reply :=
  dispatch lib cfg x.amb x.ptr x.cache x.req x.clientIp

/-- The requests of one client, each with the cookies that it has by then. -/
inductive Browses : Jar → List Contact → Prop
  | done (jar : Jar) : Browses jar []
  | request {jar : Jar} {x : Contact} {rest : List Contact} (hcookie : jar.Sends x.req.cookie)
      (hrest : Browses (jar.store (x.reply lib cfg).response) rest) : Browses jar (x :: rest)

/-! ## What the server reads off the header -/

theorem ForeignPair.semicolon {pair : Text} (h : ForeignPair pair) : semicolon ∉ pair := by
  cases h with
  | named hname hplain hspace hvalue =>
      rw [List.mem_append, List.mem_cons]
      exact not_or.2 ⟨hplain.2, not_or.2 ⟨by decide, hvalue⟩⟩
  | bare hplain => exact hplain.2

theorem ForeignPair.pairValue {pair wanted : Text} (h : ForeignPair pair)
    (hwanted : wanted = bytes "aid" ∨ wanted = bytes "sid") : pairValue wanted pair = none := by
  cases h with
  | named hname hplain hspace hvalue =>
      rw [pairValue_pair hplain.1 hspace, if_neg]
      rcases hwanted with hwanted | hwanted
      · exact hwanted ▸ hname.1
      · exact hwanted ▸ hname.2
  | bare hplain => exact pairValue_bare hplain.1 wanted

/-- The stored values have no semicolon in them. -/
structure Jar.Clean (jar : Jar) : Prop where
  aid : ∀ value ∈ jar.aid, semicolon ∉ value
  sid : ∀ value ∈ jar.sid, semicolon ∉ value

theorem pairValue_aid (wanted value : Text) :
    pairValue wanted (bytes "aid=" ++ value) =
      if bytes "aid" = wanted then some value else none := by
  have hsplit : bytes "aid=" = bytes "aid" ++ [equals] := by decide
  rw [hsplit, List.append_assoc]
  exact pairValue_pair (by decide) (by decide) wanted value

theorem pairValue_sid (wanted value : Text) :
    pairValue wanted (bytes "sid=" ++ value) =
      if bytes "sid" = wanted then some value else none := by
  have hsplit : bytes "sid=" = bytes "sid" ++ [equals] := by decide
  rw [hsplit, List.append_assoc]
  exact pairValue_pair (by decide) (by decide) wanted value

theorem Jar.Clean.semicolon {jar : Jar} (h : jar.Clean) : ∀ pair ∈ jar.pairs, semicolon ∉ pair := by
  intro pair hpair
  rcases List.mem_append.1 hpair with haid | hsid
  · obtain ⟨value, hvalue, rfl⟩ := Option.map_eq_some_iff.1 (Option.mem_toList.1 haid)
    rw [List.mem_append]
    exact not_or.2 ⟨by decide, h.aid value hvalue⟩
  · obtain ⟨value, hvalue, rfl⟩ := Option.map_eq_some_iff.1 (Option.mem_toList.1 hsid)
    rw [List.mem_append]
    exact not_or.2 ⟨by decide, h.sid value hvalue⟩

/-- Foreign pairs are passed over, wherever they are. -/
theorem cookieValue_among {wanted : Text} (hwanted : wanted = bytes "aid" ∨ wanted = bytes "sid")
    {own foreign pairs : List Text} (hclean : ∀ pair ∈ own, semicolon ∉ pair)
    (hforeign : ∀ pair ∈ foreign, ForeignPair pair) (hperm : pairs.Perm (own ++ foreign))
    {value : Option Text} (hown : own.filterMap (pairValue wanted) = value.toList) :
    cookieValue (cookieHeader pairs) wanted = value.getD [] := by
  have hsemicolon : ∀ pair ∈ pairs, semicolon ∉ pair := by
    intro pair hpair
    rcases List.mem_append.1 (hperm.mem_iff.1 hpair) with hours | hother
    · exact hclean pair hours
    · exact (hforeign pair hother).semicolon
  have hothers : foreign.filterMap (pairValue wanted) = [] := by
    rw [List.filterMap_eq_nil_iff]
    exact fun pair hpair => (hforeign pair hpair).pairValue hwanted
  have hvalues := hperm.filterMap (pairValue wanted)
  rw [List.filterMap_append, hown, hothers, List.append_nil] at hvalues
  rw [cookieValue_cookieHeader hsemicolon]
  cases value with
  | none => rw [List.perm_nil.1 hvalues]; rfl
  | some value => rw [List.perm_singleton.1 hvalues]; rfl

theorem cookieValue_of_sends {jar : Jar} (hclean : jar.Clean) {header : Text}
    (h : jar.Sends header) :
    cookieValue header (bytes "aid") = jar.aid.getD [] ∧
      cookieValue header (bytes "sid") = jar.sid.getD [] := by
  obtain ⟨foreign, pairs, hforeign, hperm, rfl⟩ := h
  have hdistinct : bytes "aid" ≠ bytes "sid" := by decide
  constructor
  · apply cookieValue_among (Or.inl rfl) hclean.semicolon hforeign hperm
    obtain ⟨aid, sid⟩ := jar
    cases aid <;> cases sid <;>
      simp [Jar.pairs, pairValue_aid, pairValue_sid, hdistinct.symm]
  · apply cookieValue_among (Or.inr rfl) hclean.semicolon hforeign hperm
    obtain ⟨aid, sid⟩ := jar
    cases aid <;> cases sid <;>
      simp [Jar.pairs, pairValue_aid, pairValue_sid, hdistinct]

/-! ## One request -/

variable {lib cfg}

theorem logged_identity {x : Contact} {ev : Event}
    (hev : ev ∈ eventsOf (x.reply lib cfg).effects) :
    ev.anonId = (identify x.amb x.req).anonId ∧
      ev.sessionId = (identify x.amb x.req).sessionId := by
  obtain ⟨k, ev₀, hlog⟩ := dispatch_logged lib cfg x.amb x.ptr x.cache x.req x.clientIp ev hev
  rw [logEvent, Effect.event.injEq] at hlog
  rw [hlog]
  exact ⟨rfl, rfl⟩

/-- A client without cookies is given both. -/
theorem identify_new {x : Contact} (h : Jar.Sends {} x.req.cookie) :
    identify x.amb x.req =
      { anonId := randomId x.amb.anonDraw
        sessionId := randomId x.amb.sessionDraw
        setAnon := true
        setSession := true } := by
  have hclean : Jar.Clean {} := ⟨by simp, by simp⟩
  obtain ⟨haid, hsid⟩ := cookieValue_of_sends hclean h
  simp [identify, haid, hsid]

/-- A client that returns both keeps both. -/
theorem identify_known {x : Contact} {aid sid : Text} (haid : semicolon ∉ aid ∧ aid ≠ [])
    (hsid : semicolon ∉ sid ∧ sid ≠ []) (h : Jar.Sends ⟨some aid, some sid⟩ x.req.cookie) :
    identify x.amb x.req = { anonId := aid, sessionId := sid } := by
  have hclean : Jar.Clean ⟨some aid, some sid⟩ := by
    constructor
    · intro value hvalue
      exact Option.some.inj hvalue ▸ haid.1
    · intro value hvalue
      exact Option.some.inj hvalue ▸ hsid.1
  obtain ⟨hfound, hfound'⟩ := cookieValue_of_sends hclean h
  simp [identify, hfound, hfound', haid.2, hsid.2]

theorem sentCookies_reply {x : Contact} {id : Identity} (h : identify x.amb x.req = id)
    (hanon : semicolon ∉ id.anonId) (hsession : semicolon ∉ id.sessionId) :
    sentCookies (x.reply lib cfg).response = identityCookies id := by
  subst h
  exact sentCookies_dispatch lib cfg x.amb x.ptr x.cache x.req x.clientIp hanon hsession

/-! ## A run -/

/-- The responses set `sid` again and nothing else, and the events carry both. -/
structure Keeps (lib : Library) (cfg : Config) (aid sid : Text) (x : Contact) : Prop where
  sent : sentCookies (x.reply lib cfg).response = [(bytes "sid", sid)]
  logged : ∀ ev ∈ eventsOf (x.reply lib cfg).effects, ev.anonId = aid ∧ ev.sessionId = sid

theorem Browses.keeps {aid sid : Text} (haid : semicolon ∉ aid ∧ aid ≠ [])
    (hsid : semicolon ∉ sid ∧ sid ≠ []) {run : List Contact}
    (h : Browses lib cfg ⟨some aid, some sid⟩ run) : ∀ x ∈ run, Keeps lib cfg aid sid x := by
  induction run with
  | nil => exact fun x hx => absurd hx List.not_mem_nil
  | cons x rest ih =>
      cases h with
      | request hcookie hrest =>
          have hid := identify_known haid hsid hcookie
          have hsent : sentCookies (x.reply lib cfg).response = [(bytes "sid", sid)] :=
            sentCookies_reply hid haid.1 hsid.1
          have hjar : Jar.store ⟨some aid, some sid⟩ (x.reply lib cfg).response =
              ⟨some aid, some sid⟩ := by
            rw [Jar.store, hsent]
            rfl
          intro y hy
          rcases List.mem_cons.1 hy with hfirst | hlater
          · subst hfirst
            refine ⟨hsent, fun ev hev => ?_⟩
            have hlogged := logged_identity hev
            rwa [hid] at hlogged
          · exact ih (hjar ▸ hrest) y hlater

/-- All events of a run carry what the first response minted, which is not set again. -/
structure OneIdentity (lib : Library) (cfg : Config) (first : Contact) (rest : List Contact)
    (aid sid : Text) : Prop where
  minted : sentCookies (first.reply lib cfg).response = [(bytes "aid", aid), (bytes "sid", sid)]
  logged : ∀ x ∈ first :: rest, ∀ ev ∈ eventsOf (x.reply lib cfg).effects,
    ev.anonId = aid ∧ ev.sessionId = sid
  kept : ∀ x ∈ rest, ∀ cookie ∈ sentCookies (x.reply lib cfg).response, cookie.1 ≠ bytes "aid"

/-- A client that returns its cookies has one identity, the one its first request
drew. -/
theorem oneIdentity_of_browses {first : Contact} {rest : List Contact}
    (h : Browses lib cfg {} (first :: rest)) :
    OneIdentity lib cfg first rest (randomId first.amb.anonDraw)
      (randomId first.amb.sessionDraw) := by
  have haid := semicolon_not_mem_randomId first.amb.anonDraw
  have hsid := semicolon_not_mem_randomId first.amb.sessionDraw
  cases h with
  | request hcookie hrest =>
      have hid := identify_new hcookie
      have hsent : sentCookies (first.reply lib cfg).response =
          [(bytes "aid", randomId first.amb.anonDraw),
            (bytes "sid", randomId first.amb.sessionDraw)] :=
        sentCookies_reply hid haid hsid
      have hjar : Jar.store {} (first.reply lib cfg).response =
          ⟨some (randomId first.amb.anonDraw), some (randomId first.amb.sessionDraw)⟩ := by
        rw [Jar.store, hsent]
        rfl
      have hkeeps := Browses.keeps ⟨haid, randomId_ne_nil _⟩ ⟨hsid, randomId_ne_nil _⟩
        (hjar ▸ hrest)
      refine ⟨hsent, ?_, ?_⟩
      · intro x hx ev hev
        rcases List.mem_cons.1 hx with hfirst | hlater
        · subst hfirst
          have hlogged := logged_identity hev
          rwa [hid] at hlogged
        · exact (hkeeps x hlater).logged ev hev
      · intro x hx cookie hcookie
        rw [(hkeeps x hx).sent, List.mem_singleton] at hcookie
        have hdistinct : bytes "sid" ≠ bytes "aid" := by decide
        rw [hcookie]
        exact hdistinct

/-! ## Two requests of one browser -/

def healthContact : Contact where
  amb := .bare 0
  ptr := {}
  cache := {}
  req := { target := bytes "/healthz", cookie := bytes "theme; said=1" }
  clientIp := []

/-- The browser returns its cookies between two of somebody else's. -/
def itemContact : Contact where
  amb := .bare 1
  ptr := { catalog := .ofRows [{ id := 7 }] [] }
  cache := {}
  req :=
    { target := bytes "/item/7?p=3"
      cookie := cookieHeader [bytes "said=1", bytes "sid=" ++ randomId (.replicate 16 0),
        bytes "aid=" ++ randomId (.replicate 16 0), bytes "theme"] }
  clientIp := []

theorem said_foreign : ∀ pair ∈ [bytes "said=1", bytes "theme"], ForeignPair pair := by
  intro pair hpair
  rcases List.mem_pair.1 hpair with hsaid | htheme
  · have hsplit : bytes "said=1" = bytes "said" ++ equals :: bytes "1" := by decide
    rw [hsaid, hsplit]
    exact .named (by decide) (by decide) (by decide) (by decide)
  · rw [htheme]
    exact .bare (by decide)

theorem oneIdentity_two_requests :
    Browses .bare {} {} [healthContact, itemContact] ∧
      OneIdentity .bare {} healthContact [itemContact] (randomId (.replicate 16 0))
        (randomId (.replicate 16 0)) := by
  have hjar : Jar.store {} (healthContact.reply .bare {}).response =
      ⟨some (randomId (.replicate 16 0)), some (randomId (.replicate 16 0))⟩ := by
    decide +kernel
  have hbrowses : Browses .bare {} {} [healthContact, itemContact] := by
    refine .request ⟨[bytes "said=1", bytes "theme"], [bytes "theme", bytes "said=1"],
      said_foreign, by decide +kernel, by decide +kernel⟩ ?_
    rw [hjar]
    refine .request ⟨[bytes "said=1", bytes "theme"], _, said_foreign, ?_, rfl⟩ (.done _)
    decide +kernel
  exact ⟨hbrowses, oneIdentity_of_browses hbrowses⟩

end SSize
