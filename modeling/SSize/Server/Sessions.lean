import SSize.Handlers.Numbers
import SSize.Lib.Leases
import SSize.Server.Browser
import SSize.Server.Headers

/-!
# How long an identity lasts

The browser of `Server.Browser` again, now with a clock: it forgets a cookie when its
`Max-Age` is over. `sid` is sent with every reply, so a session lasts until the browser is
silent for `session_idle_ttl`. `aid` is sent once, so a device is a new one `anon_cookie_ttl`
after its first request, whatever it did since.
-/

namespace SSize

open Lib

/-! ## `Max-Age` -/

/-- Decimal digits behind an optional minus. -/
def deltaSeconds (text : Text) : Option Int :=
  let negative := text.head? = some '-'.toUInt8
  let digits := if negative then text.drop 1 else text
  if digits.isEmpty || !digits.all isDigit then none
  else some (if negative then -digitsValue digits else digitsValue digits)

theorem deltaSeconds_toText (n : Int) : deltaSeconds (toText n) = some n := by
  obtain ⟨hnonempty, hall⟩ := all_digitsOf n.natAbs
  by_cases hneg : n < 0
  · have hvalue : -(n.natAbs : Int) = n := by omega
    rw [toText_of_neg hneg, deltaSeconds]
    simp only [List.head?_cons, if_true, List.drop_one, List.tail_cons, hnonempty, hall,
      Bool.not_true, Bool.or_self, Bool.false_eq_true, if_false, digitsValue_digitsOf, hvalue]
  · have hhead : (digitsOf n.natAbs).head? ≠ some '-'.toUInt8 := by
      intro hhead
      exact absurd (isDigit_of_mem_digitsOf (List.mem_of_mem_head? hhead)) (by decide)
    have hvalue : (n.natAbs : Int) = n := by omega
    rw [toText_of_nonneg (by omega), deltaSeconds]
    simp only [hhead, if_false, hnonempty, hall, Bool.not_true, Bool.or_self,
      Bool.false_eq_true, digitsValue_digitsOf, hvalue]

def maxAgeOf (part : Text) : Option Int :=
  let part := part.dropWhile (· == ' '.toUInt8)
  if (bytes "Max-Age=").isPrefixOf part then deltaSeconds (part.drop 8) else none

/-- The last of several counts. -/
def readMaxAge (field : Text) : Option Int :=
  (((field.splitOn semicolon).drop 1).filterMap maxAgeOf).getLast?

theorem readMaxAge_append (pair : Text) {part rest : Text} (h : semicolon ∉ part)
    (hrest : (rest.splitOn semicolon).filterMap maxAgeOf = []) :
    readMaxAge (pair ++ semicolon :: (part ++ semicolon :: rest)) =
      (maxAgeOf part).or (readMaxAge pair) := by
  have hne : pair.splitOn semicolon ≠ [] := List.splitOn_ne_nil semicolon pair
  rw [readMaxAge, List.splitOn_append_cons_self, List.splitOn_append_cons_self,
    List.splitOn_eq_singleton h, List.drop_append_of_le_length (List.length_pos_iff.2 hne)]
  rw [List.filterMap_append, List.filterMap_append, hrest, List.append_nil, readMaxAge]
  cases hage : maxAgeOf part <;> simp [hage]

/-- `base_path` may have a `Max-Age` in it, which does not count. -/
theorem readMaxAge_cookieField (cfg : Config) (name value : Text) (maxAge : Int) :
    readMaxAge (cookieField cfg name value maxAge) = some maxAge := by
  have hage : bytes "; Max-Age=" = semicolon :: bytes " Max-Age=" := by decide
  have honly : bytes "; HttpOnly; SameSite=Lax" = semicolon :: bytes " HttpOnly; SameSite=Lax" := by
    decide
  have hclean : semicolon ∉ bytes " Max-Age=" ++ toText maxAge := by
    rw [List.mem_append, not_or]
    refine ⟨by decide, fun h => ?_⟩
    exact absurd (numeralByte_of_mem_toText h).unreserved (by decide)
  have hvalue : maxAgeOf (bytes " Max-Age=" ++ toText maxAge) = some maxAge := by
    have hspace : bytes " Max-Age=" = ' '.toUInt8 :: bytes "Max-Age=" := by decide
    have hdrop : (bytes " Max-Age=" ++ toText maxAge).dropWhile (· == ' '.toUInt8) =
        bytes "Max-Age=" ++ toText maxAge := by
      rw [hspace]
      rfl
    have hstart : (bytes "Max-Age=").isPrefixOf (bytes "Max-Age=" ++ toText maxAge) = true :=
      List.isPrefixOf_iff_prefix.2 (List.prefix_append _ _)
    rw [maxAgeOf, hdrop]
    simp only [hstart, if_true]
    exact deltaSeconds_toText maxAge
  have hrest : ∀ secure : Bool, ((bytes " HttpOnly; SameSite=Lax" ++
      (if secure then bytes "; Secure" else [])).splitOn semicolon).filterMap maxAgeOf = [] := by
    decide
  have hsplit : cookieField cfg name value maxAge =
      (name ++ bytes "=" ++ value ++ bytes "; Path=" ++
        (if cfg.basePath.isEmpty then bytes "/" else cfg.basePath)) ++ semicolon ::
      ((bytes " Max-Age=" ++ toText maxAge) ++ semicolon ::
        (bytes " HttpOnly; SameSite=Lax" ++
          (if cfg.cookieSecure then bytes "; Secure" else []))) := by
    rw [cookieField, hage, honly]
    simp only [List.append_assoc, List.cons_append]
  rw [hsplit, readMaxAge_append _ hclean (hrest cfg.cookieSecure), hvalue, Option.some_or]

theorem readSetCookie_cookieField (cfg : Config) {name value : Text} (hname : semicolon ∉ name)
    (hequals : equals ∉ name) (hvalue : semicolon ∉ value) (maxAge : Int) :
    readSetCookie (cookieField cfg name value maxAge) = (name, value) := by
  have hsent := sentCookies_setCookie cfg hname hequals hvalue maxAge ⟨.ok, [], []⟩
  have hinsert := sentCookies_insert ⟨.ok, [], []⟩ (cookieField cfg name value maxAge)
  exact List.singleton_inj.1 (hinsert.symm.trans hsent)

/-! ## A browser with a clock -/

/-- What it has stored of ours, and until when, in milliseconds. -/
structure DatedJar where
  aid : Option (Lease Text) := none
  sid : Option (Lease Text) := none
deriving DecidableEq

namespace DatedJar

def keep (now : TsMs) (jar : DatedJar) (field : Text) : DatedJar :=
  let cookie := readSetCookie field
  let lease : Lease Text := ⟨cookie.2, (readMaxAge field).map fun age => now + 1000 * age⟩
  if cookie.1 = bytes "aid" then { jar with aid := some lease }
  else if cookie.1 = bytes "sid" then { jar with sid := some lease }
  else jar

def store (jar : DatedJar) (now : TsMs) (res : Response) : DatedJar :=
  (res.valuesOf (bytes "Set-Cookie")).foldl (keep now) jar

/-- What is left of it. -/
def left (jar : DatedJar) (now : TsMs) : Jar := ⟨Lease.held jar.aid now, Lease.held jar.sid now⟩

end DatedJar

/-- A request that is sent at one time and whose reply is stored at another. -/
structure DatedContact extends Contact where
  sentAt : TsMs
  storedAt : TsMs

variable (lib : Library) (cfg : Config)

/-- The requests of one browser from `now` on, one after the other, each with the cookies
that it has by then. -/
inductive Visits : TsMs → DatedJar → List DatedContact → Prop
  | done (now : TsMs) (jar : DatedJar) : Visits now jar []
  | request {now : TsMs} {jar : DatedJar} {x : DatedContact} {rest : List DatedContact}
      (hsent : now ≤ x.sentAt) (hstored : x.sentAt ≤ x.storedAt)
      (hcookie : (jar.left x.sentAt).Sends x.req.cookie)
      (hrest : Visits x.storedAt (jar.store x.storedAt (x.reply lib cfg).response) rest) :
      Visits now jar (x :: rest)

/-! ## What one request does to the two leases -/

namespace DatedContact

def anonCall (x : DatedContact) : Call Text := ⟨x.sentAt, x.storedAt, randomId x.amb.anonDraw⟩

def sessionCall (x : DatedContact) : Call Text :=
  ⟨x.sentAt, x.storedAt, randomId x.amb.sessionDraw⟩

def identity (x : DatedContact) : Identity := identify x.amb x.req

/-- What the leases make of it. -/
def identityFrom (jar : DatedJar) (x : DatedContact) : Identity where
  anonId := x.anonCall.carried jar.aid
  sessionId := x.sessionCall.carried jar.sid
  setAnon := (Lease.held jar.aid x.sentAt).isNone
  setSession := (Lease.held jar.sid x.sentAt).isNone

end DatedContact

/-- Whatever the browser has stored was drawn by the server. -/
structure DatedJar.Drawn (jar : DatedJar) : Prop where
  aid : ∀ value ∈ jar.aid.map Lease.token, ∃ raw, value = randomId raw
  sid : ∀ value ∈ jar.sid.map Lease.token, ∃ raw, value = randomId raw

theorem DatedJar.drawn_empty : DatedJar.Drawn {} := ⟨by simp, by simp⟩

variable {lib cfg} {jar : DatedJar} {x : DatedContact}

theorem held_drawn {l : Option (Lease Text)}
    (h : ∀ value ∈ l.map Lease.token, ∃ raw, value = randomId raw) {now : TsMs} {value : Text}
    (hvalue : Lease.held l now = some value) : semicolon ∉ value ∧ value ≠ [] := by
  obtain ⟨raw, rfl⟩ := h value (held_mem hvalue)
  exact ⟨semicolon_not_mem_randomId raw, randomId_ne_nil raw⟩

theorem carried_drawn {l : Option (Lease Text)}
    (h : ∀ value ∈ l.map Lease.token, ∃ raw, value = randomId raw) (call : Call Text)
    (hfresh : ∃ raw, call.fresh = randomId raw) : ∃ raw, call.carried l = randomId raw := by
  rcases carried_mem l call with hown | hheld
  · rw [hown]
    exact hfresh
  · exact h _ hheld

theorem DatedJar.Drawn.identity (h : jar.Drawn) (hcookie : (jar.left x.sentAt).Sends x.req.cookie) :
    x.identity = x.identityFrom jar := by
  have hclean : (jar.left x.sentAt).Clean :=
    ⟨fun value hvalue => (held_drawn h.aid hvalue).1,
      fun value hvalue => (held_drawn h.sid hvalue).1⟩
  obtain ⟨haid, hsid⟩ := cookieValue_of_sends hclean hcookie
  have hempty : ∀ {l : Option (Lease Text)} {now : TsMs},
      (∀ value ∈ l.map Lease.token, ∃ raw, value = randomId raw) →
      ((Lease.held l now).getD []).isEmpty = (Lease.held l now).isNone := by
    intro l now hl
    cases hheld : Lease.held l now with
    | none => rfl
    | some value => simpa using (held_drawn hl hheld).2
  have hvalue : ∀ (l : Option (Lease Text)) (call : Call Text),
      (if (Lease.held l call.sent).isNone = true then call.fresh
        else (Lease.held l call.sent).getD []) = call.carried l := by
    intro l call
    rw [Call.carried]
    cases Lease.held l call.sent <;> rfl
  rw [DatedContact.identity, identify, haid, hsid, DatedContact.identityFrom]
  simp only [DatedJar.left, hempty h.aid, hempty h.sid]
  congr 1
  · exact hvalue jar.aid x.anonCall
  · exact hvalue jar.sid x.sessionCall

theorem DatedJar.keep_aid (now : TsMs) (jar : DatedJar) {value : Text}
    (hvalue : semicolon ∉ value) :
    jar.keep now (cookieField cfg (bytes "aid") value cfg.anonCookieTtl) =
      { jar with aid := some ⟨value, some (now + 1000 * cfg.anonCookieTtl)⟩ } := by
  have hread : readSetCookie (cookieField cfg (bytes "aid") value cfg.anonCookieTtl) =
      (bytes "aid", value) :=
    readSetCookie_cookieField cfg (by decide) (by decide) hvalue cfg.anonCookieTtl
  simp [keep, readMaxAge_cookieField, hread]

theorem DatedJar.keep_sid (now : TsMs) (jar : DatedJar) {value : Text}
    (hvalue : semicolon ∉ value) :
    jar.keep now (cookieField cfg (bytes "sid") value cfg.sessionIdleTtl) =
      { jar with sid := some ⟨value, some (now + 1000 * cfg.sessionIdleTtl)⟩ } := by
  have hdistinct : bytes "sid" ≠ bytes "aid" := by decide
  have hread : readSetCookie (cookieField cfg (bytes "sid") value cfg.sessionIdleTtl) =
      (bytes "sid", value) :=
    readSetCookie_cookieField cfg (by decide) (by decide) hvalue cfg.sessionIdleTtl
  simp [keep, readMaxAge_cookieField, hread, hdistinct]

/-- Both leases once the reply is stored. -/
theorem DatedJar.Drawn.store (h : jar.Drawn) (hcookie : (jar.left x.sentAt).Sends x.req.cookie) :
    jar.store x.storedAt (x.reply lib cfg).response =
      { aid := x.anonCall.leave false (1000 * cfg.anonCookieTtl) jar.aid
        sid := x.sessionCall.leave true (1000 * cfg.sessionIdleTtl) jar.sid } := by
  have hid := h.identity hcookie
  obtain ⟨raw, haid⟩ := carried_drawn h.aid x.anonCall ⟨_, rfl⟩
  obtain ⟨raw', hsid⟩ := carried_drawn h.sid x.sessionCall ⟨_, rfl⟩
  have hanon : semicolon ∉ x.anonCall.carried jar.aid :=
    haid ▸ semicolon_not_mem_randomId raw
  have hsession : semicolon ∉ x.sessionCall.carried jar.sid :=
    hsid ▸ semicolon_not_mem_randomId raw'
  have hfields : (x.reply lib cfg).response.valuesOf (bytes "Set-Cookie") =
      identityFields cfg x.identity :=
    (dispatch_finished lib x.amb x.ptr x.cache x.clientIp).cookies
  rw [DatedJar.store, hfields, hid, identityFields, DatedContact.identityFrom, leave_sliding]
  cases hheld : Lease.held jar.aid x.sentAt with
  | none =>
      have hgiven : x.anonCall.leave false (1000 * cfg.anonCookieTtl) jar.aid =
          some ⟨x.anonCall.carried jar.aid, some (x.storedAt + 1000 * cfg.anonCookieTtl)⟩ := by
        have hheld' : Lease.held jar.aid x.anonCall.sent = none := hheld
        rw [Call.leave, Call.carried, hheld']
        rfl
      simp only [Option.isNone_none, if_true, List.singleton_append, List.foldl_cons,
        List.foldl_nil, DatedJar.keep_aid _ _ hanon, DatedJar.keep_sid _ _ hsession, hgiven]
      rfl
  | some value =>
      have hkept : x.anonCall.leave false (1000 * cfg.anonCookieTtl) jar.aid = jar.aid := by
        have hheld' : Lease.held jar.aid x.anonCall.sent = some value := hheld
        rw [Call.leave, hheld']
        rfl
      simp only [Option.isNone_some, Bool.false_eq_true, if_false, List.nil_append,
        List.foldl_cons, List.foldl_nil, DatedJar.keep_sid _ _ hsession, hkept]
      rfl

theorem DatedJar.Drawn.kept (h : jar.Drawn) :
    DatedJar.Drawn
      { aid := x.anonCall.leave false (1000 * cfg.anonCookieTtl) jar.aid
        sid := x.sessionCall.leave true (1000 * cfg.sessionIdleTtl) jar.sid } where
  aid _ hvalue := by
    rw [leave_token hvalue]
    exact carried_drawn h.aid x.anonCall ⟨_, rfl⟩
  sid _ hvalue := by
    rw [leave_token hvalue]
    exact carried_drawn h.sid x.sessionCall ⟨_, rfl⟩

/-! ## A run -/

variable {start : TsMs} {before between later : List DatedContact} {y : DatedContact}

/-- The leases after these requests. -/
def DatedJar.afterAll (cfg : Config) (jar : DatedJar) (before : List DatedContact) : DatedJar where
  aid := leaseAfter false (1000 * cfg.anonCookieTtl) jar.aid (before.map DatedContact.anonCall)
  sid := leaseAfter true (1000 * cfg.sessionIdleTtl) jar.sid (before.map DatedContact.sessionCall)

/-- What a request of the run goes by is what the requests before it left. -/
theorem Visits.identity (h : Visits lib cfg start jar (before ++ x :: later)) (hjar : jar.Drawn) :
    x.identity = x.identityFrom (jar.afterAll cfg before) := by
  induction before generalizing start jar with
  | nil =>
      cases h with
      | request hsent hstored hcookie hrest => exact hjar.identity hcookie
  | cons z before ih =>
      cases h with
      | request hsent hstored hcookie hrest =>
          rw [hjar.store hcookie] at hrest
          exact ih hrest hjar.kept

theorem Visits.sorted {run : List DatedContact} (h : Visits lib cfg start jar run) :
    (∀ z ∈ run, start ≤ z.sentAt) ∧ run.Pairwise fun a b => a.sentAt ≤ b.sentAt := by
  induction run generalizing start jar with
  | nil => exact ⟨fun z hz => absurd hz List.not_mem_nil, List.Pairwise.nil⟩
  | cons z run ih =>
      cases h with
      | request hsent hstored hcookie hrest =>
          obtain ⟨hlater, hsorted⟩ := ih hrest
          refine ⟨fun z' hz' => ?_, List.pairwise_cons.2 ⟨fun z' hz' => ?_, hsorted⟩⟩
          · rcases List.mem_cons.1 hz' with rfl | hrun
            · exact hsent
            · exact hsent.trans (hstored.trans (hlater z' hrun))
          · exact hstored.trans (hlater z' hz')

/-- Not silent for `session_idle_ttl` in between. -/
def WithinIdle (cfg : Config) (x y : DatedContact) : Prop :=
  y.sentAt < x.storedAt + 1000 * cfg.sessionIdleTtl

instance (cfg : Config) (x y : DatedContact) : Decidable (WithinIdle cfg x y) :=
  inferInstanceAs (Decidable (_ < _))

theorem distinct_calls (call : DatedContact → Call Text)
    (h : ((before ++ x :: (between ++ y :: later)).map fun z => (call z).fresh).Nodup) :
    ((before.map call ++ call x :: between.map call ++ [call y]).map Call.fresh).Nodup := by
  have hpart : before ++ x :: between ++ [y] <+: before ++ x :: (between ++ y :: later) :=
    ⟨later, by simp⟩
  have hnodup := h.sublist (hpart.sublist.map _)
  simpa [Function.comp_def] using hnodup

theorem Visits.identities
    (h : Visits lib cfg start {} (before ++ x :: (between ++ y :: later))) :
    x.identity = x.identityFrom (DatedJar.afterAll cfg {} before) ∧
      y.identity = y.identityFrom (DatedJar.afterAll cfg {} (before ++ x :: between)) := by
  have hsplit : before ++ x :: (between ++ y :: later) =
      (before ++ x :: between) ++ y :: later := by
    simp
  exact ⟨h.identity DatedJar.drawn_empty, (hsplit ▸ h).identity DatedJar.drawn_empty⟩

/-- A request for an item, with its own draws. -/
def dayContact (draw : UInt8) (sentAt : TsMs) (cookie : Text) : DatedContact where
  amb := { Ambient.bare sentAt with
    anonDraw := .replicate 16 draw
    sessionDraw := .replicate 16 draw }
  ptr := { catalog := .ofRows [{ id := 7 }] [] }
  cache := {}
  req := { target := bytes "/item/7", cookie := cookie }
  clientIp := []
  sentAt := sentAt
  storedAt := sentAt + 10

def firstId : Text := randomId (.replicate 16 1)

def firstCookies : Text := cookieHeader [bytes "aid=" ++ firstId, bytes "sid=" ++ firstId]

/-- Back after a quarter of an hour, and then after more than a year. -/
def threeContacts : List DatedContact :=
  [dayContact 1 0 [], dayContact 2 900000 firstCookies, dayContact 3 40000000000 []]

theorem visits_threeContacts : Visits .bare {} 0 {} threeContacts := by
  have hfirst : DatedJar.store {} (dayContact 1 0 []).storedAt
      ((dayContact 1 0 []).reply .bare {}).response =
      ⟨some ⟨firstId, some 31536000010⟩, some ⟨firstId, some 1800010⟩⟩ := by
    decide +kernel
  have hsecond : DatedJar.store
      ⟨some ⟨firstId, some 31536000010⟩, some ⟨firstId, some 1800010⟩⟩
      (dayContact 2 900000 firstCookies).storedAt
      ((dayContact 2 900000 firstCookies).reply .bare {}).response =
      ⟨some ⟨firstId, some 31536000010⟩, some ⟨firstId, some 2700010⟩⟩ := by
    decide +kernel
  refine .request (by decide) (by decide) ⟨[], [], by simp, by decide, rfl⟩ ?_
  refine .request (by decide) (by decide) ⟨[], _, by simp, ?_, rfl⟩ ?_
  · rw [hfirst]
    decide
  · rw [hfirst, hsecond]
    exact .request (by decide) (by decide) ⟨[], [], by simp, by decide, rfl⟩ (.done _ _)

/-- Two requests of a browser belong to one session, in what the server sends and in what it
logs, exactly when the browser was never silent for `session_idle_ttl` between them. -/
theorem sameSession_iff
    (hrun : Visits lib cfg start {} (before ++ x :: (between ++ y :: later)))
    (hdraws : ((before ++ x :: (between ++ y :: later)).map fun z =>
      randomId z.amb.sessionDraw).Nodup) :
    (y.identity.sessionId = x.identity.sessionId ↔
      (x :: (between ++ [y])).IsChain (WithinIdle cfg)) ∧
    ∀ ev ∈ eventsOf (x.reply lib cfg).effects, ∀ ev' ∈ eventsOf (y.reply lib cfg).effects,
      (ev'.sessionId = ev.sessionId ↔ (x :: (between ++ [y])).IsChain (WithinIdle cfg)) := by
  have hsame : y.identity.sessionId = x.identity.sessionId ↔
      (x :: (between ++ [y])).IsChain (WithinIdle cfg) := by
    obtain ⟨hx, hy⟩ := hrun.identities
    have hleases := sameToken_sliding_iff (1000 * cfg.sessionIdleTtl)
      (distinct_calls DatedContact.sessionCall hdraws)
    have hchain : (x.sessionCall :: (between.map DatedContact.sessionCall ++
        [y.sessionCall])).IsChain (Within (1000 * cfg.sessionIdleTtl)) ↔
          (x :: (between ++ [y])).IsChain (WithinIdle cfg) := by
      have hmap : x.sessionCall :: (between.map DatedContact.sessionCall ++ [y.sessionCall]) =
          (x :: (between ++ [y])).map DatedContact.sessionCall := by
        simp
      rw [hmap, List.isChain_map]
      rfl
    rw [hx, hy, ← hchain, ← hleases]
    simp [DatedContact.identityFrom, DatedJar.afterAll]
  refine ⟨hsame, fun ev hev ev' hev' => ?_⟩
  rw [(logged_identity hev).2, (logged_identity hev').2]
  exact hsame

theorem sameSession_quarter_hour :
    (dayContact 2 900000 firstCookies).identity.sessionId =
        (dayContact 1 0 []).identity.sessionId ∧
      (dayContact 3 40000000000 []).identity.sessionId ≠
        (dayContact 1 0 []).identity.sessionId := by
  have hsoon : Visits .bare {} 0 {} ([] ++ dayContact 1 0 [] ::
      ([] ++ dayContact 2 900000 firstCookies :: [dayContact 3 40000000000 []])) :=
    visits_threeContacts
  have hlate : Visits .bare {} 0 {} ([] ++ dayContact 1 0 [] ::
      ([dayContact 2 900000 firstCookies] ++ dayContact 3 40000000000 [] :: [])) :=
    visits_threeContacts
  have hdraws : (threeContacts.map fun z => randomId z.amb.sessionDraw).Nodup := by
    decide +kernel
  refine ⟨(sameSession_iff hsoon hdraws).1.2 (by decide), fun h => ?_⟩
  exact absurd ((sameSession_iff hlate hdraws).1.1 h) (by decide)

/-- The `aid` that one request was given goes with another exactly when that was sent less
than `anon_cookie_ttl` after the reply, however often it was used in between. -/
theorem sameDevice_iff
    (hrun : Visits lib cfg start {} (before ++ x :: (between ++ y :: later)))
    (hdraws : ((before ++ x :: (between ++ y :: later)).map fun z =>
      randomId z.amb.anonDraw).Nodup)
    (hgiven : x.identity.setAnon = true) :
    (y.identity.anonId = x.identity.anonId ↔
      y.sentAt < x.storedAt + 1000 * cfg.anonCookieTtl) ∧
    ∀ ev ∈ eventsOf (x.reply lib cfg).effects, ∀ ev' ∈ eventsOf (y.reply lib cfg).effects,
      (ev'.anonId = ev.anonId ↔ y.sentAt < x.storedAt + 1000 * cfg.anonCookieTtl) := by
  have hsame : y.identity.anonId = x.identity.anonId ↔
      y.sentAt < x.storedAt + 1000 * cfg.anonCookieTtl := by
    obtain ⟨hx, hy⟩ := hrun.identities
    rw [hx] at hgiven
    have hsorted : ((between.map DatedContact.anonCall) ++ [y.anonCall]).Pairwise
        fun a b => a.sent ≤ b.sent := by
      have hpart : (between ++ [y]).Sublist (before ++ x :: (between ++ y :: later)) := by
        have hend : (between ++ [y]).Sublist (between ++ y :: later) :=
          List.Sublist.append_left (List.singleton_sublist.2 List.mem_cons_self) between
        exact (hend.cons x).trans (List.sublist_append_right before _)
      have hmap : between.map DatedContact.anonCall ++ [y.anonCall] =
          (between ++ [y]).map DatedContact.anonCall := by
        simp
      rw [hmap, List.pairwise_map]
      exact hrun.sorted.2.sublist hpart
    have hleases := sameToken_fixed_iff (1000 * cfg.anonCookieTtl)
      (distinct_calls DatedContact.anonCall hdraws) hsorted
      (Option.isNone_iff_eq_none.1 hgiven)
    have hwithin : Within (1000 * cfg.anonCookieTtl) x.anonCall y.anonCall ↔
        y.sentAt < x.storedAt + 1000 * cfg.anonCookieTtl := Iff.rfl
    rw [hx, hy, ← hwithin, ← hleases]
    simp [DatedContact.identityFrom, DatedJar.afterAll]
  refine ⟨hsame, fun ev hev ev' hev' => ?_⟩
  rw [(logged_identity hev).1, (logged_identity hev').1]
  exact hsame

theorem sameDevice_year :
    (dayContact 2 900000 firstCookies).identity.anonId = (dayContact 1 0 []).identity.anonId ∧
      (dayContact 3 40000000000 []).identity.anonId ≠ (dayContact 1 0 []).identity.anonId := by
  have hsoon : Visits .bare {} 0 {} ([] ++ dayContact 1 0 [] ::
      ([] ++ dayContact 2 900000 firstCookies :: [dayContact 3 40000000000 []])) :=
    visits_threeContacts
  have hlate : Visits .bare {} 0 {} ([] ++ dayContact 1 0 [] ::
      ([dayContact 2 900000 firstCookies] ++ dayContact 3 40000000000 [] :: [])) :=
    visits_threeContacts
  have hdraws : (threeContacts.map fun z => randomId z.amb.anonDraw).Nodup := by
    decide +kernel
  have hgiven : (dayContact 1 0 []).identity.setAnon = true := by decide
  refine ⟨(sameDevice_iff hsoon hdraws hgiven).1.2 (by decide), fun h => ?_⟩
  exact absurd ((sameDevice_iff hlate hdraws hgiven).1.1 h) (by decide)

end SSize
