import SSize.Catalog.Snapshot
import SSize.Handlers.Query
import SSize.Json

/-!
# Requests, identities and logged events (`handlers.cpp`)

A handler is a function of the request, the current snapshot and what the
outside world answers while it runs. What it pushes into the queues is the list
of its effects, in order; the HTTP thread carries them out one at a time.
-/

namespace SSize

inductive Method where
  | get
  | post
  | other
deriving DecidableEq, Repr

/-- The parts of a request that the handlers read. An absent header field reads
as the empty string. -/
structure HttpRequest where
  method : Method := .get
  target : Text := bytes "/"
  cookie : Text := []
  userAgent : Text := []
  referer : Text := []
  ifNoneMatch : Text := []
  xForwardedFor : Text := []
  body : Text := []

structure Library where
  /-- `static_cast<Kopek>(std::stod(s) * 100.0)`, `none` where it throws. -/
  kopeksOf : Text → Option Kopek
  /-- `nlohmann::json::parse`, `none` where it throws. -/
  parseJson : Text → Option Json
  /-- `crypto_generichash` of an address under the salt. -/
  hashIp : Text → Text → List UInt8

/-- `std::filesystem` and `std::ifstream`, `none` where they report an error. -/
structure FileSystem where
  weaklyCanonical : Text → Option Text
  lastWriteTime : Text → Option Int
  fileSize : Text → Option Nat
  read : Text → Option Text

/-- What the outside world answers during one request. -/
structure Ambient where
  clock : Nat → TsMs
  anonDraw : Vector UInt8 16
  sessionDraw : Vector UInt8 16
  tokenDraw : Vector UInt8 12
  /-- `Templating::render`, `none` where it throws. -/
  render : Text → Json → Option Text
  files : FileSystem

def Library.bare : Library where
  kopeksOf _ := none
  parseJson _ := none
  hashIp _ _ := []

/-- One reading of the clock, all random bytes zero, no template and no file. -/
def Ambient.bare (now : TsMs) : Ambient where
  clock _ := now
  anonDraw := .replicate 16 0
  sessionDraw := .replicate 16 0
  tokenDraw := .replicate 12 0
  render _ _ := none
  files := ⟨fun _ => none, fun _ => none, fun _ => none, fun _ => none⟩

inductive Effect where
  | event (ev : Event)
  | postback (now : TsMs) (q : Query)

structure Outcome where
  effects : List Effect := []
  /-- `none` when it threw. -/
  result : Option Response
  /-- The token of `make_click_token`, where the handler called it. Nothing reads
  this but the history of the server. -/
  minted : Option Text := none

def Outcome.answer (res : Response) : Outcome := { result := some res }

/-! ## Identity -/

structure Identity where
  anonId : Text
  sessionId : Text
  setAnon : Bool := false
  setSession : Bool := false

def hexLower (v : UInt8) : UInt8 :=
  if v < 10 then '0'.toUInt8 + v else 'a'.toUInt8 + (v - 10)

def randomId (raw : Vector UInt8 16) : Text :=
  raw.toList.flatMap fun b : UInt8 => [hexLower (b >>> 4), hexLower (b &&& 0x0F)]

def identify (amb : Ambient) (req : HttpRequest) : Identity :=
  let anonId := cookieValue req.cookie (bytes "aid")
  let sessionId := cookieValue req.cookie (bytes "sid")
  { anonId := if anonId.isEmpty then randomId amb.anonDraw else anonId
    sessionId := if sessionId.isEmpty then randomId amb.sessionDraw else sessionId
    setAnon := anonId.isEmpty
    setSession := sessionId.isEmpty }

def setCookie (cfg : Config) (name value : Text) (maxAge : Int) (res : Response) : Response :=
  res.insert (bytes "Set-Cookie")
    (name ++ bytes "=" ++ value ++ bytes "; Path=" ++
      (if cfg.basePath.isEmpty then bytes "/" else cfg.basePath) ++ bytes "; Max-Age=" ++
      toText maxAge ++ bytes "; HttpOnly; SameSite=Lax" ++
      (if cfg.cookieSecure then bytes "; Secure" else []))

/-- The session cookie is sent again on every request, so its idle window slides. -/
def applyIdentity (cfg : Config) (id : Identity) (res : Response) : Response :=
  let res :=
    if id.setAnon then setCookie cfg (bytes "aid") id.anonId cfg.anonCookieTtl res else res
  setCookie cfg (bytes "sid") id.sessionId cfg.sessionIdleTtl res

@[simp] theorem applyIdentity_status (cfg : Config) (id : Identity) (res : Response) :
    (applyIdentity cfg id res).status = res.status := by
  unfold applyIdentity
  split <;> rfl

/-! ## Events -/

structure Visit where
  id : Identity
  clientIp : Text
  userAgent : Text
  referer : Text

/-- The fields that `log_event` overwrites before it pushes. -/
def logEvent (lib : Library) (cfg : Config) (visit : Visit) (now : TsMs) (ev : Event) : Effect :=
  .event { ev with
    ts := now
    anonId := visit.id.anonId
    sessionId := visit.id.sessionId
    uaClass := classifyUa visit.userAgent
    ipHash := lib.hashIp visit.clientIp cfg.ipHashSecret }

def positionOf (q : Query) : Option Int :=
  ((q (bytes "p")).bind parseInt).map castInt

def surfaceOf (q : Query) : Text := (q (bytes "s")).getD (bytes "feed")

/-- The address that `handle_connection` hands to `dispatch`: behind the proxy the
first one of `X-Forwarded-For`. -/
def clientAddress (req : HttpRequest) (peer : Text) : Text :=
  if req.xForwardedFor.isEmpty then peer
  else (req.xForwardedFor.takeWhile (· != ','.toUInt8)).dropWhile (· == ' '.toUInt8)

end SSize
