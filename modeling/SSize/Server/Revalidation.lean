import SSize.Handlers.FeedCache
import SSize.Handlers.Numbers
import SSize.Lib.Revalidated
import SSize.Server.Headers

/-!
# A browser that asks before it uses a file

`no-cache` makes a browser send the `ETag` of the copy that it has, and a 304 makes it use
that. The tag is made of the time of the last change and the size, so the browser shows a
file as it is unless an edit changes the bytes and neither of the two.
-/

namespace SSize

open Lib

/-- A file at one time. -/
structure Version where
  mtime : Int
  content : Text

def Version.etag (v : Version) : Text :=
  bytes "\"" ++ toText v.mtime ++ bytes "-" ++ toText v.content.length ++ bytes "\""

/-! ## The tag -/

abbrev hyphen : UInt8 := '-'.toUInt8

theorem hyphen_not_mem_digitsOf (n : Nat) : hyphen ∉ digitsOf n := by
  intro h
  exact absurd (isDigit_of_mem_digitsOf h) (by decide)

theorem etag_eq_iff {v w : Version} :
    v.etag = w.etag ↔ v.mtime = w.mtime ∧ v.content.length = w.content.length := by
  have hhyphen : bytes "-" = [hyphen] := by decide
  have hdigits : ∀ v : Version, hyphen ∉ toText v.content.length := by
    intro v
    rw [toText_of_nonneg (by omega)]
    exact hyphen_not_mem_digitsOf _
  constructor
  · intro h
    rw [Version.etag, Version.etag, hhyphen] at h
    have hinner := List.append_cancel_right h
    simp only [List.append_assoc, List.singleton_append] at hinner
    obtain ⟨htime, hsize⟩ := append_cons_inj_of_notMem_right (hdigits v) (hdigits w)
      (List.append_cancel_left hinner)
    exact ⟨toText_injective htime, by exact_mod_cast toText_injective hsize⟩
  · rintro ⟨htime, hsize⟩
    rw [Version.etag, Version.etag, htime, hsize]

theorem etag_ne_nil (v : Version) : v.etag ≠ [] := by
  have hquote : bytes "\"" ≠ [] := by decide
  simp [Version.etag, hquote]

/-! ## Asking for a file -/

/-- `handle_file` finds the file of this request, in this version if there is one. -/
structure FileSystem.Shows (files : FileSystem) (root rel : Text) (version : Option Version) :
    Prop where
  inside : ¬ bytes ".." <:+: rel
  file : ∃ canonicalRoot path, files.weaklyCanonical root = some canonicalRoot ∧
    files.weaklyCanonical (joinPath root rel) = some path ∧ canonicalRoot <+: path ∧
    files.fileSize path = version.map (fun v => v.content.length) ∧
    files.read path = version.map Version.content ∧
    ∀ v ∈ version, files.lastWriteTime path = some v.mtime

/-- A copy of the file with its tag. -/
abbrev Copy := Text × Text

/-- A request for the file, but for the tag, and what it meets. -/
structure Fetch where
  amb : Ambient
  ptr : CatalogPtr
  cache : FeedCache
  req : HttpRequest
  clientIp : Text
  version : Option Version

/-- The browser sends the tag of its copy. -/
def Fetch.ask (copy : Option Copy) (x : Fetch) : HttpRequest :=
  { x.req with ifNoneMatch := (copy.map Prod.fst).getD [] }

/-- What the browser has afterwards, and what it shows. -/
def receive (copy : Option Copy) (res : Response) : Option Copy × Option Text :=
  match res.status with
  | .ok => ((res.valuesOf (bytes "ETag")).head?.map fun tag => (tag, res.body), some res.body)
  | .notModified => (copy, copy.map Prod.snd)
  | _ => (copy, none)

variable (lib : Library) (cfg : Config)

def Fetch.response (copy : Option Copy) (x : Fetch) : Response :=
  (dispatch lib cfg x.amb x.ptr x.cache (x.ask copy) x.clientIp).response

/-- What the browser shows, request by request. -/
def showing : Option Copy → List Fetch → List (Option Text)
  | _, [] => []
  | copy, x :: rest =>
      let received := receive copy (x.response lib cfg copy)
      received.2 :: showing received.1 rest

/-- The request is for the file, which is in this version by then. -/
structure Fetch.Meets (cfg : Config) (x : Fetch) : Prop where
  asks : asksFile cfg x.req
  shows : x.amb.files.Shows (fileOf cfg x.req).1 (fileOf cfg x.req).2 x.version

/-- The response tells of the file as it is by now one who has it with this tag. -/
def Response.Tells (res : Response) (tag : Text) : Option Version → Prop
  | none => res.status = .notFound
  | some v =>
      (res.status = .notModified ∧ v.etag = tag) ∨
        (res.status = .ok ∧ v.etag ≠ tag ∧ res.body = v.content ∧
          res.valuesOf (bytes "ETag") = [v.etag])

variable {lib cfg} {amb : Ambient} {req : HttpRequest} {root rel : Text}
  {version : Option Version} {copy : Option Copy}

theorem etagOf_shows {path : Text} {v : Version}
    (hsize : amb.files.fileSize path = some v.content.length)
    (htime : amb.files.lastWriteTime path = some v.mtime) :
    etagOf amb.files path = some v.etag := by
  rw [etagOf, hsize, htime]
  rfl

theorem handleFile_tells (h : amb.files.Shows root rel version) :
    (handleFile amb req root rel).Tells req.ifNoneMatch version := by
  obtain ⟨canonicalRoot, path, hroot, hpath, hbegins, hsize, hread, htime⟩ := h.file
  have hbegins' : ¬ (!canonicalRoot.isPrefixOf path) = true := by
    simpa [← List.isPrefixOf_iff_prefix] using hbegins
  unfold handleFile
  simp only [if_neg h.inside, hroot, hpath, Option.getD_some, if_neg hbegins', hread]
  cases version with
  | none =>
      have hetag : etagOf amb.files path = none := by rw [etagOf, hsize]; rfl
      simp [hetag, Response.Tells, textResponse, makeResponse, Response.set]
  | some v =>
      have hetag : etagOf amb.files path = some v.etag :=
        etagOf_shows hsize (htime v rfl)
      rw [hetag]
      by_cases hsame : v.etag = req.ifNoneMatch
      · rw [if_pos (congrArg some hsame)]
        exact Or.inl ⟨rfl, hsame⟩
      · rw [if_neg fun heq => hsame (Option.some.inj heq)]
        exact Or.inr ⟨rfl, hsame, rfl, Response.valuesOf_set _ _ _⟩

theorem valuesOf_finish (cfg : Config) (id : Identity) (res : Response) {name : Text}
    (hcookie : bytes "Set-Cookie" ≠ name) (hserver : bytes "Server" ≠ name)
    (hcontrol : bytes "Cache-Control" ≠ name) :
    (finish cfg id res).valuesOf name = res.valuesOf name := by
  have hserved : ((applyIdentity cfg id res).set (bytes "Server") (bytes "ssize")).valuesOf name =
      res.valuesOf name := by
    rw [Response.valuesOf_set_other _ hserver, valuesOf_applyIdentity_other cfg id res hcookie]
  unfold finish
  dsimp only
  split
  · exact hserved
  · rw [Response.valuesOf_set_other _ hcontrol, hserved]

theorem Response.Tells.finish {res : Response} {tag : Text} (h : res.Tells tag version)
    (id : Identity) : (finish cfg id res).Tells tag version := by
  cases version with
  | none => exact (finish_status cfg id res).trans h
  | some v =>
      rcases h with ⟨hstatus, hsame⟩ | ⟨hstatus, hother, hbody, htag⟩
      · exact Or.inl ⟨(finish_status cfg id res).trans hstatus, hsame⟩
      · refine Or.inr ⟨(finish_status cfg id res).trans hstatus, hother,
          (finish_body cfg id res).trans hbody, ?_⟩
        rw [valuesOf_finish cfg id res (by decide) (by decide) (by decide), htag]

/-- Through the whole of `dispatch`. -/
theorem Fetch.Meets.tells {x : Fetch} (h : x.Meets cfg) :
    (x.response lib cfg copy).Tells (x.ask copy).ifNoneMatch x.version := by
  have hasks : asksFile cfg (x.ask copy) := h.asks
  have hshows : x.amb.files.Shows (fileOf cfg (x.ask copy)).1 (fileOf cfg (x.ask copy)).2
      x.version := h.shows
  rw [Fetch.response, response_file lib x.amb x.ptr x.cache x.clientIp hasks]
  exact (handleFile_tells hshows).finish _

/-! ## What the browser shows -/

theorem receive_none {x : Fetch} (h : x.Meets cfg) (hversion : x.version = none) :
    receive copy (x.response lib cfg copy) = (copy, none) := by
  have htells : (x.response lib cfg copy).Tells (x.ask copy).ifNoneMatch x.version := h.tells
  rw [hversion] at htells
  rw [receive, show (x.response lib cfg copy).status = .notFound from htells]

theorem receive_some {x : Fetch} {v : Version} (h : x.Meets cfg) (hversion : x.version = some v)
    (htagged : ∀ kept ∈ copy, kept.1 ≠ []) :
    receive copy (x.response lib cfg copy) =
      (some (Revalidated.renew Version.etag Version.content copy v),
        some (Revalidated.renew Version.etag Version.content copy v).2) := by
  have htells : (x.response lib cfg copy).Tells (x.ask copy).ifNoneMatch x.version := h.tells
  rw [hversion] at htells
  rcases htells with ⟨hstatus, hsame⟩ | ⟨hstatus, hother, hbody, htag⟩
  · cases copy with
    | none => exact absurd hsame (etag_ne_nil v)
    | some kept =>
        have hkept : kept.1 = v.etag := hsame.symm
        simp [receive, hstatus, Revalidated.renew, hkept]
  · have hrenew : Revalidated.renew Version.etag Version.content copy v = (v.etag, v.content) := by
      cases copy with
      | none => rfl
      | some kept =>
          have hkept : kept.1 ≠ v.etag := Ne.symm hother
          simp [Revalidated.renew, hkept]
    rw [hrenew, receive, hstatus, htag, hbody]
    rfl

theorem showing_eq_shown {fetches : List Fetch} (h : ∀ x ∈ fetches, x.Meets cfg)
    (htagged : ∀ kept ∈ copy, kept.1 ≠ []) :
    showing lib cfg copy fetches =
      Revalidated.shown Version.etag Version.content copy (fetches.map Fetch.version) := by
  induction fetches generalizing copy with
  | nil => rfl
  | cons x rest ih =>
      have hx := h x List.mem_cons_self
      have hrest : ∀ y ∈ rest, y.Meets cfg := fun y hy => h y (List.mem_cons_of_mem x hy)
      cases hversion : x.version with
      | none =>
          rw [showing, receive_none hx hversion, List.map_cons, hversion, Revalidated.shown,
            ih hrest htagged]
      | some v =>
          rw [showing, receive_some hx hversion htagged, List.map_cons, hversion,
            Revalidated.shown]
          refine congrArg _ (ih hrest ?_)
          intro kept hkept
          rw [← Option.some.inj hkept, Revalidated.renew_fst]
          exact etag_ne_nil v

/-- A change of the bytes changes the time of the last change or the size. -/
def Noticed (v w : Version) : Prop :=
  v.mtime = w.mtime → v.content.length = w.content.length → v.content = w.content

theorem told_iff_noticed :
    Revalidated.Told Version.etag Version.content = Noticed := by
  funext v w
  rw [Revalidated.Told, Noticed, etag_eq_iff, and_imp]

/-- Whatever else happens between the requests, a browser that asks with the tag of its copy
shows the file as it is each time exactly when no two versions that it meets one after the
other differ in their bytes alone. -/
theorem showing_iff {fetches : List Fetch} (h : ∀ x ∈ fetches, x.Meets cfg) :
    showing lib cfg none fetches = fetches.map (fun x => x.version.map Version.content) ↔
      (fetches.filterMap Fetch.version).IsChain Noticed := by
  have hexact :
      Revalidated.shown Version.etag Version.content none (fetches.map Fetch.version) =
          (fetches.map Fetch.version).map (Option.map Version.content) ↔
        ((fetches.map Fetch.version).filterMap id).IsChain
          (Revalidated.Told Version.etag Version.content) :=
    Revalidated.shown_eq_iff _
  rw [told_iff_noticed, List.filterMap_map, List.map_map] at hexact
  rw [showing_eq_shown h (by simp)]
  exact hexact

/-- A disk with one file. -/
def FileSystem.holding (version : Option Version) : FileSystem where
  weaklyCanonical p :=
    if p = bytes "/srv/static" ∨ p = bytes "/srv/static/x" then some p else none
  lastWriteTime _ := version.map Version.mtime
  fileSize _ := version.map fun v => v.content.length
  read _ := version.map Version.content

theorem FileSystem.holding_canonical {version : Option Version} {p : Text}
    (h : p = bytes "/srv/static" ∨ p = bytes "/srv/static/x") :
    (holding version).weaklyCanonical p = some p :=
  if_pos h

def serving : Config := { staticDir := bytes "/srv/static" }

def fetchOf (version : Option Version) : Fetch where
  amb := { Ambient.bare 0 with files := .holding version }
  ptr := {}
  cache := {}
  req := { target := bytes "/static/x" }
  clientIp := []
  version := version

theorem fetchOf_meets (version : Option Version) : (fetchOf version).Meets serving where
  asks := by
    change asksFile serving { target := bytes "/static/x" }
    decide
  shows := by
    have hfile : fileOf serving (fetchOf version).req = (bytes "/srv/static", bytes "x") := by
      change fileOf serving { target := bytes "/static/x" } = _
      decide
    have hjoin : joinPath (bytes "/srv/static") (bytes "x") = bytes "/srv/static/x" := by decide
    rw [hfile]
    refine ⟨by decide, bytes "/srv/static", bytes "/srv/static/x",
      FileSystem.holding_canonical (Or.inl rfl), ?_, by decide, rfl, rfl, ?_⟩
    · rw [hjoin]
      exact FileSystem.holding_canonical (Or.inr rfl)
    · rintro v rfl
      rfl

/-- An edit that takes the file away for a while, and one within the resolution of the
clock. -/
theorem showing_edited :
    showing .bare serving none ([some ⟨1, bytes "a"⟩, some ⟨1, bytes "a"⟩, none,
        some ⟨2, bytes "b"⟩].map fetchOf) =
      [some (bytes "a"), some (bytes "a"), none, some (bytes "b")] ∧
    showing .bare serving none ([some ⟨1, bytes "a"⟩, some ⟨1, bytes "b"⟩].map fetchOf) ≠
      [some (bytes "a"), some (bytes "b")] := by
  have hmeets : ∀ versions : List (Option Version), ∀ x ∈ versions.map fetchOf,
      x.Meets serving := by
    intro versions x hx
    obtain ⟨version, -, rfl⟩ := List.mem_map.1 hx
    exact fetchOf_meets version
  refine ⟨(showing_iff (hmeets _)).2 ?_, fun h => ?_⟩
  · simp [Noticed, fetchOf]
  · have hchain := (showing_iff (hmeets _)).1 h
    simp [Noticed, fetchOf] at hchain
    exact absurd hchain (by decide)

end SSize
