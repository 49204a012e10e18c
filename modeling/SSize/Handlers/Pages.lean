import SSize.Handlers.Request
import SSize.Links

/-!
# The handlers (`handlers.cpp`)

Each one is given the snapshot that it takes from the handle at its start.
-/

namespace SSize

variable (lib : Library) (cfg : Config) (amb : Ambient)

/-! ## `item_to_json` -/

def imageUrl (cfg : Config) (item : Item) : Text :=
  match item.images with
  | [] => []
  | img :: _ =>
      cfg.basePath ++ bytes "/media/" ++ (if img.thumbPath.isEmpty then img.path else img.thumbPath)

def itemToJson (cfg : Config) (item : Item) (position : Int) : Json :=
  let oldPrice :=
    match item.oldPriceKopek with
    | some k => [(bytes "old_price", Json.integer (k.tdiv 100))]
    | none => []
  .object ([
    (bytes "id", .integer item.id),
    (bytes "title", .string item.title),
    (bytes "brand", .string item.brand),
    (bytes "price", .integer (item.priceKopek.tdiv 100))] ++ oldPrice ++ [
    (bytes "tags", .array (item.tags.map .string)),
    (bytes "sizes", .array (item.sizes.map .string)),
    (bytes "position", .integer position),
    (bytes "url", .string (cfg.basePath ++ bytes "/item/" ++ toText item.id)),
    (bytes "out", .string (cfg.basePath ++ bytes "/r/" ++ toText item.id ++ bytes "?p=" ++
      toText position)),
    (bytes "image", .string (imageUrl cfg item)),
    (bytes "colors", .array (item.colors.map fun c =>
      .object [(bytes "name", .string c.name), (bytes "hex", .string c.hex)]))])

/-! ## `GET /` -/

structure FeedCache where
  feedCacheFor : Option Nat := none
  pages : List (Text × Text) := []

/-- A new snapshot invalidates everything rendered from the old one. -/
def FeedCache.forSnapshot (cache : FeedCache) (serial : Nat) : FeedCache :=
  if cache.feedCacheFor = some serial then cache else { feedCacheFor := some serial }

def kMaxCachedFeeds : Nat := 64

def htmlPage (html : Text) : Response :=
  makeResponse .ok html (bytes "text/html; charset=utf-8")

def feedData (cfg : Config) (catalog : Catalog) (tag size query : Text) : Json :=
  let items := catalog.query tag size 0 120
  .object [
    (bytes "base", .string cfg.basePath),
    (bytes "page_title", .string (bytes "s-size — отобранные вещи")),
    (bytes "query", .string query),
    (bytes "metrica_counter", .integer cfg.metricaCounter),
    (bytes "active_tag", .string tag),
    (bytes "active_size", .string size),
    (bytes "items", .array (items.zipIdx.map fun (item, i) => itemToJson cfg item i)),
    (bytes "total", .integer catalog.size),
    (bytes "tags", .array (catalog.tags.map .string))]

/-- Impressions are not logged here, the page reports them. -/
def handleFeed (ptr : CatalogPtr) (cache : FeedCache) (q : Query) : FeedCache × Outcome :=
  let tag := (q (bytes "tag")).getD []
  let size := (q (bytes "size")).getD []
  let query := (q (bytes "q")).getD []
  let cache := cache.forSnapshot ptr.serial
  let cacheable := query.isEmpty
  let key := tag ++ [0x1f] ++ size
  match if cacheable then cache.pages.lookup key else none with
  | some html => (cache, .answer (htmlPage html))
  | none =>
      match amb.render (bytes "feed.html") (feedData cfg ptr.catalog tag size query) with
      | none => (cache, { result := none })
      | some html =>
          if cacheable && cache.pages.length < kMaxCachedFeeds then
            ({ cache with pages := (key, html) :: cache.pages }, .answer (htmlPage html))
          else (cache, .answer (htmlPage html))

/-! ## `GET /item/{id}` -/

def itemData (cfg : Config) (item : Item) (position : Option Int) : Json :=
  let images := item.images.map fun img => Json.string (cfg.basePath ++ bytes "/media/" ++ img.path)
  .object [
    (bytes "base", .string cfg.basePath),
    (bytes "page_title", .string (item.title ++ bytes " — s-size")),
    (bytes "query", .string []),
    (bytes "metrica_counter", .integer cfg.metricaCounter),
    (bytes "item", ((itemToJson cfg item (position.getD (-1))).set (bytes "description")
      (.string item.description)).set (bytes "images") (.array images))]

/-- The click is logged before the page is rendered, so it stays when that throws. -/
def handleItem (catalog : Catalog) (visit : Visit) (itemId : Int) (q : Query) : Outcome :=
  match catalog.find itemId with
  | none => .answer (textResponse .notFound (bytes "not found"))
  | some item =>
      let position := positionOf q
      let click := logEvent lib cfg visit (amb.clock 0)
        { type := .cardClick
          itemId := some itemId
          position := position
          surface := surfaceOf q
          source := visitSource q visit.referer }
      { effects := [click]
        result := (amb.render (bytes "item.html") (itemData cfg item position)).map htmlPage }

/-! ## `GET /r/{id}` -/

def foundResponse (target : Text) : Response :=
  (((Response.mk .found [] []).set (bytes "Location") target).set
    (bytes "Cache-Control") (bytes "no-store")).set (bytes "Referrer-Policy") (bytes "no-referrer")

def handleRedirect (catalog : Catalog) (visit : Visit) (itemId : Int) (q : Query) : Outcome :=
  match catalog.find itemId with
  | none => .answer (textResponse .notFound (bytes "not found"))
  | some item =>
      let partner := catalog.partner item.partnerId
      let token := makeClickToken amb.tokenDraw
      let click := logEvent lib cfg visit (amb.clock 0)
        { type := .outbound
          itemId := some itemId
          position := positionOf q
          surface := surfaceOf q
          clickToken := token
          source := visitSource q visit.referer }
      let target :=
        match partner with
        | some p => if p.enabled then outboundUrl item p token else item.productUrl
        | none => item.productUrl
      { effects := [click], result := some (foundResponse target), minted := some token }

/-! ## `GET /static/*` and `GET /media/*` -/

/-- `root / path(rel).relative_path()`. -/
def joinPath (root rel : Text) : Text :=
  let rel := rel.dropWhile (· == '/'.toUInt8)
  if root.isEmpty || root.getLast? == some '/'.toUInt8 then root ++ rel
  else root ++ '/'.toUInt8 :: rel

/-- `path.extension()`: from the last dot of the file name on, unless the name
starts with it. -/
def extension (path : Text) : Text :=
  let name := (path.reverse.takeWhile (· != '/'.toUInt8)).reverse
  let suffix := (name.reverse.takeWhile (· != '.'.toUInt8)).reverse
  if name = bytes ".." || suffix.length + 1 ≥ name.length then []
  else '.'.toUInt8 :: suffix

def mimeTypes : List (Text × Text) :=
  [(".css", "text/css; charset=utf-8"), (".js", "application/javascript; charset=utf-8"),
    (".svg", "image/svg+xml"), (".webp", "image/webp"), (".avif", "image/avif"),
    (".png", "image/png"), (".jpg", "image/jpeg"), (".jpeg", "image/jpeg")].map
    fun (ext, mime) => (bytes ext, bytes mime)

/-- The validator of a file. The error code that is looked at is the one of
`file_size`; a failed `last_write_time` reads as the earliest time. -/
def etagOf (files : FileSystem) (path : Text) : Option Text :=
  (files.fileSize path).map fun size =>
    bytes "\"" ++ toText ((files.lastWriteTime path).getD (-2 ^ 63)) ++ bytes "-" ++
      toText size ++ bytes "\""

def handleFile (req : HttpRequest) (root rel : Text) : Response :=
  let forbidden := textResponse .forbidden (bytes "forbidden")
  if bytes ".." <:+: rel then forbidden
  else
    -- The error code of the first call is overwritten by the second.
    let canonicalRoot := (amb.files.weaklyCanonical root).getD []
    match amb.files.weaklyCanonical (joinPath root rel) with
    | none => forbidden
    | some path =>
        if !canonicalRoot.isPrefixOf path then forbidden
        else
          let etag := etagOf amb.files path
          if etag = some req.ifNoneMatch then
            ((Response.mk .notModified [] []).set (bytes "ETag") req.ifNoneMatch).set
              (bytes "Cache-Control") (bytes "no-cache")
          else
            match amb.files.read path with
            | none => textResponse .notFound (bytes "not found")
            | some body =>
                let mime := (mimeTypes.lookup (extension path)).getD
                  (bytes "application/octet-stream")
                let res := (makeResponse .ok body mime).set
                  (bytes "Cache-Control") (bytes "no-cache")
                match etag with
                | some etag => res.set (bytes "ETag") etag
                | none => res

/-! ## `POST /api/ev` -/

def kMaxBatch : Nat := 200

def impressionOf (e : Json) : Option Event :=
  if !e.isObject then none
  else
    match e.integer? (bytes "item") with
    | none => none
    | some item =>
        some
          { type := .impression
            itemId := some (castInt64 item)
            position := (e.integer? (bytes "p")).map castInt
            surface := (e.string? (bytes "s")).getD [] }

/-- The loop of `handle_beacon` after `accepted` impressions. -/
def logImpressions (visit : Visit) : Nat → List Json → List Effect
  | _, [] => []
  | accepted, e :: rest =>
      if accepted ≥ kMaxBatch then []
      else
        match impressionOf e with
        | none => logImpressions visit accepted rest
        | some ev =>
            logEvent lib cfg visit (amb.clock accepted) ev ::
              logImpressions visit (accepted + 1) rest

def handleBeacon (visit : Visit) (body : Text) : Outcome :=
  match lib.parseJson body with
  | none => .answer (textResponse .badRequest (bytes "bad json"))
  | some (.array elements) =>
      { effects := logImpressions lib cfg amb visit 0 elements
        result := some (textResponse .noContent []) }
  | some _ => .answer (textResponse .badRequest (bytes "expected array"))

end SSize
