import SSize.Catalog.Query
import SSize.Handlers.FeedCache
import SSize.Handlers.Numbers
import SSize.Server.Clicks
import SSize.Templates.Item

/-!
# From a card of the feed to the partner

`item_to_json` and the templates put a link together, `dispatch` takes it apart: the
prefix, the identifier of the item and the position on the feed. A card has a link to
the item page and one to the redirect, and the item page has the latter again.
-/

namespace SSize

open Lib

/-! ## A link and its target -/

/-- A link under `root` for an item at a position. -/
def linkTo (cfg : Config) (root : Text) (n i : Int) : Text :=
  cfg.basePath ++ root ++ toText n ++ bytes "?p=" ++ toText i

abbrev question : UInt8 := '?'.toUInt8

variable {lib : Library} {cfg : Config} {root : Text} {n i : Int}

theorem splitTarget_linkTo (hbase : question ∉ cfg.basePath) (hroot : question ∉ root) :
    splitTarget (linkTo cfg root n i) =
      (cfg.basePath ++ (root ++ toText n), bytes "p=" ++ toText i) := by
  have hpath : question ∉ cfg.basePath ++ (root ++ toText n) := by
    rw [List.mem_append, List.mem_append]
    exact not_or.2 ⟨hbase, not_or.2 ⟨hroot, question_not_mem_toText n⟩⟩
  have hsign : bytes "?p=" = question :: bytes "p=" := by decide
  have hsplit : linkTo cfg root n i =
      (cfg.basePath ++ (root ++ toText n)) ++ question :: (bytes "p=" ++ toText i) := by
    simp only [linkTo, hsign, List.append_assoc, List.cons_append]
  rw [hsplit, splitTarget, takeWhile_bne_append hpath, dropWhile_bne_append hpath]
  rfl

/-- The prefix is stripped once, whatever it is. -/
theorem routePath_base {p : Text} (hp : p ≠ []) : routePath cfg (cfg.basePath ++ p) = p := by
  have hempty : p.isEmpty = false := by simpa [List.isEmpty_iff] using hp
  have hprefix : cfg.basePath.isPrefixOf (cfg.basePath ++ p) = true :=
    List.isPrefixOf_iff_prefix.2 (List.prefix_append _ _)
  by_cases hbase : cfg.basePath = []
  · simp [routePath, hbase, hempty]
  · have hbase' : cfg.basePath.isEmpty = false := by simpa [List.isEmpty_iff] using hbase
    simp [routePath, hbase', hprefix, hempty]

/-- The link of an item is a request for that item. -/
theorem requestedItem_linkTo (hbase : question ∉ cfg.basePath)
    (hroot : question ∉ root ∧ root ≠ []) (hlow : -2 ^ 63 ≤ n) (hhigh : n < 2 ^ 63)
    {req : HttpRequest} (hget : req.method = .get) (htarget : req.target = linkTo cfg root n i) :
    requestedItem root cfg req = some n := by
  have hpath : pathOf cfg req = root ++ toText n := by
    rw [pathOf, htarget, splitTarget_linkTo hbase hroot.1]
    exact routePath_base (by simp [hroot.2])
  have hprefix : root.isPrefixOf (root ++ toText n) = true :=
    List.isPrefixOf_iff_prefix.2 (List.prefix_append _ _)
  rw [requestedItem, hpath, if_pos ⟨hget, hprefix⟩, List.drop_left, parseInt_toText hlow hhigh]

/-- The position comes back out of the query of a link, when it is an `int`. -/
theorem positionOf_linkTo (n : Int) (hbase : question ∉ cfg.basePath) (hroot : question ∉ root)
    (hlow : -2 ^ 31 ≤ i) (hhigh : i < 2 ^ 31) :
    positionOf (parseQuery (splitTarget (linkTo cfg root n i)).2) = some i := by
  have hpair : bytes "p=" ++ toText i = encodePair (bytes "p", toText i) := by
    have hname : bytes "p=" = urlEncode (bytes "p") ++ ['='.toUInt8] := by decide
    rw [encodePair, urlEncode_toText, hname, List.append_assoc]
    rfl
  have hquery : parseQuery (bytes "p=" ++ toText i) (bytes "p") = some (toText i) := by
    rw [hpair, parseQuery, List.splitOn_eq_singleton (amp_not_mem_encodePair _),
      List.foldl_cons, parsePair_encodePair]
    simp [Query.insertOrAssign]
  have hread : parseInt (toText i) = some i := parseInt_toText (by omega) (by omega)
  rw [splitTarget_linkTo hbase hroot, positionOf, hquery]
  simp [hread, castInt_eq_self_iff.2 ⟨hlow, hhigh⟩]

/-! ## The links of a card and of the item page -/

def href (link : Text) : Text := bytes "href=\"" ++ link ++ bytes "\""

/-- The link that the picture and the title of a card have. -/
def cardItemLink (it : Json) : Text :=
  (it.field "url").print ++ bytes "?p=" ++ (it.field "position").print

/-- The link of the button, on a card and on the item page. -/
def outLink (item : Json) : Text := (item.field "out").print

theorem cardItemLink_eq (item : Item) :
    cardItemLink (itemToJson cfg item i) = linkTo cfg (bytes "/item/") item.id i := by
  unfold itemToJson
  cases item.oldPriceKopek <;> rfl

theorem outLink_eq (item : Item) :
    outLink (itemToJson cfg item i) = linkTo cfg (bytes "/r/") item.id i := by
  unfold itemToJson
  cases item.oldPriceKopek <;> rfl

theorem outLink_itemData (item : Item) (position : Option Int) :
    outLink ((itemData cfg item position).field "item") =
      linkTo cfg (bytes "/r/") item.id (position.getD (-1)) := by
  have hfield : (itemData cfg item position).field "item" =
      ((itemToJson cfg item (position.getD (-1))).set (bytes "description")
        (.string item.description)).set (bytes "images") (.array (item.images.map fun img =>
          Json.string (cfg.basePath ++ bytes "/media/" ++ img.path))) := rfl
  have himages : bytes "out" ≠ bytes "images" := by decide
  have hdescription : bytes "out" ≠ bytes "description" := by decide
  rw [hfield, ← outLink_eq, outLink, outLink, Json.field, Json.find?_set_of_ne himages,
    Json.find?_set_of_ne hdescription]
  rfl

/-- The literal in front of a link ends in `href` and its quote, the one behind it
begins with the other quote. -/
theorem href_infix {before behind : Text} (link : Text) {opening closing : Text}
    (hbefore : before = opening ++ bytes "href=\"") (hbehind : behind = bytes "\"" ++ closing)
    (rest : Text) : href link <:+: before ++ (link ++ (behind ++ rest)) := by
  refine ⟨opening, closing ++ rest, ?_⟩
  simp only [hbefore, hbehind, href, List.append_assoc]

theorem href_outLink_card (it : Json) : href (outLink it) <:+: card it := by
  have hopening : bytes "        <a class=\"buy\" href=\"" =
      bytes "        <a class=\"buy\" " ++ bytes "href=\"" := by decide
  have hclosing :
      bytes "\" target=\"_blank\" rel=\"noopener nofollow\">\n          Смотреть\n        </a>\n" =
        bytes "\"" ++ (bytes " target=\"_blank\" rel=\"noopener nofollow\">\n" ++
          bytes "          Смотреть\n        </a>\n") := by decide
  have hlink := href_infix (outLink it) hopening hclosing
  unfold card
  simp only [outLink, List.append_assoc] at hlink ⊢
  repeat first
    | with_reducible exact hlink _
    | refine List.infix_append_of_infix_right ?_

theorem href_cardItemLink_card (it : Json) : href (cardItemLink it) <:+: card it := by
  have hopening : bytes "\" data-surface=\"feed\">\n      <a class=\"card-media\" href=\"" =
      bytes "\" data-surface=\"feed\">\n      <a class=\"card-media\" " ++ bytes "href=\"" := by
    decide
  have hclosing : bytes "\">\n" = bytes "\"" ++ bytes ">\n" := by decide
  have hlink := href_infix (cardItemLink it) hopening hclosing
  unfold card
  simp only [cardItemLink, List.append_assoc] at hlink ⊢
  repeat first
    | with_reducible exact hlink _
    | refine List.infix_append_of_infix_right ?_

/-- The button of the item page. -/
theorem href_outLink_buyLink (item : Json) : href (outLink item) <:+: buyLink item := by
  have hopening : bytes "      <a class=\"buy buy-lg\" href=\"" =
      bytes "      <a class=\"buy buy-lg\" " ++ bytes "href=\"" := by decide
  have hclosing :
      bytes "\" target=\"_blank\" rel=\"noopener nofollow\">\n" ++
        bytes "        Перейти к товару\n      </a>\n\n" =
        bytes "\"" ++ (bytes " target=\"_blank\" rel=\"noopener nofollow\">\n" ++
          bytes "        Перейти к товару\n      </a>\n\n") := by decide
  have hlink := href_infix (outLink item) hopening hclosing []
  rw [List.append_nil] at hlink
  unfold buyLink
  simp only [outLink, List.append_assoc] at hlink ⊢
  exact hlink

theorem buyLink_itemHtml (data : Json) : buyLink (data.field "item") <:+: itemHtml data := by
  unfold itemHtml itemMain
  simp only [List.append_assoc]
  repeat first
    | with_reducible exact List.infix_append_left
    | refine List.infix_append_of_infix_right ?_

/-- Every item of the page has its card, at its position. -/
theorem card_feedHtml {catalog : Catalog} {tag size query : Text} {item : Item} {i : Nat}
    (hcard : (catalog.query tag size 0 120)[i]? = some item) :
    card (itemToJson cfg item i) <:+: feedHtml (feedData cfg catalog tag size query) := by
  have hitems : ((feedData cfg catalog tag size query).field "items").elements =
      (catalog.query tag size 0 120).zipIdx.map fun p => itemToJson cfg p.1 p.2 := rfl
  have hmem : (item, i) ∈ (catalog.query tag size 0 120).zipIdx :=
    List.mk_mem_zipIdx_iff_getElem?.2 hcard
  have hcards : card (itemToJson cfg item i) <:+:
      ((feedData cfg catalog tag size query).field "items").elements.flatMap card := by
    rw [hitems, List.flatMap_def]
    apply List.infix_of_mem_flatten
    rw [List.map_map]
    exact List.mem_map.2 ⟨(item, i), hmem, rfl⟩
  unfold feedHtml feedMain
  simp only [List.append_assoc]
  repeat first
    | with_reducible exact List.infix_append_of_infix_left hcards
    | refine List.infix_append_of_infix_right ?_

/-! ## Following the links -/

variable (lib cfg n i)

/-- The one event that a request queues, of this type and for the item at its position. -/
def QueuesClick (type : EventType) (effects : List Effect) : Prop :=
  ∃ ev, effects = [.event ev] ∧ ev.type = type ∧ ev.itemId = some n ∧ ev.position = some i

/-- A GET of `link` is routed to `handle_redirect`, and its click is queued as long
as the item is published. -/
structure LeadsToPartner (link : Text) : Prop where
  routed : ∀ (amb : Ambient) (catalog : Catalog) (req : HttpRequest) (clientIp : Text),
    req.method = .get → req.target = link →
      routed lib cfg amb catalog req clientIp =
        handleRedirect lib cfg amb catalog (visitOf amb req clientIp) n
          (parseQuery (splitTarget link).2)
  queued : ∀ (amb : Ambient) (ptr : CatalogPtr) (cache : FeedCache) (req : HttpRequest)
    (clientIp : Text), req.method = .get → req.target = link → ptr.catalog.find n ≠ none →
      QueuesClick n i .outbound (dispatch lib cfg amb ptr cache req clientIp).effects

/-- A GET of `link` queues the click on the card, and the item page that it answers
with has a link to the partner. -/
structure LeadsToItem (link : Text) : Prop where
  queued : ∀ (amb : Ambient) (ptr : CatalogPtr) (cache : FeedCache) (req : HttpRequest)
    (clientIp : Text), req.method = .get → req.target = link → ptr.catalog.find n ≠ none →
      QueuesClick n i .cardClick (dispatch lib cfg amb ptr cache req clientIp).effects
  page : ∀ (amb : Ambient) (ptr : CatalogPtr) (cache : FeedCache) (req : HttpRequest)
    (clientIp : Text) (item : Item), req.method = .get → req.target = link →
      ptr.catalog.find n = some item → RendersItemPage amb →
      let out := outLink ((itemData cfg item (some i)).field "item")
      (dispatch lib cfg amb ptr cache req clientIp).response.body =
          itemHtml (itemData cfg item (some i)) ∧
        href out <:+: itemHtml (itemData cfg item (some i)) ∧ LeadsToPartner lib cfg n i out

theorem dispatch_body (amb : Ambient) (ptr : CatalogPtr) (cache : FeedCache) (req : HttpRequest)
    (clientIp : Text) (hfeed : ¬ (req.method = .get ∧ pathOf cfg req = bytes "/")) :
    (dispatch lib cfg amb ptr cache req clientIp).response.body =
      ((routed lib cfg amb ptr.catalog req clientIp).result.getD
        (textResponse .internalServerError (bytes "internal error"))).body := by
  rw [dispatch_response lib cfg amb ptr cache req clientIp hfeed, finish_body]

section Follow

variable {cfg n i} (hbase : question ∉ cfg.basePath) (hlow : -2 ^ 63 ≤ n) (hhigh : n < 2 ^ 63)
  (hleast : -2 ^ 31 ≤ i) (hgreatest : i < 2 ^ 31)
include hbase hlow hhigh hleast hgreatest

theorem redirect_leadsToPartner : LeadsToPartner lib cfg n i (linkTo cfg (bytes "/r/") n i) := by
  have hrequested : ∀ req : HttpRequest, req.method = .get →
      req.target = linkTo cfg (bytes "/r/") n i → requestedItem (bytes "/r/") cfg req = some n :=
    fun req hget htarget => requestedItem_linkTo hbase (by decide) hlow hhigh hget htarget
  have hquery := positionOf_linkTo n hbase (show question ∉ bytes "/r/" by decide) hleast hgreatest
  constructor
  · intro amb catalog req clientIp hget htarget
    rw [routed_redirect lib amb (hrequested req hget htarget), htarget]
  · intro amb ptr cache req clientIp hget htarget hfind
    have hid := hrequested req hget htarget
    obtain ⟨item, hitem⟩ := Option.ne_none_iff_exists'.1 hfind
    rw [dispatch_effects_eq, if_neg (requestedItem_not_feed (by decide) hid),
      routed_redirect lib amb hid, htarget, handleRedirect, hitem]
    exact ⟨_, rfl, rfl, rfl, hquery⟩

theorem item_leadsToItem : LeadsToItem lib cfg n i (linkTo cfg (bytes "/item/") n i) := by
  have hrequested : ∀ req : HttpRequest, req.method = .get →
      req.target = linkTo cfg (bytes "/item/") n i →
      requestedItem (bytes "/item/") cfg req = some n :=
    fun req hget htarget => requestedItem_linkTo hbase (by decide) hlow hhigh hget htarget
  have hquery := positionOf_linkTo n hbase (show question ∉ bytes "/item/" by decide) hleast
    hgreatest
  constructor
  · intro amb ptr cache req clientIp hget htarget hfind
    have hid := hrequested req hget htarget
    obtain ⟨item, hitem⟩ := Option.ne_none_iff_exists'.1 hfind
    rw [dispatch_effects_eq, if_neg (requestedItem_not_feed (by decide) hid),
      routed_item lib amb hid, htarget, handleItem, hitem]
    exact ⟨_, rfl, rfl, rfl, hquery⟩
  · intro amb ptr cache req clientIp item hget htarget hitem hrenders
    have hid := hrequested req hget htarget
    have hitemId : item.id = n := by simpa using List.find?_some hitem
    have hout : outLink ((itemData cfg item (some i)).field "item") =
        linkTo cfg (bytes "/r/") n i := by
      rw [outLink_itemData, hitemId]
      rfl
    refine ⟨?_, ?_, ?_⟩
    · rw [dispatch_body lib cfg amb ptr cache req clientIp
        (requestedItem_not_feed (by decide) hid), routed_item lib amb hid, htarget, handleItem,
        hitem]
      simp only [hquery, hrenders cfg item (some i), Option.map_some, Option.getD_some]
      rfl
    · exact (href_outLink_buyLink _).trans (buyLink_itemHtml _)
    · rw [hout]
      exact redirect_leadsToPartner lib hbase hlow hhigh hleast hgreatest

end Follow

variable {cfg}

/-- The card of an item on the feed page, its two links and where they lead. -/
structure CardLeadsOn (lib : Library) (cfg : Config) (catalog : Catalog) (tag size query : Text)
    (item : Item) (i : Nat) : Prop where
  shown : card (itemToJson cfg item i) <:+: feedHtml (feedData cfg catalog tag size query)
  outHref : href (outLink (itemToJson cfg item i)) <:+: card (itemToJson cfg item i)
  itemHref : href (cardItemLink (itemToJson cfg item i)) <:+: card (itemToJson cfg item i)
  partner : LeadsToPartner lib cfg item.id i (outLink (itemToJson cfg item i))
  item : LeadsToItem lib cfg item.id i (cardItemLink (itemToJson cfg item i))

/-- No page has more than 120 cards. -/
theorem position_lt {catalog : Catalog} {tag size : Text} {item : Item} {i : Nat}
    (hcard : (catalog.query tag size 0 120)[i]? = some item) : i < 120 := by
  obtain ⟨hi, -⟩ := List.getElem?_eq_some_iff.1 hcard
  rw [Catalog.query_eq, List.length_take] at hi
  omega

/-- Whatever the prefix, the filters and the item are, the position of a card
reaches the redirect on both paths. -/
theorem card_leadsOn (hbase : question ∉ cfg.basePath) {catalog : Catalog} {tag size : Text}
    {item : Item} (hlow : -2 ^ 63 ≤ item.id) (hhigh : item.id < 2 ^ 63) {i : Nat}
    (hcard : (catalog.query tag size 0 120)[i]? = some item) (query : Text) :
    CardLeadsOn lib cfg catalog tag size query item i := by
  have hposition : (i : Int) < 120 := by exact_mod_cast position_lt hcard
  have hleast : -2 ^ 31 ≤ (i : Int) := by omega
  have hgreatest : (i : Int) < 2 ^ 31 := by omega
  refine ⟨card_feedHtml hcard, href_outLink_card _, href_cardItemLink_card _, ?_, ?_⟩
  · rw [outLink_eq]
    exact redirect_leadsToPartner lib hbase hlow hhigh hleast hgreatest
  · rw [cardItemLink_eq]
    exact item_leadsToItem lib hbase hlow hhigh hleast hgreatest

/-- The second card of a feed under a prefix, of an item with a negative identifier. -/
theorem card_leadsOn_prefixed :
    CardLeadsOn .bare { basePath := bytes "/shop" }
      (.ofRows [{ id := 4 }, { id := -7 }] []) [] [] [] { id := -7 } 1 :=
  card_leadsOn .bare (by decide) (by decide) (by decide) (by decide) []

end SSize
