import SSize.Handlers.FeedCache
import SSize.Lib.Markup
import SSize.Templates.Feed

/-!
# The search text in the page

The page of the feed is a text in three parts: the header up to the search box, the
search text itself inside a quoted attribute value, and the rest. The tokenizer is
in the same state before and behind the search box whatever the text is, as long as
there is no quotation mark in it. With one the value ends there, and what it reads
as cannot be the whole text any more.
-/

namespace SSize

open Lib Lib.Markup

def searchBoxHead : Head := ⟨false, bytes "input"⟩

/-- The tags of a page where the search box, its first `input`, has this value. -/
def withSearchText (text : Text) : List Tag → List Tag
  | [] => []
  | t :: rest =>
      if t.head = searchBoxHead then t.setAttribute (bytes "value") text :: rest
      else t :: withSearchText text rest

def readTags (refs : References) (html : Text) : List Tag := (tags html).map (Tag.decode refs)

/-- The page has the tags and attributes of the one without search text, but for the
value of the search box, which reads as the text. -/
def MarkupKept (refs : References) (page plain text : Text) : Prop :=
  readTags refs page = withSearchText text (readTags refs plain)

instance (refs : References) (page plain text : Text) :
    Decidable (MarkupKept refs page plain text) :=
  inferInstanceAs (Decidable (_ = _))

/-- In a value between quotation marks the text is what it says: no quotation mark, no
reference, and no byte that is read as another one. -/
structure Inert (refs : References) (text : Text) : Prop where
  quote : '"'.toUInt8 ∉ text
  carriageReturn : '\r'.toUInt8 ∉ text
  nul : 0 ∉ text
  literal : refs.Literal text

/-! ## The header -/

/-- The run leads from one state to another and reads no `input` on the way. -/
structure Crosses (s : Lex) (x : Text) (t : Lex) : Prop where
  ends : (run s x).1 = t
  noInput : ∀ mark ∈ (run s x).2, mark ≠ .tag searchBoxHead

instance (s : Lex) (x : Text) (t : Lex) : Decidable (Crosses s x t) :=
  decidable_of_iff ((run s x).1 = t ∧ ∀ mark ∈ (run s x).2, mark ≠ .tag searchBoxHead)
    ⟨fun h => ⟨h.1, h.2⟩, fun h => ⟨h.ends, h.noInput⟩⟩

theorem Crosses.append {s t u : Lex} {x y : Text} (hx : Crosses s x t) (hy : Crosses t y u) :
    Crosses s (x ++ y) u := by
  have hrun := run_append s x y
  rw [hx.ends] at hrun
  constructor
  · rw [hrun]
    exact hy.ends
  · rw [hrun]
    intro mark hmark
    rcases List.mem_append.1 hmark with hmark | hmark
    · exact hx.noInput mark hmark
    · exact hy.noInput mark hmark

/-- Inside a value nothing but a quotation mark is markup. -/
theorem crosses_value (head : Head) {x : Text} (h : '"'.toUInt8 ∉ x) :
    Crosses (.doubleQuoted head) x (.doubleQuoted head) := by
  have hrun := run_doubleQuoted head h
  constructor
  · rw [hrun]
  · rw [hrun]
    intro mark hmark
    obtain ⟨c, -, rfl⟩ := List.mem_map.1 hmark
    simp

/-- The run over `x` leaves no attribute for a later tag. -/
def Completes (s : Lex) (x : Text) : Prop :=
  ∀ attrs, (run s x).2.foldl collect attrs = []

theorem completes_of_tag {s : Lex} {x : Text} {head : Head}
    (h : (run s x).2.getLast? = some (.tag head)) : Completes s x := by
  intro attrs
  obtain ⟨before, hmarks⟩ := List.getLast?_eq_some_iff.1 h
  rw [hmarks, List.foldl_append]
  simp [collect]

theorem Completes.append {s : Lex} {x y : Text} (h : Completes (run s x).1 y) :
    Completes s (x ++ y) := by
  intro attrs
  rw [run_append, List.foldl_append]
  exact h _

/-- A part of the page, newlines normalised, leads from one state to another, and the
rest of the page is read on its own. -/
structure Passes (s : Lex) (part x : Text) (t : Lex) : Prop where
  crosses : Crosses s x t
  apart : ∀ y, normalizeNewlines false (part ++ y) = x ++ normalizeNewlines false y

theorem Passes.append {s t u : Lex} {part part' x y : Text} (h : Passes s part x t)
    (h' : Passes t part' y u) : Passes s (part ++ part') (x ++ y) u where
  crosses := h.crosses.append h'.crosses
  apart z := by rw [List.append_assoc, h.apart, h'.apart, List.append_assoc]

theorem Passes.literal {s t : Lex} {x : Text} (hcr : '\r'.toUInt8 ∉ x) (h : Crosses s x t) :
    Passes s x x t where
  crosses := h
  apart := normalizeNewlines_plain_append hcr

/-- The text of the template behind a value, up to the next one or to plain text. -/
def Joins (head : Head) (z : Text) (t : Lex) : Prop :=
  Crosses (.doubleQuoted head) z t ∧ '\r'.toUInt8 ∉ z ∧
    z.head?.all (· != '\n'.toUInt8) = true ∧ z ≠ []

instance (head : Head) (z : Text) (t : Lex) : Decidable (Joins head z t) :=
  inferInstanceAs (Decidable (_ ∧ _))

/-- A value from outside and what the template goes on with. -/
theorem Passes.value {head : Head} {t : Lex} {x z : Text} (hquote : '"'.toUInt8 ∉ x)
    (hjoins : Joins head z t) :
    Passes (.doubleQuoted head) (x ++ z) (normalizeNewlines false x ++ z) t where
  crosses := by
    have hquoted := quote_notMem_normalizeNewlines false hquote
    exact (crosses_value head hquoted).append hjoins.1
  apart y := by
    rw [List.append_assoc, normalizeNewlines_before x hjoins.2.1 hjoins.2.2.1 hjoins.2.2.2,
      List.append_assoc]

variable (cfg : Config) (catalog : Catalog) (tag size : Text)

/-- The header leads back to plain text, whatever follows it. -/
theorem headerStart_passes (hbase : '"'.toUInt8 ∉ cfg.basePath) :
    ∃ x, Passes .data (headerStart (feedData cfg catalog tag size [])) x .data ∧
      Completes .data x := by
  have hprint : ((feedData cfg catalog tag size []).field "base").print = cfg.basePath := rfl
  have htitle : ((feedData cfg catalog tag size []).field "page_title").print =
      bytes "s-size — отобранные вещи" := rfl
  have hopening : Passes .data
      (headerOpening ++ bytes "s-size — отобранные вещи" ++ headerStyle) _
      (.doubleQuoted ⟨false, bytes "link"⟩) := .literal (by decide +kernel) (by decide +kernel)
  have hicon : Passes _ (cfg.basePath ++ headerIcon) _ (.doubleQuoted ⟨false, bytes "link"⟩) :=
    .value hbase (by decide +kernel : Joins ⟨false, bytes "link"⟩ _ _)
  have hbody : Passes _ (cfg.basePath ++ headerBody) _ (.doubleQuoted ⟨false, bytes "body"⟩) :=
    .value hbase (by decide +kernel : Joins ⟨false, bytes "link"⟩ _ _)
  have hlogo : Passes _ (cfg.basePath ++ headerLogo) _ (.doubleQuoted ⟨false, bytes "a"⟩) :=
    .value hbase (by decide +kernel : Joins ⟨false, bytes "body"⟩ _ _)
  have hform : Passes _ (cfg.basePath ++ headerForm) _ (.doubleQuoted ⟨false, bytes "form"⟩) :=
    .value hbase (by decide +kernel : Joins ⟨false, bytes "a"⟩ _ _)
  have hsearch : Passes _ (cfg.basePath ++ headerSearch) _ .data :=
    .value hbase (by decide +kernel : Joins ⟨false, bytes "form"⟩ _ _)
  have hbefore := (((hopening.append hicon).append hbody).append hlogo).append hform
  have hall := hbefore.append hsearch
  have hcompletes : Completes (.doubleQuoted ⟨false, bytes "form"⟩) headerSearch :=
    completes_of_tag (by decide +kernel :
      (run (.doubleQuoted ⟨false, bytes "form"⟩) headerSearch).2.getLast? =
        some (.tag ⟨false, bytes "form"⟩))
  have hquoted := quote_notMem_normalizeNewlines false hbase
  have hpage : headerStart (feedData cfg catalog tag size []) =
      headerOpening ++ bytes "s-size — отобранные вещи" ++ headerStyle ++
        (cfg.basePath ++ headerIcon) ++ (cfg.basePath ++ headerBody) ++
        (cfg.basePath ++ headerLogo) ++ (cfg.basePath ++ headerForm) ++
        (cfg.basePath ++ headerSearch) := by
    simp only [headerStart, hprint, htitle, List.append_assoc]
  rw [hpage]
  refine ⟨_, hall, ?_⟩
  apply Completes.append
  rw [hbefore.crosses.ends]
  apply Completes.append
  rw [(crosses_value _ hquoted).ends]
  exact hcompletes

/-! ## The search box -/

/-- The search box of the page that shows this value in it. -/
def searchBox (value : Text) : Tag :=
  ⟨searchBoxHead, [(bytes "type", bytes "search"), (bytes "name", bytes "q"),
    (bytes "placeholder", bytes "Поиск по каталогу"), (bytes "value", value),
    (bytes "aria-label", bytes "Поиск по каталогу")]⟩

/-- Its attributes up to the value, the newest first. -/
def searchBoxSoFar (value : Text) : List Attribute :=
  [(bytes "value", value), (bytes "placeholder", bytes "Поиск по каталогу"),
    (bytes "name", bytes "q"), (bytes "type", bytes "search")]

theorem run_searchBoxStart :
    (run .data searchBoxStart).1 = .doubleQuoted searchBoxHead ∧
      assemble [] (run .data searchBoxStart).2 = [] ∧
      (run .data searchBoxStart).2.foldl collect [] = searchBoxSoFar [] := by
  decide +kernel

theorem run_searchBoxEnd :
    run (.doubleQuoted searchBoxHead) searchBoxEnd =
      (.data, .newAttribute :: ((bytes "aria-label").map .nameByte ++
        ((bytes "Поиск по каталогу").map .valueByte ++ [.tag searchBoxHead]))) := by
  decide +kernel

/-- The rest of the search box and what comes behind it. -/
theorem assemble_searchBoxEnd (value : Text) (y : Text) :
    assemble (searchBoxSoFar value) (run (.doubleQuoted searchBoxHead) (searchBoxEnd ++ y)).2 =
      searchBox value :: assemble [] (run .data y).2 := by
  have hdistinct : distinct ((bytes "aria-label", bytes "Поиск по каталогу") ::
      searchBoxSoFar value) = (bytes "aria-label", bytes "Поиск по каталогу") ::
      searchBoxSoFar value := by
    simp only [distinct, searchBoxSoFar]
    rfl
  rw [run_of_parts run_searchBoxEnd, List.cons_append, List.append_assoc, List.append_assoc]
  calc assemble (([], []) :: searchBoxSoFar value) _
      = assemble ((bytes "aria-label", []) :: searchBoxSoFar value) _ :=
        assemble_names [] [] _ _ _
    _ = assemble ((bytes "aria-label", bytes "Поиск по каталогу") :: searchBoxSoFar value)
          (.tag searchBoxHead :: (run .data y).2) := assemble_values _ [] _ _ _
    _ = searchBox value :: assemble [] (run .data y).2 := by
        rw [assemble, hdistinct]
        rfl

/-- The tags of the page, newlines normalised: those of the header, then what is made
of the search text and of all behind it. -/
theorem assemble_page {x : Text} (hcrosses : Crosses .data x .data) (hcompletes : Completes .data x)
    (y : Text) :
    assemble [] (run .data (x ++ (searchBoxStart ++ y))).2 =
      assemble [] (run .data x).2 ++
        assemble (searchBoxSoFar []) (run (.doubleQuoted searchBoxHead) y).2 := by
  obtain ⟨hstate, hnone, hsoFar⟩ := run_searchBoxStart
  rw [run_append, hcrosses.ends, assemble_append, hcompletes [], run_append, hstate,
    assemble_append, hnone, hsoFar, List.nil_append]

/-- The header has no search box. -/
theorem head_ne_searchBoxHead {x : Text} (hcrosses : Crosses .data x .data) {t : Tag}
    (ht : t ∈ assemble [] (run .data x).2) : t.head ≠ searchBoxHead := by
  intro hhead
  exact hcrosses.noInput _ (mark_of_mem_assemble ht) (by rw [hhead])

/-- Without a quotation mark the text is the value of the search box. -/
theorem assemble_value {q : Text} (hq : '"'.toUInt8 ∉ q) (y : Text) :
    assemble (searchBoxSoFar [])
        (run (.doubleQuoted searchBoxHead) (q ++ (searchBoxEnd ++ y))).2 =
      searchBox (shown q) :: assemble [] (run .data y).2 := by
  rw [run_of_parts (run_doubleQuoted searchBoxHead hq)]
  exact (assemble_values (bytes "value") [] _ (shown q) _).trans (assemble_searchBoxEnd _ y)

/-- A quotation mark ends the value, and the tag, if it is completed at all, keeps it. -/
theorem assemble_quoted {u : Text} (hu : '"'.toUInt8 ∉ u) (y : Text) :
    assemble (searchBoxSoFar [])
        (run (.doubleQuoted searchBoxHead) (u ++ '"'.toUInt8 :: y)).2 = [] ∨
      ∃ t rest, assemble (searchBoxSoFar [])
          (run (.doubleQuoted searchBoxHead) (u ++ '"'.toUInt8 :: y)).2 = t :: rest ∧
        t.attributes.lookup (bytes "value") = some (shown u) := by
  have hrun : run (.doubleQuoted searchBoxHead) ('"'.toUInt8 :: y) =
      run (.afterAttributeValue searchBoxHead) y := rfl
  have hvalue : assemble (searchBoxSoFar [])
      (run (.doubleQuoted searchBoxHead) (u ++ '"'.toUInt8 :: y)).2 =
        assemble ([] ++ searchBoxSoFar (shown u))
          (run (.afterAttributeValue searchBoxHead) y).2 := by
    rw [run_of_parts (run_doubleQuoted searchBoxHead hu), hrun]
    exact assemble_values _ [] _ _ _
  have hlookup : (distinct (searchBoxSoFar (shown u))).reverse.lookup (bytes "value") =
      some (shown u) := by
    simp only [distinct, searchBoxSoFar]
    rfl
  rw [hvalue]
  rcases first_tag (searchBoxSoFar (shown u)) y (Or.inl (.afterAttributeValue)) with h | h
  · exact Or.inl h
  · obtain ⟨newer, rest, h⟩ := h
    exact Or.inr ⟨_, rest, h, lookup_distinct_append hlookup newer⟩

/-! ## The two pages -/

variable {cfg catalog tag size} (q : Text)

/-- Behind the header the tokenizer is at the beginning of the search text. -/
theorem tags_page {x : Text}
    (hpasses : Passes .data (headerStart (feedData cfg catalog tag size [])) x .data)
    (hcompletes : Completes .data x) :
    tags (feedHtml (feedData cfg catalog tag size q)) =
      assemble [] (run .data x).2 ++
        assemble (searchBoxSoFar []) (run (.doubleQuoted searchBoxHead) (normalizeNewlines false
          (q ++ (searchBoxEnd ++ afterSearchBox (feedData cfg catalog tag size []))))).2 := by
  have hplain : '\r'.toUInt8 ∉ searchBoxStart := by decide +kernel
  rw [tags, feedHtml_eq, hpasses.apart, normalizeNewlines_plain_append hplain,
    assemble_page hpasses.crosses hcompletes]

variable {q} in
theorem normalizeNewlines_value (y : Text) :
    normalizeNewlines false (q ++ (searchBoxEnd ++ y)) =
      normalizeNewlines false q ++ (searchBoxEnd ++ normalizeNewlines false y) :=
  normalizeNewlines_before q (by decide +kernel) (by decide) (by decide) y

variable (refs : References)

theorem withSearchText_append {before : List Tag}
    (hbefore : ∀ t ∈ before, t.head ≠ searchBoxHead) (text : Text) (rest : List Tag) :
    withSearchText text (before ++ rest) = before ++ withSearchText text rest := by
  induction before with
  | nil => rfl
  | cons t before ih =>
      have ht := hbefore t List.mem_cons_self
      rw [List.cons_append, withSearchText, if_neg ht,
        ih fun t' ht' => hbefore t' (List.mem_cons_of_mem _ ht'), List.cons_append]

/-- The search box of the page without search text, with this value. -/
def searchBoxWith (text : Text) : Tag :=
  ((searchBox []).decode refs).setAttribute (bytes "value") text

/-- What follows the same header must be the search box with the text, and the same rest. -/
theorem markupKept_iff {page plain : Text} {before late behind : List Tag}
    (hpage : tags page = before ++ late) (hplain : tags plain = before ++ searchBox [] :: behind)
    (hbefore : ∀ t ∈ before, t.head ≠ searchBoxHead) :
    MarkupKept refs page plain q ↔
      late.map (Tag.decode refs) = searchBoxWith refs q :: behind.map (Tag.decode refs) := by
  have hheads : ∀ t ∈ before.map (Tag.decode refs), t.head ≠ searchBoxHead := by
    intro t ht
    obtain ⟨t', ht', rfl⟩ := List.mem_map.1 ht
    exact hbefore t' ht'
  have hsearchBox : withSearchText q ((searchBox []).decode refs :: behind.map (Tag.decode refs)) =
      searchBoxWith refs q :: behind.map (Tag.decode refs) := if_pos rfl
  rw [MarkupKept, readTags, readTags, hpage, hplain, List.map_append, List.map_append,
    List.map_cons, withSearchText_append hheads, hsearchBox, List.append_cancel_left_eq]

/-- Of the search box only the value may differ. -/
theorem decode_searchBox_eq_iff (value text : Text) :
    (searchBox value).decode refs = searchBoxWith refs text ↔ refs.decode value = text := by
  have htype : bytes "type" ≠ bytes "value" := by decide
  have hname : bytes "name" ≠ bytes "value" := by decide
  have hplaceholder : bytes "placeholder" ≠ bytes "value" := by decide
  have hlabel : bytes "aria-label" ≠ bytes "value" := by decide
  simp [searchBoxWith, searchBox, Tag.decode, Tag.setAttribute, htype, hname, hplaceholder, hlabel]

theorem lookup_searchBoxWith (text : Text) :
    (searchBoxWith refs text).attributes.lookup (bytes "value") = some text := by
  rfl

theorem lookup_decode (t : Tag) (name : Text) :
    (t.decode refs).attributes.lookup name = (t.attributes.lookup name).map refs.decode := by
  obtain ⟨head, attributes⟩ := t
  simp only [Tag.decode]
  induction attributes with
  | nil => rfl
  | cons a attributes ih =>
      rw [List.map_cons, List.lookup_cons, List.lookup_cons, ih]
      split <;> rfl

/-- The page keeps its markup exactly when the search text is its own value. -/
theorem markupKept_feedHtml (hbase : '"'.toUInt8 ∉ cfg.basePath) :
    MarkupKept refs (feedHtml (feedData cfg catalog tag size q))
        (feedHtml (feedData cfg catalog tag size [])) q ↔
      '"'.toUInt8 ∉ q ∧ readValue refs q = q := by
  obtain ⟨x, hpasses, hcompletes⟩ := headerStart_passes cfg catalog tag size hbase
  have hbefore : ∀ t ∈ assemble [] (run .data x).2, t.head ≠ searchBoxHead :=
    fun t => head_ne_searchBoxHead hpasses.crosses
  have hplain := tags_page [] hpasses hcompletes
  rw [normalizeNewlines_value, normalizeNewlines, assemble_value List.not_mem_nil] at hplain
  have hpage := tags_page q hpasses hcompletes
  rw [markupKept_iff q refs hpage hplain hbefore]
  by_cases hq : '"'.toUInt8 ∈ q
  · obtain ⟨u, w, rfl, hu⟩ := List.eq_append_cons_of_mem hq
    have hquoted := quote_notMem_normalizeNewlines false hu
    refine ⟨fun hkept => ?_, fun h => absurd hq h.1⟩
    rw [List.append_assoc, List.cons_append,
      normalizeNewlines_append_cons u (by decide) (by decide),
      normalizeNewlines_cons (by decide) (by decide)] at hkept
    rcases assemble_quoted hquoted (normalizeNewlines false _) with hnone | ⟨t, rest, htag, hvalue⟩
    · rw [hnone] at hkept
      exact absurd hkept (List.cons_ne_nil _ _).symm
    · rw [htag, List.map_cons, List.cons.injEq] at hkept
      have hread : readValue refs u = u ++ '"'.toUInt8 :: w := by
        have hlookup := lookup_decode refs t (bytes "value")
        rw [hkept.1, lookup_searchBoxWith, hvalue, Option.map_some, Option.some.injEq] at hlookup
        exact hlookup.symm
      exact absurd hread (readValue_ne_append refs u (List.cons_ne_nil _ _))
  · have hquoted := quote_notMem_normalizeNewlines false hq
    rw [normalizeNewlines_value, assemble_value hquoted, List.map_cons, List.cons.injEq,
      decode_searchBox_eq_iff]
    exact ⟨fun h => ⟨hq, h.1⟩, fun h => ⟨h.2, rfl⟩⟩

theorem inert_iff : Inert refs q ↔ '"'.toUInt8 ∉ q ∧ readValue refs q = q := by
  rw [readValue_eq_self_iff]
  constructor
  · intro h
    exact ⟨h.quote, h.nul, h.carriageReturn, h.literal⟩
  · rintro ⟨hquote, hnul, hcr, hliteral⟩
    exact ⟨hquote, hcr, hnul, hliteral⟩

/-! ## The answer to `GET /` -/

def feedRequest (ptr : CatalogPtr) (req : HttpRequest) : FeedRequest := ⟨ptr, feedQuery req⟩

variable {amb amb' : Ambient} {ptr : CatalogPtr} {cache : FeedCache} {req plain : HttpRequest}

theorem freshBody_of_rendersFeed (hrender : RendersFeed amb) (r : FeedRequest) :
    r.freshBody cfg amb.render = feedHtml (r.data cfg) := by
  have hpage := hrender cfg r.snapshot.catalog r.tag r.size r.text
  rw [FeedRequest.freshBody, FeedRequest.data, hpage, Option.getD_some]

/-- The answer to a feed request is the page of the templates. -/
theorem dispatch_feed_body (lib : Library) (clientIp : Text) (hrender : RendersFeed amb)
    (hfeed : isFeed cfg req = true)
    (hown : (feedRequest ptr req).text = [] →
      (feedRequest ptr req).OwnPage cfg amb.render cache) :
    (dispatch lib cfg amb ptr cache req clientIp).response.body =
      feedHtml ((feedRequest ptr req).data cfg) := by
  have hanswer := dispatch_feed lib amb.render cache ptr amb clientIp hfeed
  exact (hanswer.body_of_ownPage hown).trans (freshBody_of_rendersFeed hrender _)

/-- Without search text the page depends on the filter only. -/
theorem ownPage_of_filter {r p : FeedRequest} (hrender : RendersFeed amb)
    (hrender' : RendersFeed amb') (hsnapshot : r.snapshot = p.snapshot) (htag : r.tag = p.tag)
    (hsize : r.size = p.size) (htext : r.text = p.text) (hown : p.OwnPage cfg amb'.render cache) :
    r.OwnPage cfg amb.render cache := by
  intro html hlookup
  have hkey : r.key = p.key := by rw [FeedRequest.key, FeedRequest.key, htag, hsize]
  have hdata : r.data cfg = p.data cfg := by
    rw [FeedRequest.data, FeedRequest.data, hsnapshot, htag, hsize, htext]
  rw [hsnapshot, hkey] at hlookup
  rw [hown html hlookup, freshBody_of_rendersFeed hrender', freshBody_of_rendersFeed hrender, hdata]

/-- Against the page for the same filter without search text: the tags and attributes
are the same, and the search box reads as the text, exactly when the text is inert. -/
theorem searchText_inert_iff (refs : References) (lib : Library) (cfg : Config)
    (amb amb' : Ambient) (ptr : CatalogPtr) (cache : FeedCache) (req plain : HttpRequest)
    (clientIp clientIp' : Text) (hbase : '"'.toUInt8 ∉ cfg.basePath)
    (hrender : RendersFeed amb) (hrender' : RendersFeed amb')
    (hreq : isFeed cfg req = true) (hplain : isFeed cfg plain = true)
    (htag : (feedRequest ptr req).tag = (feedRequest ptr plain).tag)
    (hsize : (feedRequest ptr req).size = (feedRequest ptr plain).size)
    (hempty : (feedRequest ptr plain).text = [])
    (hown : (feedRequest ptr plain).OwnPage cfg amb'.render cache) :
    MarkupKept refs (dispatch lib cfg amb ptr cache req clientIp).response.body
        (dispatch lib cfg amb' ptr cache plain clientIp').response.body
        (feedRequest ptr req).text ↔
      Inert refs (feedRequest ptr req).text := by
  have hownReq : (feedRequest ptr req).text = [] →
      (feedRequest ptr req).OwnPage cfg amb.render cache := by
    intro htext
    have hsnapshot : (feedRequest ptr req).snapshot = (feedRequest ptr plain).snapshot := rfl
    exact ownPage_of_filter hrender hrender' hsnapshot htag hsize (htext.trans hempty.symm) hown
  have hreqBody := dispatch_feed_body lib clientIp hrender hreq hownReq
  have hplainBody := dispatch_feed_body lib clientIp' hrender' hplain fun _ => hown
  have hplainData : (feedRequest ptr plain).data cfg =
      feedData cfg ptr.catalog (feedRequest ptr req).tag (feedRequest ptr req).size [] := by
    rw [FeedRequest.data, hempty, ← htag, ← hsize]
    rfl
  rw [hreqBody, hplainBody, hplainData, inert_iff]
  exact markupKept_feedHtml _ refs hbase

/-! ## A shirt and a script -/

/-- The references that every page writer knows. -/
def fewNames : List (Text × Text) :=
  [("amp;", "&"), ("lt;", "<"), ("gt;", ">"), ("quot;", "\"")].map fun (name, shown) =>
    (bytes name, bytes shown)

def readFew (rest : Text) : Option (Text × Nat) :=
  fewNames.findSome? fun (name, shown) =>
    if name.isPrefixOf rest then some (shown, name.length) else none

theorem readFew_eq_some {rest shown : Text} {n : Nat} (h : readFew rest = some (shown, n)) :
    ∃ name, (name, shown) ∈ fewNames ∧ name <+: rest ∧ n = name.length := by
  obtain ⟨⟨name, shown'⟩, hmem, hfound⟩ := List.exists_of_findSome?_eq_some h
  simp only at hfound
  split at hfound
  · next hstarts =>
      simp only [Option.some.injEq, Prod.mk.injEq] at hfound
      obtain ⟨rfl, rfl⟩ := hfound
      exact ⟨name, hmem, List.isPrefixOf_iff_prefix.1 hstarts, rfl⟩
  · simp at hfound

def fewReferences : References where
  read := readFew
  ampersand h := by
    obtain ⟨name, hmem, -, -⟩ := readFew_eq_some h
    have hall : ∀ a ∈ fewNames, '&'.toUInt8 ∉ a.2 ∨ a.2 = ['&'.toUInt8] := by decide
    exact hall _ hmem
  visible h := by
    obtain ⟨name, hmem, -, -⟩ := readFew_eq_some h
    have hall : ∀ a ∈ fewNames, 0 ∉ a.2 := by decide
    exact hall _ hmem
  consumes h := by
    obtain ⟨name, hmem, hstarts, rfl⟩ := readFew_eq_some h
    have hall : ∀ a ∈ fewNames, 0 < a.1.length := by decide
    exact ⟨hall _ hmem, hstarts.length_le⟩

/-- An engine that renders the feed only. -/
def feedOnly : Ambient := { Ambient.bare 0 with render := fun _ data => some (feedHtml data) }

theorem rendersFeed_feedOnly : RendersFeed feedOnly := fun _ _ _ _ _ => rfl

/-- The search for a shirt changes nothing but the value of the search box. -/
theorem searchText_inert_shirt :
    MarkupKept fewReferences
      (dispatch .bare {} feedOnly {} {} { target := bytes "/?q=shirt" } []).response.body
      (dispatch .bare {} feedOnly {} {} { target := bytes "/" } []).response.body
      (bytes "shirt") := by
  have hinert : Inert fewReferences (bytes "shirt") := by
    refine ⟨by decide, by decide, by decide, ?_⟩
    intro rest hsuffix
    have hmem : '&'.toUInt8 ∈ bytes "shirt" := hsuffix.subset List.mem_cons_self
    exact absurd hmem (by decide)
  exact (searchText_inert_iff fewReferences .bare {} feedOnly feedOnly {} {}
    { target := bytes "/?q=shirt" } { target := bytes "/" } [] [] (by decide)
    rendersFeed_feedOnly rendersFeed_feedOnly (by decide) (by decide) (by decide) (by decide)
    (by decide) (fun html hlookup => by simp [FeedCache.forSnapshot] at hlookup)).2 hinert

/-- The search for `"><script>` ends the search box and adds a tag. -/
theorem searchText_adds_script :
    ¬ ∀ (refs : References) (lib : Library) (cfg : Config) (amb : Ambient) (ptr : CatalogPtr)
        (req plain : HttpRequest) (clientIp : Text), '"'.toUInt8 ∉ cfg.basePath → RendersFeed amb →
      isFeed cfg req = true → isFeed cfg plain = true →
      (feedRequest ptr req).tag = (feedRequest ptr plain).tag →
      (feedRequest ptr req).size = (feedRequest ptr plain).size →
      (feedRequest ptr plain).text = [] →
      MarkupKept refs (dispatch lib cfg amb ptr {} req clientIp).response.body
        (dispatch lib cfg amb ptr {} plain clientIp).response.body (feedRequest ptr req).text := by
  intro h
  have hkept := h fewReferences .bare {} feedOnly {} { target := bytes "/?q=%22%3E%3Cscript%3E" }
    { target := bytes "/" } [] (by decide) rendersFeed_feedOnly (by decide) (by decide)
    (by decide) (by decide) (by decide)
  exact absurd hkept (by decide +kernel)

end SSize
