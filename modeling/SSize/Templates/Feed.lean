import SSize.Handlers.Pages

/-!
# The feed page (`feed.html`, `_header.html`, `_footer.html`)

Each template is the function from its data to the text that inja makes of it, with
the newlines and blanks gone that `trim_blocks` and `lstrip_blocks` take away. An
expression prints its value as it is: nothing switches HTML escaping on.
-/

namespace SSize

/-! ## Values in a template -/

namespace Json

/-- `name` or `it.name`. inja throws where it is missing, which no template meets
with the data of its handler. -/
def field (j : Json) (name : String) : Json := (j.find? (bytes name)).getD .null

/-- `x` between double braces. Only strings and integers are printed. -/
def print : Json → Text
  | .string s => s
  | .integer n => toText n
  | _ => []

def elements : Json → List Json
  | .array elements => elements
  | _ => []

/-- `a == b` of two strings. -/
def same : Json → Json → Bool
  | .string s, .string t => s == t
  | _, _ => false

/-- `n > 0`. -/
def positive : Json → Bool
  | .integer n => decide (0 < n)
  | _ => false

end Json

/-! ## `_header.html` -/

def headerOpening : Text :=
  bytes "<!doctype html>\n<html lang=\"ru\">\n<head>\n<meta charset=\"utf-8\">\n" ++
  bytes "<meta name=\"viewport\" content=\"width=device-width, initial-scale=1\">\n<title>"

def headerStyle : Text := bytes "</title>\n<link rel=\"stylesheet\" href=\""

def headerIcon : Text := bytes "/static/style.css\">\n<link rel=\"icon\" href=\""

def headerBody : Text :=
  bytes "/static/favicon.svg\" type=\"image/svg+xml\">\n</head>\n<body data-base=\""

def headerLogo : Text :=
  bytes "\">\n\n<header class=\"topbar\">\n  <a class=\"logo\" href=\""

def headerForm : Text :=
  bytes "/\">\n    <span class=\"logo-mark\">s</span><span class=\"logo-text\">-size</span>\n" ++
  bytes "  </a>\n  <form class=\"search\" action=\""

def headerSearch : Text := bytes "/\" method=\"get\" role=\"search\">\n"

/-- Up to the search box. -/
def headerStart (data : Json) : Text :=
  let base := (data.field "base").print
  headerOpening ++ (data.field "page_title").print ++ headerStyle ++ base ++ headerIcon ++ base ++
    headerBody ++ base ++ headerLogo ++ base ++ headerForm ++ base ++ headerSearch

def searchBoxStart : Text :=
  bytes "    <input type=\"search\" name=\"q\" placeholder=\"Поиск по каталогу\"\n" ++
  bytes "           value=\""

def searchBoxEnd : Text := bytes "\" aria-label=\"Поиск по каталогу\">\n"

def header (data : Json) : Text :=
  headerStart data ++ searchBoxStart ++ (data.field "query").print ++ searchBoxEnd ++
  bytes "  </form>\n</header>\n"

/-! ## `feed.html` -/

def chipOn (on : Bool) : Text := if on then bytes "chip-on" else []

def chips (data : Json) : Text :=
  let base := (data.field "base").print
  bytes "  <nav class=\"chips\" aria-label=\"Фильтры\">\n    <a class=\"chip " ++
  chipOn ((data.field "active_tag").same (.string [])) ++ bytes "\" href=\"" ++ base ++
  bytes "/\">всё</a>\n" ++
  (data.field "tags").elements.flatMap (fun tag =>
    bytes "    <a class=\"chip " ++ chipOn (tag.same (data.field "active_tag")) ++
    bytes "\"\n       href=\"" ++ base ++ bytes "/?tag=" ++ tag.print ++ bytes "\">" ++
    tag.print ++ bytes "</a>\n") ++
  bytes "  </nav>\n"

def card (it : Json) : Text :=
  bytes "    <article class=\"card\" data-item=\"" ++ (it.field "id").print ++
  bytes "\" data-pos=\"" ++ (it.field "position").print ++
  bytes "\" data-surface=\"feed\">\n      <a class=\"card-media\" href=\"" ++
  (it.field "url").print ++ bytes "?p=" ++ (it.field "position").print ++ bytes "\">\n" ++
  (if !(it.field "image").same (.string []) then
    bytes "        <img src=\"" ++ (it.field "image").print ++ bytes "\" alt=\"" ++
    (it.field "title").print ++ bytes "\" loading=\"lazy\" decoding=\"async\">\n"
  else bytes "        <div class=\"ph\" aria-hidden=\"true\"></div>\n") ++
  (if (it.find? (bytes "old_price")).isSome then bytes "<span class=\"badge\">sale</span>"
  else []) ++
  bytes "      </a>\n\n      <div class=\"card-body\">\n        <a class=\"card-title\" href=\"" ++
  (it.field "url").print ++ bytes "?p=" ++ (it.field "position").print ++ bytes "\">" ++
  (it.field "title").print ++ bytes "</a>\n" ++
  (if !(it.field "brand").same (.string []) then
    bytes "<span class=\"card-brand\">" ++ (it.field "brand").print ++ bytes "</span>"
  else []) ++
  bytes "\n        <div class=\"price-row\">\n          <span class=\"price\">" ++
  (it.field "price").print ++ bytes " ₽</span>\n" ++
  (if (it.find? (bytes "old_price")).isSome then
    bytes "          <span class=\"price-old\">" ++ (it.field "old_price").print ++
    bytes " ₽</span>\n"
  else []) ++
  bytes "        </div>\n\n        <div class=\"sizes\">\n" ++
  (it.field "sizes").elements.flatMap (fun s =>
    bytes "<span class=\"size\">" ++ s.print ++ bytes "</span>") ++
  bytes "        </div>\n\n" ++
  bytes "        <!-- Straight from the card to the product, as the concept asks. The\n" ++
  bytes "             href goes through /r/ so the click is counted exactly once. -->\n" ++
  bytes "        <a class=\"buy\" href=\"" ++ (it.field "out").print ++
  bytes "\" target=\"_blank\" rel=\"noopener nofollow\">\n          Смотреть\n        </a>\n" ++
  bytes "      </div>\n    </article>\n"

def feedMain (data : Json) : Text :=
  let items := (data.field "items").elements
  bytes "\n<main class=\"feed\">\n" ++ chips data ++ bytes "\n" ++
  (if items.isEmpty then
    bytes "  <p class=\"empty\">Здесь пока пусто. Каталог наполняется.</p>\n"
  else []) ++
  bytes "\n  <div class=\"grid\">\n" ++ items.flatMap card ++ bytes "  </div>\n</main>\n\n"

/-! ## `_footer.html` -/

def metrica (data : Json) : Text :=
  let counter := (data.field "metrica_counter").print
  bytes "<script>\n" ++
  bytes "  // Yandex Metrica — session recordings and click maps, i.e. *why* people do\n" ++
  bytes "  // not click. Funnel numbers come from our own events, not from here.\n" ++
  bytes "  (function(m,e,t,r,i,k,a)\x7bm[i]=m[i]||function()\x7b(m[i].a=m[i].a||[])" ++
  bytes ".push(arguments)\x7d;\n" ++
  bytes "  m[i].l=1*new Date();for(var j=0;j<document.scripts.length;j++)" ++
  bytes "\x7bif(document.scripts[j].src===r)\x7breturn;\x7d\x7d\n" ++
  bytes "  k=e.createElement(t),a=e.getElementsByTagName(t)[0],k.async=1,k.src=r," ++
  bytes "a.parentNode.insertBefore(k,a)\x7d)\n" ++
  bytes "  (window,document,\"script\",\"https://mc.yandex.ru/metrika/tag.js\",\"ym\");\n" ++
  bytes "  ym(" ++ counter ++
  bytes ", \"init\", \x7b\n" ++
  bytes "    clickmap: true, trackLinks: true, accurateTrackBounce: true, webvisor: true\n" ++
  bytes "  \x7d);\n</script>\n" ++
  bytes "<noscript><div><img src=\"https://mc.yandex.ru/watch/" ++ counter ++
  bytes "\"\n  style=\"position:absolute;left:-9999px\" alt=\"\"></div></noscript>\n"

def footer (data : Json) : Text :=
  let base := (data.field "base").print
  bytes "<footer class=\"footer\">\n" ++
  bytes "  <span>s-size — только вещи, которые не стыдно носить</span>\n" ++
  bytes "  <a href=\"" ++ base ++
  bytes "/privacy\">Обработка данных</a>\n</footer>\n\n<script src=\"" ++ base ++
  bytes "/static/app.js\" defer></script>\n" ++
  (if (data.field "metrica_counter").positive then metrica data else []) ++
  bytes "</body>\n</html>\n"

def feedHtml (data : Json) : Text := header data ++ feedMain data ++ footer data

/-- inja renders the feed as its templates say, from what `handle_feed` hands it. -/
def RendersFeed (amb : Ambient) : Prop :=
  ∀ cfg catalog tag size query,
    amb.render (bytes "feed.html") (feedData cfg catalog tag size query) =
      some (feedHtml (feedData cfg catalog tag size query))

/-! ## Where the search text goes -/

variable (cfg : Config) (catalog : Catalog) (tag size query : Text)

/-- What comes behind the search box. -/
def afterSearchBox (data : Json) : Text :=
  bytes "  </form>\n</header>\n" ++ feedMain data ++ footer data

theorem field_feedData {name : String} (h : bytes name ≠ bytes "query") :
    (feedData cfg catalog tag size query).field name =
      (feedData cfg catalog tag size []).field name := by
  have hne : (bytes name == bytes "query") = false := beq_false_of_ne h
  simp only [Json.field, Json.find?, feedData, List.lookup_cons, hne]

theorem headerStart_feedData :
    headerStart (feedData cfg catalog tag size query) =
      headerStart (feedData cfg catalog tag size []) := by
  have hbase := field_feedData cfg catalog tag size query
    (show bytes "base" ≠ bytes "query" by decide)
  have htitle := field_feedData cfg catalog tag size query
    (show bytes "page_title" ≠ bytes "query" by decide)
  simp only [headerStart, hbase, htitle]

theorem afterSearchBox_feedData :
    afterSearchBox (feedData cfg catalog tag size query) =
      afterSearchBox (feedData cfg catalog tag size []) := by
  have hbase := field_feedData cfg catalog tag size query
    (show bytes "base" ≠ bytes "query" by decide)
  have htag := field_feedData cfg catalog tag size query
    (show bytes "active_tag" ≠ bytes "query" by decide)
  have htags := field_feedData cfg catalog tag size query
    (show bytes "tags" ≠ bytes "query" by decide)
  have hitems := field_feedData cfg catalog tag size query
    (show bytes "items" ≠ bytes "query" by decide)
  have hcounter := field_feedData cfg catalog tag size query
    (show bytes "metrica_counter" ≠ bytes "query" by decide)
  have hchips : chips (feedData cfg catalog tag size query) =
      chips (feedData cfg catalog tag size []) := by
    simp only [chips, hbase, htag, htags]
  have hmain : feedMain (feedData cfg catalog tag size query) =
      feedMain (feedData cfg catalog tag size []) := by
    simp only [feedMain, hchips, hitems]
  have hmetrica : metrica (feedData cfg catalog tag size query) =
      metrica (feedData cfg catalog tag size []) := by
    unfold metrica
    rw [hcounter]
  have hfooter : footer (feedData cfg catalog tag size query) =
      footer (feedData cfg catalog tag size []) := by
    simp only [footer, hbase, hcounter, hmetrica]
  simp only [afterSearchBox, hmain, hfooter]

/-- The search text is in one place of the page, as it is. -/
theorem feedHtml_eq :
    feedHtml (feedData cfg catalog tag size query) =
      headerStart (feedData cfg catalog tag size []) ++ (searchBoxStart ++ (query ++
        (searchBoxEnd ++ afterSearchBox (feedData cfg catalog tag size [])))) := by
  have hquery : ((feedData cfg catalog tag size query).field "query").print = query := rfl
  have hmain : feedHtml (feedData cfg catalog tag size query) =
      headerStart (feedData cfg catalog tag size query) ++ (searchBoxStart ++ (query ++
        (searchBoxEnd ++ afterSearchBox (feedData cfg catalog tag size query)))) := by
    simp only [feedHtml, header, hquery, afterSearchBox, List.append_assoc]
  rw [hmain, headerStart_feedData, afterSearchBox_feedData]

end SSize
