import SSize.Templates.Feed

/-!
# The item page (`item.html`)
-/

namespace SSize

def gallery (item : Json) : Text :=
  let images := (item.field "images").elements
  bytes "    <div class=\"gallery\">\n" ++
  images.flatMap (fun src =>
    bytes "      <img src=\"" ++ src.print ++ bytes "\" alt=\"" ++ (item.field "title").print ++
    bytes "\" loading=\"lazy\" decoding=\"async\">\n") ++
  (if images.isEmpty then bytes "<div class=\"ph ph-lg\" aria-hidden=\"true\"></div>" else []) ++
  bytes "    </div>\n\n"

def itemPrice (item : Json) : Text :=
  bytes "\n      <div class=\"price-row price-row-lg\">\n        <span class=\"price\">" ++
  (item.field "price").print ++ bytes " ₽</span>\n" ++
  (if (item.find? (bytes "old_price")).isSome then
    bytes "        <span class=\"price-old\">" ++ (item.field "old_price").print ++
    bytes " ₽</span>\n"
  else []) ++
  bytes "      </div>\n\n"

def itemSizes (item : Json) : Text :=
  let sizes := (item.field "sizes").elements
  (if sizes.isEmpty then []
  else
    bytes "      <div class=\"block\">\n        <h2>Размеры</h2>\n        <div class=\"sizes\">" ++
    sizes.flatMap (fun s => bytes "<span class=\"size\">" ++ s.print ++ bytes "</span>") ++
    bytes "</div>\n      </div>\n") ++
  bytes "\n"

def itemColors (item : Json) : Text :=
  let colors := (item.field "colors").elements
  (if colors.isEmpty then []
  else
    bytes "      <div class=\"block\">\n        <h2>Цвет</h2>\n        <div class=\"swatches\">\n" ++
    colors.flatMap (fun c =>
      bytes "          <span class=\"swatch\" style=\"background: " ++ (c.field "hex").print ++
      bytes "\" title=\"" ++ (c.field "name").print ++ bytes "\"></span>\n") ++
    bytes "        </div>\n      </div>\n") ++
  bytes "\n"

def itemDescription (item : Json) : Text :=
  (if !(item.field "description").same (.string []) then
    bytes "      <div class=\"block\"><p class=\"desc\">" ++ (item.field "description").print ++
    bytes "</p></div>\n"
  else []) ++
  bytes "\n"

def buyLink (item : Json) : Text :=
  bytes "      <a class=\"buy buy-lg\" href=\"" ++ (item.field "out").print ++
  (bytes "\" target=\"_blank\" rel=\"noopener nofollow\">\n" ++
    bytes "        Перейти к товару\n      </a>\n\n")

def itemMain (data : Json) : Text :=
  let item := data.field "item"
  bytes "\n<main class=\"item\" data-item=\"" ++ (item.field "id").print ++
  bytes "\" data-surface=\"item\">\n  <a class=\"back\" href=\"" ++ (data.field "base").print ++
  bytes "/\">← в каталог</a>\n\n  <div class=\"item-grid\">\n" ++ gallery item ++
  bytes "    <div class=\"item-info\">\n      <h1>" ++ (item.field "title").print ++
  bytes "</h1>\n" ++
  (if !(item.field "brand").same (.string []) then
    bytes "<p class=\"card-brand\">" ++ (item.field "brand").print ++ bytes "</p>"
  else []) ++
  itemPrice item ++ itemSizes item ++ itemColors item ++ itemDescription item ++ buyLink item ++
  (item.field "tags").elements.flatMap (fun tag =>
    bytes "<span class=\"chip chip-sm\">" ++ tag.print ++ bytes "</span>") ++
  bytes "    </div>\n  </div>\n</main>\n\n"

def itemHtml (data : Json) : Text := header data ++ itemMain data ++ footer data

/-- inja renders the item page as its templates say, from what `handle_item` hands it. -/
def RendersItemPage (amb : Ambient) : Prop :=
  ∀ cfg item position,
    amb.render (bytes "item.html") (itemData cfg item position) =
      some (itemHtml (itemData cfg item position))

end SSize
