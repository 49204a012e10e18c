import SSize.Catalog.Snapshot
import SSize.Catalog.Tables
import SSize.Lib.Attach
import Mathlib.Data.Int.ConditionallyCompleteOrder
import Mathlib.Data.Prod.Lex
import Mathlib.Order.ConditionallyCompleteLattice.Basic

/-!
# `load_published_items` and `list_partners` (`db.cpp`)

One function for each of the six `SELECT`s, of the state that it reads, and the
attaching of the child rows to the items of the first. Where `ORDER BY` leaves a
tie open it is broken by the primary key.

The result is the same as looking up every item's children by themselves
(`loadItems_eq_map`), and a `Catalog` built from it determines what was read
(`catalogOf_eq_iff`).
-/

namespace SSize

open Lib

namespace CatalogDb

/-- `COALESCE(column, '')`. -/
def orEmpty (column : Option Text) : Text := column.getD []

def itemOfRow (r : ItemRow) : Item where
  id := r.id
  title := r.title
  description := r.description
  brand := orEmpty r.brand
  priceKopek := r.priceKopek
  oldPriceKopek := r.oldPriceKopek
  currency := r.currency
  partnerId := r.partnerId.getD 0
  productUrl := r.productUrl
  campaign := orEmpty r.campaign
  status := (itemStatusFromString r.status.toString).getD .draft
  score := r.score
  createdAt := r.createdAt
  updatedAt := r.updatedAt
  publishedAt := r.publishedAt

/-- `ORDER BY score DESC, published_at DESC`, where a `NULL` comes last. -/
def feedRank (item : Item) : Scoreᵒᵈ ×ₗ (WithBot Int)ᵒᵈ ×ₗ Int :=
  toLex (OrderDual.toDual item.score,
    toLex (OrderDual.toDual (item.publishedAt : WithBot Int), item.id))

def RankedBefore (a b : Item) : Prop := feedRank a ≤ feedRank b

instance : DecidableRel RankedBefore :=
  fun a b => inferInstanceAs (Decidable (feedRank a ≤ feedRank b))

/-- `ORDER BY item_id` and then by a text. -/
def ByItemAndText (a b : Int × Text) : Prop := a.1 < b.1 ∨ a.1 = b.1 ∧ a.2 ≤ b.2

instance : DecidableRel ByItemAndText :=
  fun a b => inferInstanceAs (Decidable (a.1 < b.1 ∨ a.1 = b.1 ∧ a.2 ≤ b.2))

/-- `ORDER BY item_id, sort_order`. -/
def imageRank (r : ImageRow) : Int ×ₗ Int ×ₗ Int := toLex (r.itemId, toLex (r.sortOrder, r.id))

def imageOfRow (r : ImageRow) : Image where
  id := r.id
  path := r.path
  thumbPath := orEmpty r.thumbPath
  width := castInt (r.width.getD 0)
  height := castInt (r.height.getD 0)
  sortOrder := castInt r.sortOrder

variable (db : CatalogDb)

def publishedRows : List ItemRow := db.items.rows.filter fun r => r.status = .published

def selectItems : List Item := (db.publishedRows.map itemOfRow).insertionSort RankedBefore

def selectImages : List (Int × Image) :=
  (db.itemImages.rows.insertionSort fun a b => imageRank a ≤ imageRank b).map fun r =>
    (r.itemId, imageOfRow r)

/-- The join with `tags`. -/
def selectTags : List (Int × Text) :=
  (db.itemTags.rows.filterMap fun it =>
    (db.tags.find? it.tagId).map fun t => (it.itemId, t.slug)).insertionSort ByItemAndText

def selectSizes : List (Int × Text) :=
  (db.itemSizes.rows.map fun r => (r.itemId, r.size)).insertionSort ByItemAndText

def selectColors : List (Int × Color) :=
  (db.itemColors.rows.insertionSort fun a b =>
    ByItemAndText (a.itemId, a.color) (b.itemId, b.color)).map fun r =>
      (r.itemId, ⟨r.color, orEmpty r.hex⟩)

/-- In the order of the table. -/
def listPartners : List Partner := db.partners.rows

end CatalogDb

open CatalogDb

/-! ## Attaching the children -/

def Item.imagesField : ListField Item Image :=
  ⟨Item.images, fun item images => { item with images := images },
    fun _ _ => rfl, fun _ _ _ => rfl, fun _ => rfl⟩

def Item.tagsField : ListField Item Text :=
  ⟨Item.tags, fun item tags => { item with tags := tags },
    fun _ _ => rfl, fun _ _ _ => rfl, fun _ => rfl⟩

def Item.sizesField : ListField Item Text :=
  ⟨Item.sizes, fun item sizes => { item with sizes := sizes },
    fun _ _ => rfl, fun _ _ _ => rfl, fun _ => rfl⟩

def Item.colorsField : ListField Item Color :=
  ⟨Item.colors, fun item colors => { item with colors := colors },
    fun _ _ => rfl, fun _ _ _ => rfl, fun _ => rfl⟩

/-- The four walks of `load_published_items` behind its first `SELECT`. -/
def attachChildren (items : List Item) (images : List (Int × Image))
    (tags sizes : List (Int × Text)) (colors : List (Int × Color)) : List Item :=
  let items := attachAll Item.id Item.imagesField.pushBack images items
  let items := attachAll Item.id Item.tagsField.pushBack tags items
  let items := attachAll Item.id Item.sizesField.pushBack sizes items
  attachAll Item.id Item.colorsField.pushBack colors items

/-- No children yet. -/
structure Item.Bare (item : Item) : Prop where
  images : item.images = []
  tags : item.tags = []
  sizes : item.sizes = []
  colors : item.colors = []

/-- The four walks together give every item its own children. -/
theorem attachChildren_eq_map {items : List Item} (hids : (items.map Item.id).Nodup)
    (hbare : ∀ item ∈ items, item.Bare) (images : List (Int × Image))
    (tags sizes : List (Int × Text)) (colors : List (Int × Color)) :
    attachChildren items images tags sizes colors = items.map fun item =>
      { item with
        images := childrenOf images item.id
        tags := childrenOf tags item.id
        sizes := childrenOf sizes item.id
        colors := childrenOf colors item.id } := by
  have himages := Item.imagesField.attachAll_pushBack Item.id (fun _ _ => rfl) hids images
  have htags := Item.tagsField.attachAll_pushBack Item.id (fun _ _ => rfl) himages.2 tags
  have hsizes := Item.sizesField.attachAll_pushBack Item.id (fun _ _ => rfl) htags.2 sizes
  have hcolors := Item.colorsField.attachAll_pushBack Item.id (fun _ _ => rfl) hsizes.2 colors
  unfold attachChildren
  rw [hcolors.1, hsizes.1, htags.1, himages.1, List.map_map, List.map_map, List.map_map]
  apply List.map_congr_left
  intro item hitem
  obtain ⟨himages, htags, hsizes, hcolors⟩ := hbare item hitem
  simp [Item.imagesField, Item.tagsField, Item.sizesField, Item.colorsField, himages, htags,
    hsizes, hcolors]

/-- The states that the six `SELECT`s of one refresh read. -/
structure Reads where
  items : CatalogDb
  images : CatalogDb
  tags : CatalogDb
  sizes : CatalogDb
  colors : CatalogDb
  partners : CatalogDb

namespace Reads

def single (db : CatalogDb) : Reads := ⟨db, db, db, db, db, db⟩

variable (r : Reads)

def loadItems : List Item :=
  attachChildren r.items.selectItems r.images.selectImages r.tags.selectTags r.sizes.selectSizes
    r.colors.selectColors

def catalogOf : Catalog := .ofRows r.loadItems r.partners.listPartners

def withChildren (item : Item) : Item :=
  { item with
    images := childrenOf r.images.selectImages item.id
    tags := childrenOf r.tags.selectTags item.id
    sizes := childrenOf r.sizes.selectSizes item.id
    colors := childrenOf r.colors.selectColors item.id }

end Reads

namespace CatalogDb

variable (db : CatalogDb)

theorem nodup_publishedRows : (db.publishedRows.map ItemRow.id).Nodup := by
  have hunique : (db.items.rows.map ItemRow.id).Nodup :=
    Table.nodup_map_rows (fun _ => rfl) db.items
  have hsub := List.filter_sublist (l := db.items.rows) (p := fun r => r.status = .published)
  exact (hsub.map ItemRow.id).nodup hunique

theorem nodup_of_perm {items : List Item} (h : items.Perm (db.publishedRows.map itemOfRow)) :
    (items.map Item.id).Nodup := by
  have hids := h.map Item.id
  rw [List.map_map] at hids
  exact hids.nodup_iff.2 db.nodup_publishedRows

theorem bare_of_perm {items : List Item} (h : items.Perm (db.publishedRows.map itemOfRow))
    {item : Item} (hitem : item ∈ items) : item.Bare := by
  obtain ⟨row, -, rfl⟩ := List.mem_map.1 (h.subset hitem)
  exact ⟨rfl, rfl, rfl, rfl⟩

/-- `items.id` is the primary key, so the index has one entry per item. -/
theorem nodup_selectItems : (db.selectItems.map Item.id).Nodup :=
  db.nodup_of_perm (List.perm_insertionSort RankedBefore _)

theorem selectItems_bare {item : Item} (h : item ∈ db.selectItems) : item.Bare :=
  db.bare_of_perm (List.perm_insertionSort RankedBefore _) h

end CatalogDb

namespace Reads

variable (r : Reads)

theorem loadItems_eq_map : r.loadItems = r.items.selectItems.map r.withChildren :=
  attachChildren_eq_map r.items.nodup_selectItems (fun _ => r.items.selectItems_bare) _ _ _ _

end Reads

/-! ## What a catalog tells about the states that were read -/

instance : Std.Total RankedBefore where
  total a b := le_total (feedRank a) (feedRank b)

instance : IsTrans Item RankedBefore where
  trans _ _ _ := le_trans

theorem id_eq_of_ranked {a b : Item} (hab : RankedBefore a b) (hba : RankedBefore b a) :
    a.id = b.id := by
  have hrank : feedRank a = feedRank b := le_antisymm hab hba
  have hlast := congrArg (fun rank => (ofLex (ofLex rank).2).2) hrank
  exact hlast

/-- Two lists in the order of the `SELECT` that the constructor sorts alike are the
same list. -/
theorem eq_of_ofRows {xs ys : List Item} (hxs : xs.Pairwise RankedBefore)
    (hys : ys.Pairwise RankedBefore) (hids : (xs.map Item.id).Nodup)
    (hsort : xs.insertionSort FeedOrder = ys.insertionSort FeedOrder) : xs = ys := by
  have hperm : xs.Perm ys :=
    (List.perm_insertionSort FeedOrder xs).symm.trans
      (hsort ▸ List.perm_insertionSort FeedOrder ys)
  apply List.Perm.eq_of_pairwise ?_ hxs hys hperm
  intro a b ha hb hab hba
  have hb' : b ∈ xs := hperm.symm.subset hb
  exact List.inj_on_of_nodup_map hids ha hb' (id_eq_of_ranked hab hba)

namespace Reads

variable (r r' : Reads)

theorem map_id_loadItems : r.loadItems.map Item.id = r.items.selectItems.map Item.id := by
  rw [loadItems_eq_map, List.map_map]
  rfl

theorem pairwise_loadItems : r.loadItems.Pairwise RankedBefore := by
  rw [loadItems_eq_map, List.pairwise_map]
  exact List.pairwise_insertionSort RankedBefore _

theorem catalogOf_eq_iff : r.catalogOf = r'.catalogOf ↔
    r.loadItems = r'.loadItems ∧ r.partners.listPartners = r'.partners.listPartners := by
  constructor
  · intro h
    have hsort := congrArg Catalog.items h
    have hids : (r.loadItems.map Item.id).Nodup := by
      rw [map_id_loadItems]
      exact r.items.nodup_selectItems
    exact ⟨eq_of_ofRows r.pairwise_loadItems r'.pairwise_loadItems hids hsort,
      congrArg Catalog.partners h⟩
  · rintro ⟨hitems, hpartners⟩
    unfold catalogOf
    rw [hitems, hpartners]

/-- The state `S` answers the six `SELECT`s as they were answered, as far as the
children of published items go. -/
structure AgreeWith (S : CatalogDb) : Prop where
  items : r.items.selectItems = S.selectItems
  images : ∀ item ∈ S.selectItems,
    childrenOf r.images.selectImages item.id = childrenOf S.selectImages item.id
  tags : ∀ item ∈ S.selectItems,
    childrenOf r.tags.selectTags item.id = childrenOf S.selectTags item.id
  sizes : ∀ item ∈ S.selectItems,
    childrenOf r.sizes.selectSizes item.id = childrenOf S.selectSizes item.id
  colors : ∀ item ∈ S.selectItems,
    childrenOf r.colors.selectColors item.id = childrenOf S.selectColors item.id
  partners : r.partners.listPartners = S.listPartners

theorem agreeWith_single (S : CatalogDb) : (single S).AgreeWith S :=
  ⟨rfl, fun _ _ => rfl, fun _ _ => rfl, fun _ _ => rfl, fun _ _ => rfl, rfl⟩

/-- Taking the children off again gives back what the first `SELECT` read. -/
def bare (item : Item) : Item := { item with images := [], tags := [], sizes := [], colors := [] }

theorem map_bare_map {items : List Item} (hbare : ∀ item ∈ items, item.Bare) {f : Item → Item}
    (hf : ∀ item, bare (f item) = bare item) : (items.map f).map bare = items := by
  rw [List.map_map]
  conv_rhs => rw [← List.map_id items]
  apply List.map_congr_left
  intro item hitem
  obtain ⟨himages, htags, hsizes, hcolors⟩ := hbare item hitem
  cases item
  simp_all [bare]

theorem map_bare_loadItems : r.loadItems.map bare = r.items.selectItems := by
  rw [loadItems_eq_map]
  exact map_bare_map (fun _ => r.items.selectItems_bare) fun _ => rfl

theorem withChildren_eq_iff (item : Item) : r.withChildren item = r'.withChildren item ↔
    childrenOf r.images.selectImages item.id = childrenOf r'.images.selectImages item.id ∧
      childrenOf r.tags.selectTags item.id = childrenOf r'.tags.selectTags item.id ∧
      childrenOf r.sizes.selectSizes item.id = childrenOf r'.sizes.selectSizes item.id ∧
      childrenOf r.colors.selectColors item.id = childrenOf r'.colors.selectColors item.id := by
  simp [withChildren]

/-- A refresh publishes what a refresh of `S` alone would publish exactly when `S`
agrees with everything that was read. -/
theorem catalogOf_single_iff (S : CatalogDb) :
    r.catalogOf = (single S).catalogOf ↔ r.AgreeWith S := by
  rw [catalogOf_eq_iff]
  constructor
  · rintro ⟨hload, hpartners⟩
    have hitems : r.items.selectItems = S.selectItems := by
      calc r.items.selectItems
          = r.loadItems.map bare := r.map_bare_loadItems.symm
        _ = (single S).loadItems.map bare := by rw [hload]
        _ = S.selectItems := (single S).map_bare_loadItems
    rw [loadItems_eq_map, loadItems_eq_map, hitems] at hload
    have hchildren : ∀ item ∈ S.selectItems,
        r.withChildren item = (single S).withChildren item :=
      List.map_inj_left.1 hload
    constructor
    · exact hitems
    · exact fun item h => ((withChildren_eq_iff r (single S) item).1 (hchildren item h)).1
    · exact fun item h => ((withChildren_eq_iff r (single S) item).1 (hchildren item h)).2.1
    · exact fun item h => ((withChildren_eq_iff r (single S) item).1 (hchildren item h)).2.2.1
    · exact fun item h => ((withChildren_eq_iff r (single S) item).1 (hchildren item h)).2.2.2
    · exact hpartners
  · intro h
    refine ⟨?_, h.partners⟩
    rw [loadItems_eq_map, loadItems_eq_map, h.items]
    apply List.map_congr_left
    intro item hitem
    apply (withChildren_eq_iff r (single S) item).2
    exact ⟨h.images item hitem, h.tags item hitem, h.sizes item hitem, h.colors item hitem⟩

end Reads

end SSize
