import SSize.Catalog.Item
import SSize.Lib.Tables

/-!
# The catalog tables and their writers (`001_init.sql`, `db.cpp`)

Nullable columns are options and the primary keys are the keys of the tables.
`partners.created_at` and `items.source_channel` are left out, nothing reads
them; so are the `DEFAULT`s, every writer names its columns. `items.status` is
the enumeration that its `CHECK` admits.

A writer is `none` where its statement throws: a foreign key without a row, or a
second row under a unique column. The busy timeout is not modelled here, a
statement that waits too long ends its transaction like any other that throws.
-/

namespace SSize

open Lib

structure ItemRow where
  id : Int
  title : Text
  description : Text
  brand : Option Text := none
  priceKopek : Kopek
  oldPriceKopek : Option Kopek := none
  currency : Text
  partnerId : Option Int := none
  productUrl : Text
  campaign : Option Text := none
  status : ItemStatus
  score : Score
  createdAt : TsMs
  updatedAt : TsMs
  publishedAt : Option TsMs := none
deriving DecidableEq

structure ImageRow where
  id : Int
  itemId : Int
  path : Text
  thumbPath : Option Text := none
  width : Option Int := none
  height : Option Int := none
  sortOrder : Int
deriving DecidableEq

structure TagRow where
  id : Int
  slug : Text
  title : Text
deriving DecidableEq

structure ItemTagRow where
  itemId : Int
  tagId : Int
deriving DecidableEq

structure SizeRow where
  itemId : Int
  size : Text
deriving DecidableEq

structure ColorRow where
  itemId : Int
  color : Text
  hex : Option Text := none
deriving DecidableEq

def Partner.key (p : Partner) : Option Int := some p.id

def ItemRow.key (r : ItemRow) : Option Int := some r.id

def ImageRow.key (r : ImageRow) : Option Int := some r.id

def TagRow.key (r : TagRow) : Option Int := some r.id

def ItemTagRow.key (r : ItemTagRow) : Option (Int × Int) := some (r.itemId, r.tagId)

def SizeRow.key (r : SizeRow) : Option (Int × Text) := some (r.itemId, r.size)

def ColorRow.key (r : ColorRow) : Option (Int × Text) := some (r.itemId, r.color)

structure CatalogDb where
  partners : Table Partner Partner.key := .empty
  items : Table ItemRow ItemRow.key := .empty
  itemImages : Table ImageRow ImageRow.key := .empty
  tags : Table TagRow TagRow.key := .empty
  itemTags : Table ItemTagRow ItemTagRow.key := .empty
  itemSizes : Table SizeRow SizeRow.key := .empty
  itemColors : Table ColorRow ColorRow.key := .empty

namespace CatalogDb

/-- The rowid that sqlite gives to the next row: one more than the largest. -/
def nextId (ids : List Int) : Int := ids.max?.getD 0 + 1

theorem nextId_fresh (ids : List Int) : nextId ids ∉ ids := by
  intro hmem
  cases hmax : ids.max? with
  | none => simp [List.max?_eq_none_iff.1 hmax] at hmem
  | some largest =>
      have hle := (List.max?_eq_some_iff.1 hmax).2 _ hmem
      rw [nextId, hmax, Option.getD_some] at hle
      omega

/-- A way to pick rowids. Above the largest `int64` sqlite looks for a free one. -/
structure RowIds where
  next : List Int → Int
  fresh : ∀ ids, next ids ∉ ids

def RowIds.successor : RowIds := ⟨nextId, nextId_fresh⟩

def itemRow (id : Int) (item : Item) : ItemRow where
  id := id
  title := item.title
  description := item.description
  brand := some item.brand
  priceKopek := item.priceKopek
  oldPriceKopek := item.oldPriceKopek
  currency := item.currency
  partnerId := some item.partnerId
  productUrl := item.productUrl
  campaign := some item.campaign
  status := item.status
  score := item.score
  createdAt := item.createdAt
  updatedAt := item.updatedAt
  publishedAt := item.publishedAt

variable (db : CatalogDb)

def hasPartner (id : Int) : Bool := (db.partners.find? id).isSome

def hasItem (id : Int) : Bool := (db.items.find? id).isSome

/-- The new state and `sqlite3_last_insert_rowid`. -/
def insertItemWith (rowIds : RowIds) (item : Item) : Option (CatalogDb × Int) := do
  guard (db.hasPartner item.partnerId)
  let items ← db.items.insert? (itemRow (rowIds.next db.items.keys) item)
  pure ({ db with items := items }, rowIds.next db.items.keys)

def insertItem (item : Item) : Option CatalogDb :=
  (db.insertItemWith .successor item).map Prod.fst

/-- An `UPDATE` of the whole row under the same id. -/
def setRow : Table.Merge ItemRow.key where
  set old new := { new with id := old.id }
  key_set _ _ := rfl

/-- The `CASE` keeps the time of the first publication. -/
def setItemStatus (id : Int) (status : ItemStatus) (now : TsMs) : Option CatalogDb :=
  match db.items.find? id with
  | none => some db
  | some row =>
      let publishedAt :=
        if status = .published ∧ row.publishedAt = none then some now else row.publishedAt
      some { db with
        items := db.items.upsert setRow
          { row with status := status, updatedAt := now, publishedAt := publishedAt } }

/-- The new state and the id of the tag. -/
def upsertTagWith (rowIds : RowIds) (slug title : Text) : Option (CatalogDb × Int) :=
  match db.tags.rows.find? fun t => t.slug == slug with
  | some t => some (db, t.id)
  | none => do
      let tags ← db.tags.insert? ⟨rowIds.next db.tags.keys, slug, title⟩
      pure ({ db with tags := tags }, rowIds.next db.tags.keys)

def upsertTag (slug title : Text) : Option CatalogDb :=
  (db.upsertTagWith .successor slug title).map Prod.fst

/-- `INSERT OR IGNORE` skips a duplicate, not a missing parent. -/
def attachTag (itemId tagId : Int) : Option CatalogDb := do
  guard (db.hasItem itemId && (db.tags.find? tagId).isSome)
  pure { db with itemTags := (db.itemTags.insert? ⟨itemId, tagId⟩).getD db.itemTags }

def imageRow (id itemId : Int) (img : Image) : ImageRow where
  id := id
  itemId := itemId
  path := img.path
  thumbPath := some img.thumbPath
  width := some img.width
  height := some img.height
  sortOrder := img.sortOrder

def addImageWith (rowIds : RowIds) (itemId : Int) (img : Image) : Option CatalogDb := do
  guard (db.hasItem itemId)
  let images ← db.itemImages.insert? (imageRow (rowIds.next db.itemImages.keys) itemId img)
  pure { db with itemImages := images }

def addImage (itemId : Int) (img : Image) : Option CatalogDb :=
  db.addImageWith .successor itemId img

/-- The `INSERT OR IGNORE INTO item_sizes` of `cmd_seed`. -/
def addSize (itemId : Int) (size : Text) : Option CatalogDb := do
  guard (db.hasItem itemId)
  pure { db with itemSizes := (db.itemSizes.insert? ⟨itemId, size⟩).getD db.itemSizes }

def addColor (itemId : Int) (color hex : Text) : Option CatalogDb := do
  guard (db.hasItem itemId)
  pure { db with
    itemColors := (db.itemColors.insert? ⟨itemId, color, some hex⟩).getD db.itemColors }

/-- `code TEXT NOT NULL UNIQUE`, for the row under `id`. -/
def codeFree (id : Int) (code : Text) : Bool :=
  db.partners.rows.all fun p => p.id == id || p.code != code

def setPartner : Table.Merge Partner.key where
  set old new := { new with id := old.id }
  key_set _ _ := rfl

/-- The single row edit that changes a partner. -/
def editPartner (p : Partner) : Option CatalogDb := do
  match db.partners.find? p.id with
  | none => pure db
  | some _ =>
      guard (db.codeFree p.id p.code)
      pure { db with partners := db.partners.upsert setPartner p }

def addPartner (p : Partner) : Option CatalogDb := do
  let row := { p with id := nextId db.partners.keys }
  guard (db.codeFree row.id row.code)
  let partners ← db.partners.insert? row
  pure { db with partners := partners }

end CatalogDb

inductive WriterOp where
  | insertItem (item : Item)
  | setItemStatus (id : Int) (status : ItemStatus) (now : TsMs)
  | upsertTag (slug title : Text)
  | attachTag (itemId tagId : Int)
  | addImage (itemId : Int) (img : Image)
  | addSize (itemId : Int) (size : Text)
  | addColor (itemId : Int) (color hex : Text)
  | editPartner (p : Partner)
  | addPartner (p : Partner)

def WriterOp.apply (db : CatalogDb) : WriterOp → Option CatalogDb
  | .insertItem item => db.insertItem item
  | .setItemStatus id status now => db.setItemStatus id status now
  | .upsertTag slug title => db.upsertTag slug title
  | .attachTag itemId tagId => db.attachTag itemId tagId
  | .addImage itemId img => db.addImage itemId img
  | .addSize itemId size => db.addSize itemId size
  | .addColor itemId color hex => db.addColor itemId color hex
  | .editPartner p => db.editPartner p
  | .addPartner p => db.addPartner p

/-- A transaction, `none` where a statement throws and the rest is rolled back. -/
def runTransaction (db : CatalogDb) (tx : List WriterOp) : Option CatalogDb :=
  tx.foldlM WriterOp.apply db

/-- The catalog tables of a freshly migrated database. -/
def CatalogDb.migrated : CatalogDb where
  partners :=
    ⟨[{ id := 1
        code := bytes "direct"
        title := bytes "Прямая ссылка"
        linkTemplate := bytes "\x7burl\x7d" }], by simp [Partner.key]⟩

end SSize
