import SSize.Catalog.Published

/-!
# Writing an item back

`insert_item` of an item as it was loaded, with its images and its tags. Each kind of
write adds rows to one table and leaves the others alone. What does not come back is a
missing partner: it is read as 0, and 0 is written as the id of a partner.
-/

namespace SSize

open Lib

namespace CatalogDb

variable (rowIds : RowIds) (db : CatalogDb)

def addImages (itemId : Int) (images : List Image) : Option CatalogDb :=
  images.foldlM (fun db img => db.addImageWith rowIds itemId img) db

/-- `attach_tag(item_id, upsert_tag(slug, slug))`. -/
def tagWith (itemId : Int) (slug : Text) : Option CatalogDb := do
  let (db, tagId) ← db.upsertTagWith rowIds slug slug
  db.attachTag itemId tagId

def addTags (itemId : Int) (slugs : List Text) : Option CatalogDb :=
  slugs.foldlM (fun db slug => db.tagWith rowIds itemId slug) db

/-- The new state and the id of the new item. -/
def writeBack (item : Item) : Option (CatalogDb × Int) := do
  let (db, id) ← db.insertItemWith rowIds item
  let db ← db.addImages rowIds id item.images
  let db ← db.addTags rowIds id item.tags
  pure (db, id)

/-! ## What comes back -/

def columnsOf (item : Item) : Item := { Reads.bare item with id := 0 }

def unnumbered (img : Image) : Image := { img with id := 0 }

/-- The same columns, images and tags. Only the order of images with the same
`sort_order` is open. -/
structure SameItem (item item' : Item) : Prop where
  columns : columnsOf item' = columnsOf item
  images : (item'.images.map unnumbered).Perm (item.images.map unnumbered)
  ordered : item'.images.Pairwise fun a b => a.sortOrder ≤ b.sortOrder
  tags : item'.tags = item.tags

/-- Every statement succeeds, and any load returns the item under its new id. -/
def Restores (item : Item) : Prop :=
  ∃ db' id, db.writeBack rowIds item = some (db', id) ∧
    ∀ a : db'.Answers, ∃ item' ∈ a.load, item'.id = id ∧ SameItem item item'

/-! ## One write -/

variable {db}

theorem insertItemWith_eq {item : Item} (h : db.hasPartner item.partnerId = true) :
    ∃ items : Table ItemRow ItemRow.key,
      db.insertItemWith rowIds item =
          some ({ db with items := items }, rowIds.next db.items.keys) ∧
        items.rows = db.items.rows ++ [itemRow (rowIds.next db.items.keys) item] := by
  have hfree : db.items.Free (itemRow (rowIds.next db.items.keys) item) := by
    rintro k ⟨⟩
    exact rowIds.fresh db.items.keys
  obtain ⟨items, hitems, hrows⟩ := Table.exists_insert? hfree
  refine ⟨items, ?_, hrows⟩
  simp [insertItemWith, h, hitems]

theorem insertItemWith_eq_none {item : Item} (h : db.hasPartner item.partnerId = false) :
    db.insertItemWith rowIds item = none := by
  simp [insertItemWith, h]

theorem addImageWith_eq {itemId : Int} (h : db.hasItem itemId = true) (img : Image) :
    ∃ images : Table ImageRow ImageRow.key,
      db.addImageWith rowIds itemId img = some { db with itemImages := images } ∧
        ∃ id, images.rows = db.itemImages.rows ++ [imageRow id itemId img] := by
  have hfree : db.itemImages.Free (imageRow (rowIds.next db.itemImages.keys) itemId img) := by
    rintro k ⟨⟩
    exact rowIds.fresh db.itemImages.keys
  obtain ⟨images, himages, hrows⟩ := Table.exists_insert? hfree
  refine ⟨images, ?_, _, hrows⟩
  simp [addImageWith, h, himages]

/-- A row that is there already is the row that was to be inserted. -/
theorem attachTag_eq {itemId tagId : Int} (hitem : db.hasItem itemId = true)
    (htag : (db.tags.find? tagId).isSome = true) :
    ∃ itemTags : Table ItemTagRow ItemTagRow.key,
      db.attachTag itemId tagId = some { db with itemTags := itemTags } ∧
        ∀ r, r ∈ itemTags.rows ↔ r ∈ db.itemTags.rows ∨ r = ⟨itemId, tagId⟩ := by
  refine ⟨(db.itemTags.insert? ⟨itemId, tagId⟩).getD db.itemTags, ?_, ?_⟩
  · simp [attachTag, hitem, htag]
  · intro r
    cases hinsert : db.itemTags.insert? ⟨itemId, tagId⟩ with
    | some itemTags => simp [(Table.insert?_eq_some.1 hinsert).2]
    | none =>
        have hthere : (⟨itemId, tagId⟩ : ItemTagRow) ∈ db.itemTags.rows := by
          have htaken := Table.insert?_eq_none.1 hinsert
          simp only [Table.Free, ItemTagRow.key, Option.mem_def, not_forall, not_not] at htaken
          obtain ⟨k, hk, hmem⟩ := htaken
          obtain ⟨⟨i, t⟩, hr, hkey⟩ := Table.mem_keys.1 hmem
          have heq : (i, t) = (itemId, tagId) := Option.some.inj (hkey.trans hk.symm)
          cases heq
          exact hr
        constructor
        · exact Or.inl
        · rintro (hr | rfl)
          · exact hr
          · exact hthere

/-- A slug that the state has is not inserted. -/
theorem tagWith_eq {itemId : Int} {t : TagRow} (hitem : db.hasItem itemId = true)
    (hslugs : (db.tags.rows.map TagRow.slug).Nodup) (ht : t ∈ db.tags.rows) :
    ∃ itemTags : Table ItemTagRow ItemTagRow.key,
      db.tagWith rowIds itemId t.slug = some { db with itemTags := itemTags } ∧
        ∀ r, r ∈ itemTags.rows ↔ r ∈ db.itemTags.rows ∨ r = ⟨itemId, t.id⟩ := by
  have hfind : (db.tags.rows.find? fun s => s.slug == t.slug) = some t := by
    cases hfound : db.tags.rows.find? fun s => s.slug == t.slug with
    | none => exact absurd (List.find?_eq_none.1 hfound t ht) (by simp)
    | some s =>
        have hslug : s.slug = t.slug := by simpa using List.find?_some hfound
        rw [List.inj_on_of_nodup_map hslugs (List.mem_of_find?_eq_some hfound) ht hslug]
  have htag : (db.tags.find? t.id).isSome = true := by
    rw [Table.find?_eq_some_iff.2 ⟨ht, rfl⟩]
    rfl
  obtain ⟨itemTags, hattach, hrows⟩ := attachTag_eq hitem htag
  refine ⟨itemTags, ?_, hrows⟩
  simp [tagWith, upsertTagWith, hfind, hattach]

/-! ## All of them -/

theorem addImages_eq {itemId : Int} (h : db.hasItem itemId = true) (images : List Image) :
    ∃ itemImages : Table ImageRow ImageRow.key,
      db.addImages rowIds itemId images = some { db with itemImages := itemImages } ∧
        ∃ numbered : List (Int × Image), numbered.map Prod.snd = images ∧
          itemImages.rows =
            db.itemImages.rows ++ numbered.map fun p => imageRow p.1 itemId p.2 := by
  induction images generalizing db with
  | nil => exact ⟨db.itemImages, rfl, [], rfl, by simp⟩
  | cons img images ih =>
      obtain ⟨first, hfirst, id, hrow⟩ := addImageWith_eq rowIds h img
      obtain ⟨all, hall, numbered, himages, hrows⟩ :=
        @ih { db with itemImages := first } h
      refine ⟨all, ?_, (id, img) :: numbered, by rw [List.map_cons, himages], ?_⟩
      · unfold addImages at hall ⊢
        rw [List.foldlM_cons, hfirst]
        exact hall
      · rw [hrows, hrow, List.append_assoc, List.map_cons]
        rfl

theorem addTags_eq {itemId : Int} (hitem : db.hasItem itemId = true)
    (hslugs : (db.tags.rows.map TagRow.slug).Nodup) {slugs : List Text}
    (h : ∀ slug ∈ slugs, ∃ t ∈ db.tags.rows, t.slug = slug) :
    ∃ itemTags : Table ItemTagRow ItemTagRow.key,
      db.addTags rowIds itemId slugs = some { db with itemTags := itemTags } ∧
        ∀ r, r ∈ itemTags.rows ↔
          r ∈ db.itemTags.rows ∨ ∃ t ∈ db.tags.rows, t.slug ∈ slugs ∧ r = ⟨itemId, t.id⟩ := by
  induction slugs generalizing db with
  | nil => exact ⟨db.itemTags, rfl, by simp⟩
  | cons slug slugs ih =>
      obtain ⟨t, ht, rfl⟩ := h slug List.mem_cons_self
      obtain ⟨first, hfirst, hfirstRows⟩ := tagWith_eq rowIds hitem hslugs ht
      obtain ⟨all, hall, hrows⟩ := @ih { db with itemTags := first } hitem hslugs
        fun s hs => h s (List.mem_cons_of_mem _ hs)
      refine ⟨all, ?_, fun r => ?_⟩
      · unfold addTags at hall ⊢
        rw [List.foldlM_cons, hfirst]
        exact hall
      · rw [hrows, hfirstRows, or_assoc]
        refine or_congr_right ⟨?_, ?_⟩
        · rintro (hr | ⟨s, hs, hslug, hr⟩)
          · exact ⟨t, ht, List.mem_cons_self, hr⟩
          · exact ⟨s, hs, List.mem_cons_of_mem _ hslug, hr⟩
        · rintro ⟨s, hs, hslug, hr⟩
          rcases List.mem_cons.1 hslug with heq | hslug
          · rw [List.inj_on_of_nodup_map hslugs hs ht heq] at hr
            exact Or.inl hr
          · exact Or.inr ⟨s, hs, hslug, hr⟩

/-- What one item adds to the four tables. -/
structure Written (db db' : CatalogDb) (id : Int) (item : Item) : Prop where
  fresh : id ∉ db.items.keys
  items : db'.items.rows = db.items.rows ++ [itemRow id item]
  images : ∃ numbered : List (Int × Image), numbered.map Prod.snd = item.images ∧
    db'.itemImages.rows = db.itemImages.rows ++ numbered.map fun p => imageRow p.1 id p.2
  tags : db'.tags = db.tags
  itemTags : ∀ r, r ∈ db'.itemTags.rows ↔
    r ∈ db.itemTags.rows ∨ ∃ t ∈ db.tags.rows, t.slug ∈ item.tags ∧ r = ⟨id, t.id⟩

theorem writeBack_eq {item : Item} (hpartner : db.hasPartner item.partnerId = true)
    (hslugs : (db.tags.rows.map TagRow.slug).Nodup)
    (htags : ∀ slug ∈ item.tags, ∃ t ∈ db.tags.rows, t.slug = slug) :
    ∃ db' id, db.writeBack rowIds item = some (db', id) ∧ Written db db' id item := by
  obtain ⟨items, hinsert, hitems⟩ := insertItemWith_eq rowIds hpartner
  have hhas : { db with items := items }.hasItem (rowIds.next db.items.keys) = true := by
    have hfind : items.find? (rowIds.next db.items.keys) =
        some (itemRow (rowIds.next db.items.keys) item) := by
      rw [Table.find?_eq_some_iff, hitems]
      exact ⟨by simp, rfl⟩
    rw [hasItem, hfind]
    rfl
  obtain ⟨images, haddImages, himages⟩ := addImages_eq rowIds hhas item.images
  have hhas' : { db with items := items, itemImages := images }.hasItem
      (rowIds.next db.items.keys) = true := hhas
  obtain ⟨itemTags, haddTags, hitemTags⟩ := addTags_eq rowIds hhas' hslugs htags
  refine ⟨{ db with items := items, itemImages := images, itemTags := itemTags },
    rowIds.next db.items.keys, ?_,
    ⟨rowIds.fresh db.items.keys, hitems, himages, rfl, hitemTags⟩⟩
  simp only [writeBack, hinsert, haddImages, haddTags, bind, Option.bind]
  rfl

theorem writeBack_eq_none {item : Item} (h : db.hasPartner item.partnerId = false) :
    db.writeBack rowIds item = none := by
  rw [writeBack, insertItemWith_eq_none rowIds h]
  rfl

/-! ## The load behind them -/

/-- `int` fields hold an `int`. -/
def InInt (img : Image) : Prop :=
  castInt img.width = img.width ∧ castInt img.height = img.height ∧
    castInt img.sortOrder = img.sortOrder

theorem castInt_castInt (v : Int) : castInt (castInt v) = castInt v := Int.bmod_bmod

theorem inInt_imageOfRow (r : ImageRow) : InInt (imageOfRow r) :=
  ⟨castInt_castInt _, castInt_castInt _, castInt_castInt _⟩

theorem imageOfRow_imageRow {img : Image} (h : InInt img) (id itemId : Int) :
    imageOfRow (imageRow id itemId img) = { img with id := id } := by
  obtain ⟨hwidth, hheight, hsort⟩ := h
  simp [imageOfRow, imageRow, orEmpty, hwidth, hheight, hsort]

theorem columnsOf_itemOfRow (id : Int) (item : Item) :
    columnsOf (itemOfRow (itemRow id item)) = columnsOf item := by
  simp [columnsOf, itemOfRow, itemRow, orEmpty, Reads.bare]

namespace Written

variable {db' : CatalogDb} {id : Int} {item : Item}

/-- No row refers to the new item but the new ones. -/
theorem ne_of_hasItem (h : Written db db' id item) {i : Int} (hi : db.hasItem i = true) :
    i ≠ id := by
  rintro rfl
  obtain ⟨r, hr⟩ := Option.isSome_iff_exists.1 hi
  obtain ⟨hmem, hkey⟩ := Table.mem_of_find?_eq_some hr
  exact h.fresh (Table.mem_keys.2 ⟨r, hmem, hkey⟩)

theorem imageRows (h : Written db db' id item) (hschema : db.Schema) :
    ∃ numbered : List (Int × Image), numbered.map Prod.snd = item.images ∧
      (db'.itemImages.rows.filter fun r => r.itemId = id) =
        numbered.map fun p => imageRow p.1 id p.2 := by
  obtain ⟨numbered, hnumbered, hrows⟩ := h.images
  refine ⟨numbered, hnumbered, ?_⟩
  have hold : (db.itemImages.rows.filter fun r => r.itemId = id) = [] := by
    apply List.filter_eq_nil_iff.2
    intro r hr
    simpa using h.ne_of_hasItem (hschema.image r hr)
  have hnew : ((numbered.map fun p => imageRow p.1 id p.2).filter fun r => r.itemId = id) =
      numbered.map fun p => imageRow p.1 id p.2 := by
    apply List.filter_eq_self.2
    intro r hr
    obtain ⟨p, -, rfl⟩ := List.mem_map.1 hr
    simp [imageRow]
  rw [hrows, List.filter_append, hold, hnew, List.nil_append]

theorem mem_tags (h : Written db db' id item) (hschema : db.Schema)
    (htags : ∀ slug ∈ item.tags, ∃ t ∈ db.tags.rows, t.slug = slug) (slug : Text) :
    (∃ it ∈ db'.itemTags.rows, ∃ t ∈ db'.tags.rows,
        it.itemId = id ∧ t.id = it.tagId ∧ t.slug = slug) ↔ slug ∈ item.tags := by
  constructor
  · rintro ⟨it, hit, t, ht, hid, htag, rfl⟩
    rw [h.tags] at ht
    rcases (h.itemTags it).1 hit with hold | ⟨s, hs, hslug, rfl⟩
    · exact absurd hid (h.ne_of_hasItem (hschema.tag it hold).1)
    · have hsame : t = s := Table.eq_of_key_eq db.tags.unique ht hs rfl (congrArg some htag.symm)
      exact hsame ▸ hslug
  · intro hslug
    obtain ⟨t, ht, rfl⟩ := htags slug hslug
    refine ⟨⟨id, t.id⟩, (h.itemTags _).2 (Or.inr ⟨t, ht, hslug, rfl⟩), t, ?_, rfl, rfl, rfl⟩
    rw [h.tags]
    exact ht

/-- Any load makes an item of the new row. -/
theorem exists_mem_load (h : Written db db' id item) (hstatus : item.status = .published)
    (a : db'.Answers) : ∃ item' ∈ a.load, Reads.bare item' = itemOfRow (itemRow id item) := by
  have hrow : itemOfRow (itemRow id item) ∈ db'.publishedRows.map itemOfRow := by
    apply List.mem_map_of_mem
    rw [publishedRows, List.mem_filter, h.items]
    exact ⟨by simp, decide_eq_true hstatus⟩
  exact List.mem_map.1 (a.load_rows.symm.subset hrow)

theorem images_load (h : Written db db' id item) (hschema : db.Schema)
    (himages : ∀ img ∈ item.images, InInt img) (a : db'.Answers) {item' : Item}
    (hitem' : item' ∈ a.load) (hid : item'.id = id) :
    (item'.images.map unnumbered).Perm (item.images.map unnumbered) ∧
      item'.images.Pairwise fun a b => a.sortOrder ≤ b.sortOrder := by
  obtain ⟨rows, hperm, hordered, heq⟩ := a.load_images hitem'
  obtain ⟨numbered, hnumbered, hrows⟩ := h.imageRows hschema
  rw [hid, hrows] at hperm
  have hread : ∀ p ∈ numbered, imageOfRow (imageRow p.1 id p.2) = { p.2 with id := p.1 } := by
    intro p hp
    exact imageOfRow_imageRow (himages p.2 (hnumbered ▸ List.mem_map_of_mem hp)) p.1 id
  constructor
  · have hmap := (hperm.map imageOfRow).map unnumbered
    rw [← heq, List.map_map, List.map_map] at hmap
    have hsame : numbered.map ((unnumbered ∘ imageOfRow) ∘ fun p => imageRow p.1 id p.2) =
        item.images.map unnumbered := by
      rw [← hnumbered, List.map_map]
      apply List.map_congr_left
      intro p hp
      rw [Function.comp_apply, Function.comp_apply, hread p hp]
      rfl
    exact hsame ▸ hmap
  · rw [heq, List.pairwise_map]
    apply hordered.imp_of_mem
    intro x y hx hy hxy
    obtain ⟨p, hp, rfl⟩ := List.mem_map.1 (hperm.subset hx)
    obtain ⟨q, hq, rfl⟩ := List.mem_map.1 (hperm.subset hy)
    rw [hread p hp, hread q hq]
    exact hxy

/-- Any load returns the item. -/
theorem sameItem (h : Written db db' id item) (hschema : db.Schema)
    (hstatus : item.status = .published) (himages : ∀ img ∈ item.images, InInt img)
    (hsorted : item.tags.Pairwise (· < ·))
    (htags : ∀ slug ∈ item.tags, ∃ t ∈ db.tags.rows, t.slug = slug) (a : db'.Answers) :
    ∃ item' ∈ a.load, item'.id = id ∧ SameItem item item' := by
  obtain ⟨item', hitem', hbare⟩ := h.exists_mem_load hstatus a
  have hid : item'.id = id := congrArg Item.id hbare
  have hcolumns : columnsOf item' = columnsOf item := by
    rw [← columnsOf_itemOfRow id item, ← hbare]
    rfl
  obtain ⟨hperm, hordered⟩ := h.images_load hschema himages a hitem' hid
  have hslugs : (db'.tags.rows.map TagRow.slug).Nodup := h.tags ▸ hschema.slugs
  obtain ⟨hsorted', hmem⟩ := a.load_tags hslugs hitem'
  have htags' : item'.tags = item.tags := by
    apply hsorted'.eq_of_mem_iff hsorted
    intro slug
    rw [hmem, hid]
    exact h.mem_tags hschema htags slug
  exact ⟨item', hitem', hid, hcolumns, hperm, hordered, htags'⟩

end Written

/-! ## Items that come back -/

/-- The partner is the one thing that an item may have and the tables may lack. -/
theorem hasPartner_iff (hschema : db.Schema) (a : db.Answers) {item : Item}
    (hitem : item ∈ a.load) : db.hasPartner item.partnerId = true ↔
      ∀ r ∈ db.items.rows, r.id = item.id → r.partnerId = none → db.hasPartner 0 = true := by
  obtain ⟨r, hr, -, hbare⟩ := a.row_of_mem_load hitem
  have hid : item.id = r.id := congrArg Item.id hbare
  have hpartner : item.partnerId = r.partnerId.getD 0 := congrArg Item.partnerId hbare
  constructor
  · intro hhas s hs hsid hnone
    have hsame : s = r := Table.eq_of_key_eq db.items.unique hs hr rfl
      (congrArg some (hid.symm.trans hsid.symm))
    rwa [hpartner, ← hsame, hnone] at hhas
  · intro h
    cases hrow : r.partnerId with
    | none =>
        rw [hpartner, hrow]
        exact h r hr hid.symm hrow
    | some p =>
        rw [hpartner, hrow]
        exact hschema.partner r hr p hrow

/-- A published item without a partner. -/
def orphan : CatalogDb where
  partners := CatalogDb.migrated.partners
  items := ⟨[shelfRow 1 none .published], by decide⟩

end CatalogDb

end SSize
