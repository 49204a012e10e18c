import SSize.Catalog.Load

/-!
# What `load_published_items` returns

An `ORDER BY` leaves rows that are alike in its columns in any order. `Answers` is what
the five `SELECT`s may then deliver of one state, and whatever it is, every published row
becomes one item with the children that refer to it.
-/

namespace SSize

open Lib

namespace CatalogDb

variable (db : CatalogDb)

/-! ## The schema -/

/-- What `001_init.sql` demands of the rows besides the primary keys. -/
structure Schema : Prop where
  slugs : (db.tags.rows.map TagRow.slug).Nodup
  codes : (db.partners.rows.map Partner.code).Nodup
  partner : ∀ r ∈ db.items.rows, ∀ p ∈ r.partnerId, db.hasPartner p = true
  image : ∀ r ∈ db.itemImages.rows, db.hasItem r.itemId = true
  tag : ∀ r ∈ db.itemTags.rows, db.hasItem r.itemId = true ∧ (db.tags.find? r.tagId).isSome = true
  size : ∀ r ∈ db.itemSizes.rows, db.hasItem r.itemId = true
  color : ∀ r ∈ db.itemColors.rows, db.hasItem r.itemId = true

/-! ## The answers of the five `SELECT`s -/

/-- The two columns of `ORDER BY score DESC, published_at DESC`. -/
def selectRank (item : Item) : Scoreᵒᵈ ×ₗ (WithBot Int)ᵒᵈ :=
  toLex (OrderDual.toDual item.score, OrderDual.toDual (item.publishedAt : WithBot Int))

def SelectedBefore (a b : Item) : Prop := selectRank a ≤ selectRank b

def ImageBefore (a b : ImageRow) : Prop :=
  a.itemId < b.itemId ∨ a.itemId = b.itemId ∧ a.sortOrder ≤ b.sortOrder

/-- `item_tags` joined with `tags`. -/
def joinedTags : List (Int × Text) :=
  db.itemTags.rows.filterMap fun it =>
    (db.tags.find? it.tagId).map fun t => (it.itemId, t.slug)

/-- What they may deliver: the rows that they select, ordered by their columns only. -/
structure Answers where
  items : List Item
  images : List ImageRow
  tags : List (Int × Text)
  sizes : List SizeRow
  colors : List ColorRow
  items_perm : items.Perm (db.publishedRows.map itemOfRow)
  items_sorted : items.Pairwise SelectedBefore
  images_perm : images.Perm db.itemImages.rows
  images_sorted : images.Pairwise ImageBefore
  tags_perm : tags.Perm db.joinedTags
  tags_sorted : tags.Pairwise ByItemAndText
  sizes_perm : sizes.Perm db.itemSizes.rows
  sizes_sorted : sizes.Pairwise fun a b => a.itemId ≤ b.itemId
  colors_perm : colors.Perm db.itemColors.rows
  colors_sorted : colors.Pairwise fun a b => a.itemId ≤ b.itemId

variable {db}

/-- `load_published_items`. -/
def Answers.load (a : db.Answers) : List Item :=
  attachChildren a.items (a.images.map fun r => (r.itemId, imageOfRow r)) a.tags
    (a.sizes.map fun r => (r.itemId, r.size))
    (a.colors.map fun r => (r.itemId, ⟨r.color, orEmpty r.hex⟩))

/-! ## Ties broken by the primary key -/

instance : Std.Total ByItemAndText where
  total a b := by
    rcases lt_trichotomy a.1 b.1 with hlt | heq | hgt
    · exact Or.inl (Or.inl hlt)
    · exact (List.le_total a.2 b.2).imp (fun hle => Or.inr ⟨heq, hle⟩)
        fun hle => Or.inr ⟨heq.symm, hle⟩
    · exact Or.inr (Or.inl hgt)

instance : IsTrans (Int × Text) ByItemAndText where
  trans a b c := by
    rintro (hab | ⟨hab, hab'⟩) (hbc | ⟨hbc, hbc'⟩)
    · exact Or.inl (hab.trans hbc)
    · exact Or.inl (hbc ▸ hab)
    · exact Or.inl (hab ▸ hbc)
    · exact Or.inr ⟨hab.trans hbc, List.le_trans hab' hbc'⟩

theorem pairwise_insertionSort_of {α β : Type*} {r : β → β → Prop} [DecidableRel r] [Std.Total r]
    [IsTrans β r] (rank : α → β) (rows : List α) :
    (rows.insertionSort fun a b => r (rank a) (rank b)).Pairwise
      fun a b => r (rank a) (rank b) := by
  have htotal : Std.Total fun a b => r (rank a) (rank b) :=
    ⟨fun a b => Std.Total.total (rank a) (rank b)⟩
  have htrans : IsTrans α fun a b => r (rank a) (rank b) :=
    ⟨fun a b c => IsTrans.trans (rank a) (rank b) (rank c)⟩
  exact List.pairwise_insertionSort _ rows

theorem RankedBefore.selectedBefore {a b : Item} (h : RankedBefore a b) : SelectedBefore a b := by
  rcases Prod.Lex.le_iff.1 h with hscore | ⟨hscore, hrest⟩
  · exact Prod.Lex.le_iff.2 (Or.inl hscore)
  · exact Prod.Lex.le_iff.2 (Or.inr ⟨hscore, Prod.Lex.monotone_fst _ _ hrest⟩)

theorem imageBefore_of_rank {a b : ImageRow} (h : imageRank a ≤ imageRank b) :
    ImageBefore a b := by
  rcases Prod.Lex.le_iff.1 h with hitem | ⟨hitem, hrest⟩
  · exact Or.inl hitem
  · exact Or.inr ⟨hitem, Prod.Lex.monotone_fst _ _ hrest⟩

theorem ByItemAndText.le {a b : Int × Text} (h : ByItemAndText a b) : a.1 ≤ b.1 := by
  rcases h with hlt | ⟨heq, -⟩
  · exact hlt.le
  · exact heq.le

variable (db) in
def Answers.byKey : db.Answers where
  items := db.selectItems
  images := db.itemImages.rows.insertionSort fun a b => imageRank a ≤ imageRank b
  tags := db.selectTags
  sizes := db.itemSizes.rows.insertionSort fun a b =>
    ByItemAndText (a.itemId, a.size) (b.itemId, b.size)
  colors := db.itemColors.rows.insertionSort fun a b =>
    ByItemAndText (a.itemId, a.color) (b.itemId, b.color)
  items_perm := List.perm_insertionSort _ _
  items_sorted := (List.pairwise_insertionSort RankedBefore _).imp RankedBefore.selectedBefore
  images_perm := List.perm_insertionSort _ _
  images_sorted := (pairwise_insertionSort_of imageRank _).imp imageBefore_of_rank
  tags_perm := List.perm_insertionSort _ _
  tags_sorted := List.pairwise_insertionSort ByItemAndText _
  sizes_perm := List.perm_insertionSort _ _
  sizes_sorted :=
    (pairwise_insertionSort_of (fun r : SizeRow => (r.itemId, r.size)) _).imp ByItemAndText.le
  colors_perm := List.perm_insertionSort _ _
  colors_sorted :=
    (pairwise_insertionSort_of (fun r : ColorRow => (r.itemId, r.color)) _).imp ByItemAndText.le

/-- The load that a refresh makes of one state. -/
theorem Answers.load_byKey : (Answers.byKey db).load = (Reads.single db).loadItems := by
  have hsizes : (Answers.byKey db).sizes.map (fun r => (r.itemId, r.size)) = db.selectSizes :=
    List.map_insertionSort _ _ _ _ fun _ _ _ _ => Iff.rfl
  unfold load
  rw [hsizes]
  rfl

/-! ## One item for each published row -/

/-- The relational definition. -/
structure LoadsPublished (db : CatalogDb) (items : List Item) : Prop where
  /-- One item for each published row and no others. -/
  rows : (items.map Reads.bare).Perm (db.publishedRows.map itemOfRow)
  images : ∀ item ∈ items, ∃ rows : List ImageRow,
    rows.Perm (db.itemImages.rows.filter fun r => r.itemId = item.id) ∧
      rows.Pairwise (fun a b => a.sortOrder ≤ b.sortOrder) ∧ item.images = rows.map imageOfRow
  tags : ∀ item ∈ items, item.tags.Pairwise (· < ·) ∧
    ∀ slug, slug ∈ item.tags ↔ ∃ it ∈ db.itemTags.rows, ∃ t ∈ db.tags.rows,
      it.itemId = item.id ∧ t.id = it.tagId ∧ t.slug = slug
  sizes : ∀ item ∈ items,
    item.sizes.Perm ((db.itemSizes.rows.filter fun r => r.itemId = item.id).map SizeRow.size)
  colors : ∀ item ∈ items,
    item.colors.Perm ((db.itemColors.rows.filter fun r => r.itemId = item.id).map fun r =>
      ⟨r.color, orEmpty r.hex⟩)
  /-- So what refers to a draft or to an archived row is in no item. -/
  hidden : ∀ r ∈ db.items.rows, r.status ≠ .published → ∀ item ∈ items, item.id ≠ r.id

namespace Answers

variable (a : db.Answers)

theorem load_eq_map : a.load = a.items.map fun item =>
    { item with
      images := (a.images.filter fun r => r.itemId = item.id).map imageOfRow
      tags := childrenOf a.tags item.id
      sizes := (a.sizes.filter fun r => r.itemId = item.id).map SizeRow.size
      colors := (a.colors.filter fun r => r.itemId = item.id).map fun r =>
        ⟨r.color, orEmpty r.hex⟩ } := by
  have hmap := attachChildren_eq_map (db.nodup_of_perm a.items_perm)
    (fun _ => db.bare_of_perm a.items_perm)
    (a.images.map fun r => (r.itemId, imageOfRow r)) a.tags
    (a.sizes.map fun r => (r.itemId, r.size))
    (a.colors.map fun r => (r.itemId, (⟨r.color, orEmpty r.hex⟩ : Color)))
  simp only [childrenOf_map] at hmap
  exact hmap

theorem mem_load {item : Item} (h : item ∈ a.load) :
    item.images = (a.images.filter fun r => r.itemId = item.id).map imageOfRow ∧
      item.tags = childrenOf a.tags item.id ∧
      item.sizes = (a.sizes.filter fun r => r.itemId = item.id).map SizeRow.size ∧
      item.colors = (a.colors.filter fun r => r.itemId = item.id).map fun r =>
        ⟨r.color, orEmpty r.hex⟩ := by
  rw [load_eq_map] at h
  obtain ⟨bare, -, rfl⟩ := List.mem_map.1 h
  exact ⟨rfl, rfl, rfl, rfl⟩

theorem map_bare_load : a.load.map Reads.bare = a.items := by
  rw [load_eq_map]
  exact Reads.map_bare_map (fun _ => db.bare_of_perm a.items_perm) fun _ => rfl

theorem load_rows : (a.load.map Reads.bare).Perm (db.publishedRows.map itemOfRow) := by
  rw [map_bare_load]
  exact a.items_perm

theorem load_images {item : Item} (h : item ∈ a.load) : ∃ rows : List ImageRow,
    rows.Perm (db.itemImages.rows.filter fun r => r.itemId = item.id) ∧
      rows.Pairwise (fun a b => a.sortOrder ≤ b.sortOrder) ∧
      item.images = rows.map imageOfRow := by
  refine ⟨a.images.filter fun r => r.itemId = item.id, a.images_perm.filter _, ?_,
    (a.mem_load h).1⟩
  have hsorted := a.images_sorted.filter fun r => decide (r.itemId = item.id)
  apply hsorted.imp_of_mem
  intro x y hx hy hxy
  have hx' : x.itemId = item.id := by simpa using (List.mem_filter.1 hx).2
  have hy' : y.itemId = item.id := by simpa using (List.mem_filter.1 hy).2
  rcases hxy with hlt | ⟨-, hle⟩
  · omega
  · exact hle

/-- A slug comes once: the pairs of `item_tags` are unique, and so are the slugs. -/
theorem nodup_joinedTags (hslugs : (db.tags.rows.map TagRow.slug).Nodup) :
    db.joinedTags.Nodup := by
  have hrows : db.itemTags.rows.Nodup :=
    List.Nodup.of_map _ (Table.nodup_map_rows (fun _ => rfl) db.itemTags)
  apply hrows.filterMap
  rintro it it' ⟨i, slug⟩ hpair hpair'
  obtain ⟨t, ht, heq⟩ := Option.map_eq_some_iff.1 hpair
  obtain ⟨t', ht', heq'⟩ := Option.map_eq_some_iff.1 hpair'
  obtain ⟨hmem, hkey⟩ := Table.mem_of_find?_eq_some ht
  obtain ⟨hmem', hkey'⟩ := Table.mem_of_find?_eq_some ht'
  rw [Prod.mk.injEq] at heq heq'
  have htag : t = t' := List.inj_on_of_nodup_map hslugs hmem hmem' (heq.2.trans heq'.2.symm)
  have hid : it.tagId = it'.tagId := by
    rw [htag, hkey'] at hkey
    exact (Option.some.inj hkey).symm
  obtain ⟨itemId, tagId⟩ := it
  obtain ⟨itemId', tagId'⟩ := it'
  simp_all

theorem load_tags (hslugs : (db.tags.rows.map TagRow.slug).Nodup) {item : Item}
    (h : item ∈ a.load) : item.tags.Pairwise (· < ·) ∧
      ∀ slug, slug ∈ item.tags ↔ ∃ it ∈ db.itemTags.rows, ∃ t ∈ db.tags.rows,
        it.itemId = item.id ∧ t.id = it.tagId ∧ t.slug = slug := by
  rw [(a.mem_load h).2.1]
  constructor
  · have hnodup : a.tags.Nodup := a.tags_perm.nodup_iff.2 (nodup_joinedTags hslugs)
    have hstrict := (a.tags_sorted.and hnodup).filter fun row => decide (row.1 = item.id)
    rw [childrenOf, List.pairwise_map]
    apply hstrict.imp_of_mem
    rintro ⟨i, x⟩ ⟨j, y⟩ hx hy ⟨hle, hne⟩
    have hi : i = item.id := by simpa using (List.mem_filter.1 hx).2
    have hj : j = item.id := by simpa using (List.mem_filter.1 hy).2
    subst hi
    rcases hle with hlt | ⟨-, hle⟩
    · simp [hj] at hlt
    · rcases List.le_iff_lt_or_eq.1 hle with hlt | heq
      · exact hlt
      · exact absurd (Prod.ext hj.symm heq) hne
  · intro slug
    rw [mem_childrenOf, a.tags_perm.mem_iff, joinedTags, List.mem_filterMap]
    refine exists_congr fun it => and_congr_right fun _ => ?_
    rw [Option.map_eq_some_iff]
    refine exists_congr fun t => ?_
    rw [Table.find?_eq_some_iff, Prod.mk.injEq, TagRow.key, Option.some.injEq]
    tauto

theorem load_sizes {item : Item} (h : item ∈ a.load) :
    item.sizes.Perm ((db.itemSizes.rows.filter fun r => r.itemId = item.id).map SizeRow.size) := by
  rw [(a.mem_load h).2.2.1]
  exact (a.sizes_perm.filter _).map _

theorem load_colors {item : Item} (h : item ∈ a.load) :
    item.colors.Perm ((db.itemColors.rows.filter fun r => r.itemId = item.id).map fun r =>
      ⟨r.color, orEmpty r.hex⟩) := by
  rw [(a.mem_load h).2.2.2]
  exact (a.colors_perm.filter _).map _

/-- Every item is made from a published row. -/
theorem row_of_mem_load {item : Item} (h : item ∈ a.load) :
    ∃ r ∈ db.items.rows, r.status = .published ∧ Reads.bare item = itemOfRow r := by
  have hbare := a.load_rows.subset (List.mem_map_of_mem h)
  obtain ⟨r, hr, heq⟩ := List.mem_map.1 hbare
  obtain ⟨hmem, hstatus⟩ := List.mem_filter.1 hr
  exact ⟨r, hmem, by simpa using hstatus, heq.symm⟩

theorem load_hidden {r : ItemRow} (hr : r ∈ db.items.rows) (hstatus : r.status ≠ .published)
    {item : Item} (h : item ∈ a.load) : item.id ≠ r.id := by
  obtain ⟨s, hs, hpublished, hbare⟩ := a.row_of_mem_load h
  have hid : item.id = s.id := congrArg Item.id hbare
  intro heq
  have hsame : s = r := Table.eq_of_key_eq db.items.unique hs hr rfl
    (congrArg some (heq.symm.trans hid))
  exact hstatus (hsame ▸ hpublished)

end Answers

/-- Whatever the ties come to, a load without writes in between is the relational
definition. -/
theorem load_loadsPublished (h : db.Schema) (a : db.Answers) : LoadsPublished db a.load where
  rows := a.load_rows
  images _ := a.load_images
  tags _ := a.load_tags h.slugs
  sizes _ := a.load_sizes
  colors _ := a.load_colors
  hidden _ hr hstatus _ := a.load_hidden hr hstatus

/-- A row with nothing special about it. -/
def shelfRow (id : Int) (partnerId : Option Int) (status : ItemStatus) : ItemRow where
  id := id
  title := bytes "a"
  description := []
  priceKopek := 49900
  currency := bytes "RUB"
  partnerId := partnerId
  productUrl := bytes "https://a"
  status := status
  score := ((0 : ℚ) : WithTop ℚ)
  createdAt := 0
  updatedAt := 0

/-- A published item and a draft, with their children in turns. -/
def shelf : CatalogDb where
  partners := CatalogDb.migrated.partners
  items := ⟨[shelfRow 1 (some 1) .published, shelfRow 2 (some 1) .draft], by decide⟩
  itemImages :=
    ⟨[{ id := 1, itemId := 1, path := bytes "1.webp", sortOrder := 1 },
      { id := 2, itemId := 2, path := bytes "2.webp", sortOrder := 0 },
      { id := 3, itemId := 1, path := bytes "3.webp", sortOrder := 0 }], by decide⟩
  tags := ⟨[⟨1, bytes "y2k", bytes "Y2K"⟩, ⟨2, bytes "grunge", bytes "Grunge"⟩], by decide⟩
  itemTags := ⟨[⟨1, 1⟩, ⟨2, 1⟩, ⟨1, 2⟩], by decide⟩

theorem schema_shelf : shelf.Schema where
  slugs := by decide
  codes := by decide
  partner := by decide
  image := by decide
  tag := by decide
  size := by decide
  color := by decide

theorem load_loadsPublished_shelf : LoadsPublished shelf (Answers.byKey shelf).load :=
  load_loadsPublished schema_shelf (.byKey shelf)

end CatalogDb

end SSize
