import SSize.Catalog.Published

/-!
# What the writers keep

No writer takes a row away, and what changes in a row that is there is the status of an
item with its two times, or a partner. So any later state of the catalog tables extends
an earlier one, and satisfies the schema if that did.
-/

namespace SSize

open Lib

/-- The row later on: `published_at` is set once. -/
structure ItemRow.Becomes (row row' : ItemRow) : Prop where
  columns : { row' with
    status := row.status, updatedAt := row.updatedAt, publishedAt := row.publishedAt } = row
  publishedAt : ∀ ts ∈ row.publishedAt, row'.publishedAt = some ts

theorem ItemRow.Becomes.refl (row : ItemRow) : row.Becomes row := ⟨rfl, fun _ h => h⟩

theorem ItemRow.Becomes.trans {row row' row'' : ItemRow} (h : row.Becomes row')
    (h' : row'.Becomes row'') : row.Becomes row'' := by
  refine ⟨?_, fun ts hts => h'.publishedAt ts (h.publishedAt ts hts)⟩
  have hfirst := h.columns
  rw [← h'.columns] at hfirst
  exact hfirst

namespace CatalogDb

/-- Any later state. -/
structure Extends (db db' : CatalogDb) : Prop where
  partners : ∀ id, db.hasPartner id = true → db'.hasPartner id = true
  items : ∀ id row, db.items.find? id = some row →
    ∃ row', db'.items.find? id = some row' ∧ row.Becomes row'
  tags : ∀ id t, db.tags.find? id = some t → db'.tags.find? id = some t
  itemImages : db.itemImages.rows ⊆ db'.itemImages.rows
  itemTags : db.itemTags.rows ⊆ db'.itemTags.rows
  itemSizes : db.itemSizes.rows ⊆ db'.itemSizes.rows
  itemColors : db.itemColors.rows ⊆ db'.itemColors.rows

theorem Extends.refl (db : CatalogDb) : db.Extends db where
  partners _ := id
  items _ row h := ⟨row, h, .refl row⟩
  tags _ _ := id
  itemImages := List.Subset.refl _
  itemTags := List.Subset.refl _
  itemSizes := List.Subset.refl _
  itemColors := List.Subset.refl _

variable {db db' db'' : CatalogDb}

theorem Extends.trans (h : db.Extends db') (h' : db'.Extends db'') : db.Extends db'' where
  partners id hid := h'.partners id (h.partners id hid)
  items id row hrow := by
    obtain ⟨row', hrow', hbecomes⟩ := h.items id row hrow
    obtain ⟨row'', hrow'', hbecomes'⟩ := h'.items id row' hrow'
    exact ⟨row'', hrow'', hbecomes.trans hbecomes'⟩
  tags id t ht := h'.tags id t (h.tags id t ht)
  itemImages := List.Subset.trans h.itemImages h'.itemImages
  itemTags := List.Subset.trans h.itemTags h'.itemTags
  itemSizes := List.Subset.trans h.itemSizes h'.itemSizes
  itemColors := List.Subset.trans h.itemColors h'.itemColors

theorem Extends.hasItem (h : db.Extends db') {id : Int} (hid : db.hasItem id = true) :
    db'.hasItem id = true := by
  rw [CatalogDb.hasItem, Option.isSome_iff_exists] at hid ⊢
  obtain ⟨row, hrow⟩ := hid
  obtain ⟨row', hrow', -⟩ := h.items id row hrow
  exact ⟨row', hrow'⟩

/-- The state later on, with the schema kept. -/
structure Keeps (db db' : CatalogDb) : Prop where
  later : db.Extends db'
  schema : db.Schema → db'.Schema

theorem Keeps.refl (db : CatalogDb) : db.Keeps db := ⟨.refl db, id⟩

theorem Keeps.trans (h : db.Keeps db') (h' : db'.Keeps db'') : db.Keeps db'' :=
  ⟨h.later.trans h'.later, fun hschema => h'.schema (h.schema hschema)⟩

end CatalogDb

/-! ## Adding a row -/

namespace Lib.Table

variable {α κ : Type*} {key : α → Option κ} [DecidableEq κ] {t u : Table α key} {r : α}

theorem find?_insert? (h : t.insert? r = some u) {k : κ} {x : α} (hx : t.find? k = some x) :
    u.find? k = some x := by
  rw [find?_eq_some_iff] at hx ⊢
  rw [(insert?_eq_some.1 h).2]
  exact ⟨List.mem_append_left _ hx.1, hx.2⟩

theorem subset_insert? (h : t.insert? r = some u) : t.rows ⊆ u.rows := by
  rw [(insert?_eq_some.1 h).2]
  exact List.subset_append_left _ _

/-- `INSERT OR IGNORE`. -/
theorem mem_insert?_getD {x : α} (h : x ∈ ((t.insert? r).getD t).rows) : x ∈ t.rows ∨ x = r := by
  cases hinsert : t.insert? r with
  | none =>
      rw [hinsert] at h
      exact Or.inl h
  | some u =>
      rw [hinsert, Option.getD_some, (insert?_eq_some.1 hinsert).2] at h
      simpa using h

theorem subset_insert?_getD : t.rows ⊆ ((t.insert? r).getD t).rows := by
  cases hinsert : t.insert? r with
  | none => exact List.Subset.refl _
  | some u => exact subset_insert? hinsert

end Lib.Table

namespace CatalogDb

variable {db db' : CatalogDb}

/-! ## The writers -/

/-- `SELECT 1 FROM partners WHERE id = ?` and the same for `items`. -/
theorem hasPartner_iff_mem {id : Int} :
    db.hasPartner id = true ↔ ∃ p ∈ db.partners.rows, p.id = id := by
  rw [hasPartner, Option.isSome_iff_exists]
  constructor
  · rintro ⟨p, hp⟩
    obtain ⟨hmem, hkey⟩ := Table.find?_eq_some_iff.1 hp
    exact ⟨p, hmem, Option.some.inj hkey⟩
  · rintro ⟨p, hmem, rfl⟩
    exact ⟨p, Table.find?_eq_some_iff.2 ⟨hmem, rfl⟩⟩

theorem hasItem_iff_mem {id : Int} :
    db.hasItem id = true ↔ ∃ r ∈ db.items.rows, r.id = id := by
  rw [hasItem, Option.isSome_iff_exists]
  constructor
  · rintro ⟨r, hr⟩
    obtain ⟨hmem, hkey⟩ := Table.find?_eq_some_iff.1 hr
    exact ⟨r, hmem, Option.some.inj hkey⟩
  · rintro ⟨r, hmem, rfl⟩
    exact ⟨r, Table.find?_eq_some_iff.2 ⟨hmem, rfl⟩⟩

/-- Only the parents of child rows matter to the child rows. -/
theorem Schema.extend (h : db.Schema) (hextends : db.Extends db')
    (hslugs : (db'.tags.rows.map TagRow.slug).Nodup)
    (hcodes : (db'.partners.rows.map Partner.code).Nodup)
    (hitems : ∀ r ∈ db'.items.rows, ∀ p ∈ r.partnerId,
      (∃ r' ∈ db.items.rows, r'.partnerId = some p) ∨ db'.hasPartner p = true)
    (himages : ∀ r ∈ db'.itemImages.rows, r ∈ db.itemImages.rows ∨ db'.hasItem r.itemId = true)
    (htags : ∀ r ∈ db'.itemTags.rows, r ∈ db.itemTags.rows ∨
      db'.hasItem r.itemId = true ∧ (db'.tags.find? r.tagId).isSome = true)
    (hsizes : ∀ r ∈ db'.itemSizes.rows, r ∈ db.itemSizes.rows ∨ db'.hasItem r.itemId = true)
    (hcolors : ∀ r ∈ db'.itemColors.rows, r ∈ db.itemColors.rows ∨ db'.hasItem r.itemId = true) :
    db'.Schema where
  slugs := hslugs
  codes := hcodes
  partner r hr p hp := by
    rcases hitems r hr p hp with ⟨r', hr', hsame⟩ | hthere
    · exact hextends.partners p (h.partner r' hr' p hsame)
    · exact hthere
  image r hr := (himages r hr).elim (fun hold => hextends.hasItem (h.image r hold)) fun h => h
  tag r hr := by
    rcases htags r hr with hold | hthere
    · obtain ⟨hitem, htag⟩ := h.tag r hold
      obtain ⟨t, ht⟩ := Option.isSome_iff_exists.1 htag
      exact ⟨hextends.hasItem hitem, Option.isSome_iff_exists.2 ⟨t, hextends.tags _ t ht⟩⟩
    · exact hthere
  size r hr := (hsizes r hr).elim (fun hold => hextends.hasItem (h.size r hold)) fun h => h
  color r hr := (hcolors r hr).elim (fun hold => hextends.hasItem (h.color r hold)) fun h => h

theorem insertItem_keeps {item : Item} (h : db.insertItem item = some db') : db.Keeps db' := by
  obtain ⟨⟨_, id⟩, hinsert, rfl⟩ := Option.map_eq_some_iff.1 h
  cases hpartner : db.hasPartner item.partnerId with
  | false => simp [insertItemWith, hpartner] at hinsert
  | true =>
      cases hitems : db.items.insert? (itemRow (RowIds.successor.next db.items.keys) item) with
      | none => simp [insertItemWith, hpartner, hitems] at hinsert
      | some items =>
          simp only [insertItemWith, hpartner, hitems] at hinsert
          cases hinsert
          have hrows := (Table.insert?_eq_some.1 hitems).2
          have hextends : db.Extends { db with items := items } :=
            { Extends.refl db with
              items := fun id row hrow => ⟨row, Table.find?_insert? hitems hrow, .refl row⟩ }
          refine ⟨hextends, fun hschema => hschema.extend hextends hschema.slugs hschema.codes ?_
            (fun _ => Or.inl) (fun _ => Or.inl) (fun _ => Or.inl) fun _ => Or.inl⟩
          intro r hr p hp
          rw [show items.rows = _ from hrows] at hr
          rcases List.mem_append.1 hr with hr | hr
          · exact Or.inl ⟨r, hr, hp⟩
          · rw [List.mem_singleton.1 hr] at hp
            right
            rw [← Option.some.inj hp]
            exact hpartner

theorem setItemStatus_keeps {id : Int} {status : ItemStatus} {now : TsMs}
    (h : db.setItemStatus id status now = some db') : db.Keeps db' := by
  rw [setItemStatus] at h
  split at h
  · cases h
    exact .refl db
  · next row hrow =>
      cases h
      have hkey := (Table.find?_eq_some_iff.1 hrow).2
      have hextends : db.Extends { db with items := db.items.upsert setRow { row with
          status := status
          updatedAt := now
          publishedAt := if status = .published ∧ row.publishedAt = none then some now
            else row.publishedAt } } := by
        refine { Extends.refl db with items := fun k old hold => ?_ }
        by_cases hk : k = id
        · subst hk
          rw [hrow, Option.some.injEq] at hold
          subst hold
          refine ⟨_, Table.find?_upsert_self setRow hkey, ?_⟩
          simp only [hrow, setRow]
          refine ⟨rfl, fun ts hts => ?_⟩
          rw [if_neg (by simp [Option.mem_def.1 hts])]
          exact hts
        · refine ⟨old, (Table.find?_upsert_ne setRow ?_).trans hold, .refl old⟩
          exact fun heq => hk (Option.some.inj (heq.symm.trans hkey))
      refine ⟨hextends, fun hschema => hschema.extend hextends hschema.slugs hschema.codes ?_
        (fun _ => Or.inl) (fun _ => Or.inl) (fun _ => Or.inl) fun _ => Or.inl⟩
      intro r hr p hp
      left
      rcases Table.mem_upsert setRow hr with rfl | hold | ⟨old, hold, -, rfl⟩
      · exact ⟨row, (Table.find?_eq_some_iff.1 hrow).1, hp⟩
      · exact ⟨r, hold, hp⟩
      · exact ⟨row, (Table.find?_eq_some_iff.1 hrow).1, hp⟩

theorem upsertTag_keeps {slug title : Text} (h : db.upsertTag slug title = some db') :
    db.Keeps db' := by
  obtain ⟨⟨_, id⟩, hupsert, rfl⟩ := Option.map_eq_some_iff.1 h
  rw [upsertTagWith] at hupsert
  split at hupsert
  · cases hupsert
    exact .refl db
  · next hfresh =>
      obtain ⟨tags, htags, hsame⟩ := Option.bind_eq_some_iff.1 hupsert
      cases hsame
      have hrows := (Table.insert?_eq_some.1 htags).2
      have hextends : db.Extends { db with tags := tags } :=
        { Extends.refl db with tags := fun k t ht => Table.find?_insert? htags ht }
      refine ⟨hextends, fun hschema => hschema.extend hextends ?_ hschema.codes
        (fun r hr p hp => Or.inl ⟨r, hr, hp⟩) (fun _ => Or.inl) (fun _ => Or.inl)
        (fun _ => Or.inl) fun _ => Or.inl⟩
      rw [show tags.rows = _ from hrows, List.map_append, List.map_singleton]
      refine List.nodup_append.2 ⟨hschema.slugs, List.nodup_singleton _, ?_⟩
      intro x hx y hy hxy
      rw [List.mem_singleton] at hy
      obtain ⟨t, ht, rfl⟩ := List.mem_map.1 hx
      simpa [hxy, hy] using List.find?_eq_none.1 hfresh t ht

theorem attachTag_keeps {itemId tagId : Int} (h : db.attachTag itemId tagId = some db') :
    db.Keeps db' := by
  rw [attachTag] at h
  obtain ⟨_, hguard, h⟩ := Option.bind_eq_some_iff.1 h
  cases h
  have hthere : (db.hasItem itemId && (db.tags.find? tagId).isSome) = true := by
    simpa [guard, Option.isSome_iff_ne_none] using hguard
  rw [Bool.and_eq_true] at hthere
  have hextends : db.Extends
      { db with itemTags := (db.itemTags.insert? ⟨itemId, tagId⟩).getD db.itemTags } :=
    { Extends.refl db with itemTags := Table.subset_insert?_getD }
  refine ⟨hextends, fun hschema => hschema.extend hextends hschema.slugs hschema.codes
    (fun r hr p hp => Or.inl ⟨r, hr, hp⟩) (fun _ => Or.inl) ?_ (fun _ => Or.inl) fun _ => Or.inl⟩
  intro r hr
  exact (Table.mem_insert?_getD hr).imp_right fun hsame => by rw [hsame]; exact hthere

theorem addImage_keeps {itemId : Int} {img : Image} (h : db.addImage itemId img = some db') :
    db.Keeps db' := by
  rw [addImage, addImageWith] at h
  obtain ⟨_, hguard, h⟩ := Option.bind_eq_some_iff.1 h
  obtain ⟨images, himages, h⟩ := Option.bind_eq_some_iff.1 h
  cases h
  have hitem : db.hasItem itemId = true := by simpa [guard] using hguard
  have hrows := (Table.insert?_eq_some.1 himages).2
  have hextends : db.Extends { db with itemImages := images } :=
    { Extends.refl db with itemImages := Table.subset_insert? himages }
  refine ⟨hextends, fun hschema => hschema.extend hextends hschema.slugs hschema.codes
    (fun r hr p hp => Or.inl ⟨r, hr, hp⟩) ?_ (fun _ => Or.inl) (fun _ => Or.inl) fun _ => Or.inl⟩
  intro r hr
  rw [show images.rows = _ from hrows] at hr
  rcases List.mem_append.1 hr with hr | hr
  · exact Or.inl hr
  · rw [List.mem_singleton.1 hr]
    exact Or.inr hitem

theorem addSize_keeps {itemId : Int} {size : Text} (h : db.addSize itemId size = some db') :
    db.Keeps db' := by
  rw [addSize] at h
  obtain ⟨_, hguard, h⟩ := Option.bind_eq_some_iff.1 h
  cases h
  have hitem : db.hasItem itemId = true := by simpa [guard] using hguard
  have hextends : db.Extends
      { db with itemSizes := (db.itemSizes.insert? ⟨itemId, size⟩).getD db.itemSizes } :=
    { Extends.refl db with itemSizes := Table.subset_insert?_getD }
  refine ⟨hextends, fun hschema => hschema.extend hextends hschema.slugs hschema.codes
    (fun r hr p hp => Or.inl ⟨r, hr, hp⟩) (fun _ => Or.inl) (fun _ => Or.inl) ?_ fun _ => Or.inl⟩
  intro r hr
  exact (Table.mem_insert?_getD hr).imp_right fun hsame => by rw [hsame]; exact hitem

theorem addColor_keeps {itemId : Int} {color hex : Text}
    (h : db.addColor itemId color hex = some db') : db.Keeps db' := by
  rw [addColor] at h
  obtain ⟨_, hguard, h⟩ := Option.bind_eq_some_iff.1 h
  cases h
  have hitem : db.hasItem itemId = true := by simpa [guard] using hguard
  have hextends : db.Extends { db with
      itemColors := (db.itemColors.insert? ⟨itemId, color, some hex⟩).getD db.itemColors } :=
    { Extends.refl db with itemColors := Table.subset_insert?_getD }
  refine ⟨hextends, fun hschema => hschema.extend hextends hschema.slugs hschema.codes
    (fun r hr p hp => Or.inl ⟨r, hr, hp⟩) (fun _ => Or.inl) (fun _ => Or.inl) (fun _ => Or.inl) ?_⟩
  intro r hr
  exact (Table.mem_insert?_getD hr).imp_right fun hsame => by rw [hsame]; exact hitem

/-- `code TEXT NOT NULL UNIQUE`. -/
theorem codeFree_iff {id : Int} {code : Text} :
    db.codeFree id code = true ↔ ∀ p ∈ db.partners.rows, p.id ≠ id → p.code ≠ code := by
  simp only [codeFree, List.all_eq_true, Bool.or_eq_true, beq_iff_eq, bne_iff_ne]
  exact forall₂_congr fun p hp => or_iff_not_imp_left

theorem editPartner_keeps {p : Partner} (h : db.editPartner p = some db') : db.Keeps db' := by
  rw [editPartner] at h
  split at h
  · cases h
    exact .refl db
  · next old hold =>
      obtain ⟨_, hguard, h⟩ := Option.bind_eq_some_iff.1 h
      cases h
      have hfree : db.codeFree p.id p.code = true := by simpa [guard] using hguard
      rw [codeFree_iff] at hfree
      have hold' := Table.find?_eq_some_iff.1 hold
      have hkeys : p.id ∈ db.partners.keys := Table.mem_keys.2 ⟨old, hold'⟩
      have hextends : db.Extends { db with partners := db.partners.upsert setPartner p } := by
        refine { Extends.refl db with partners := fun id hid => ?_ }
        rw [hasPartner_iff_mem] at hid
        obtain ⟨q, hq, rfl⟩ := hid
        have hmem : q.id ∈ (db.partners.upsert setPartner p).keys :=
          (Table.mem_keys_upsert setPartner).2 (Or.inl (Table.mem_keys.2 ⟨q, hq, rfl⟩))
        obtain ⟨r, hr, hkey⟩ := Table.mem_keys.1 hmem
        exact hasPartner_iff_mem.2 ⟨r, hr, Option.some.inj hkey⟩
      refine ⟨hextends, fun hschema => hschema.extend hextends hschema.slugs ?_
        (fun r hr p hp => Or.inl ⟨r, hr, hp⟩) (fun _ => Or.inl) (fun _ => Or.inl)
        (fun _ => Or.inl) fun _ => Or.inl⟩
      rw [Table.rows_upsert_taken setPartner rfl hkeys, List.map_map]
      refine (List.nodup_map_iff_inj_on (List.Nodup.of_map _ hschema.codes)).2 ?_
      intro x hx y hy hxy
      have hkey : ∀ q : Partner, Partner.key q = some p.id ↔ q.id = p.id := fun q => by
        simp [Partner.key]
      simp only [Function.comp_apply, hkey] at hxy
      by_cases hxid : x.id = p.id <;> by_cases hyid : y.id = p.id
      · exact Table.eq_of_key_eq db.partners.unique hx hy ((hkey x).2 hxid) ((hkey y).2 hyid)
      · rw [if_pos hxid, if_neg hyid] at hxy
        exact absurd hxy.symm (hfree y hy hyid)
      · rw [if_neg hxid, if_pos hyid] at hxy
        exact absurd hxy (hfree x hx hxid)
      · rw [if_neg hxid, if_neg hyid] at hxy
        exact List.inj_on_of_nodup_map hschema.codes hx hy hxy

theorem addPartner_keeps {p : Partner} (h : db.addPartner p = some db') : db.Keeps db' := by
  rw [addPartner] at h
  obtain ⟨_, hguard, h⟩ := Option.bind_eq_some_iff.1 h
  obtain ⟨partners, hpartners, h⟩ := Option.bind_eq_some_iff.1 h
  cases h
  have hfree : db.codeFree (nextId db.partners.keys) p.code = true := by
    simpa [guard] using hguard
  rw [codeFree_iff] at hfree
  have hrows := (Table.insert?_eq_some.1 hpartners).2
  have hextends : db.Extends { db with partners := partners } := by
    refine { Extends.refl db with partners := fun id hid => ?_ }
    rw [hasPartner_iff_mem] at hid ⊢
    obtain ⟨q, hq, hid⟩ := hid
    exact ⟨q, Table.subset_insert? hpartners hq, hid⟩
  refine ⟨hextends, fun hschema => hschema.extend hextends hschema.slugs ?_
    (fun r hr p hp => Or.inl ⟨r, hr, hp⟩) (fun _ => Or.inl) (fun _ => Or.inl)
    (fun _ => Or.inl) fun _ => Or.inl⟩
  rw [show partners.rows = _ from hrows, List.map_append, List.map_singleton]
  refine List.nodup_append.2 ⟨hschema.codes, List.nodup_singleton _, ?_⟩
  intro x hx y hy hxy
  rw [List.mem_singleton] at hy
  obtain ⟨q, hq, rfl⟩ := List.mem_map.1 hx
  refine hfree q hq (fun hid => ?_) (hxy.trans hy)
  exact nextId_fresh db.partners.keys (Table.mem_keys.2 ⟨q, hq, congrArg some hid⟩)

/-! ## Transactions -/

theorem apply_keeps {op : WriterOp} (h : op.apply db = some db') : db.Keeps db' := by
  cases op with
  | insertItem item => exact insertItem_keeps h
  | setItemStatus id status now => exact setItemStatus_keeps h
  | upsertTag slug title => exact upsertTag_keeps h
  | attachTag itemId tagId => exact attachTag_keeps h
  | addImage itemId img => exact addImage_keeps h
  | addSize itemId size => exact addSize_keeps h
  | addColor itemId color hex => exact addColor_keeps h
  | editPartner p => exact editPartner_keeps h
  | addPartner p => exact addPartner_keeps h

theorem runTransaction_keeps {tx : List WriterOp} (h : runTransaction db tx = some db') :
    db.Keeps db' := by
  unfold runTransaction at h
  induction tx generalizing db with
  | nil =>
      cases h
      exact .refl _
  | cons op tx ih =>
      rw [List.foldlM_cons] at h
      obtain ⟨mid, hmid, hrest⟩ := Option.bind_eq_some_iff.1 h
      exact (apply_keeps hmid).trans (ih hrest)

end CatalogDb

end SSize
