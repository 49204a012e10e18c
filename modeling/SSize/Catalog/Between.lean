import SSize.Catalog.Forward
import SSize.Catalog.History

/-!
# How far a half-read catalog can be off

A refresh that transactions interrupt publishes a catalog that none of the states may have
had. It lies between the first and the last of the states that were read: the items with
their columns are those of the first, and each has at least the children that it had there
and at most those that it has in the last, where its partner is found.
-/

namespace SSize

open Lib CatalogDb

variable {db db' S S' : CatalogDb}

/-! ## The children later on -/

theorem mem_selectImages {id : Int} {img : Image} :
    (id, img) ∈ db.selectImages ↔ ∃ r ∈ db.itemImages.rows, r.itemId = id ∧ imageOfRow r = img := by
  rw [selectImages, List.mem_map]
  simp only [(List.perm_insertionSort _ _).mem_iff, Prod.mk.injEq]

theorem mem_selectTags {id : Int} {slug : Text} :
    (id, slug) ∈ db.selectTags ↔ ∃ it ∈ db.itemTags.rows, ∃ t, db.tags.find? it.tagId = some t ∧
      it.itemId = id ∧ t.slug = slug := by
  rw [selectTags, (List.perm_insertionSort _ _).mem_iff, List.mem_filterMap]
  simp only [Option.map_eq_some_iff, Prod.mk.injEq]

theorem mem_selectSizes {id : Int} {size : Text} :
    (id, size) ∈ db.selectSizes ↔ ∃ r ∈ db.itemSizes.rows, r.itemId = id ∧ r.size = size := by
  rw [selectSizes, (List.perm_insertionSort _ _).mem_iff, List.mem_map]
  simp only [Prod.mk.injEq]

theorem mem_selectColors {id : Int} {color : Color} :
    (id, color) ∈ db.selectColors ↔
      ∃ r ∈ db.itemColors.rows, r.itemId = id ∧ ⟨r.color, orEmpty r.hex⟩ = color := by
  rw [selectColors, List.mem_map]
  simp only [(List.perm_insertionSort _ _).mem_iff, Prod.mk.injEq]

/-- No child is lost, and none changes. -/
structure Reads.Within (r r' : Reads) : Prop where
  images : r.images.selectImages ⊆ r'.images.selectImages
  tags : r.tags.selectTags ⊆ r'.tags.selectTags
  sizes : r.sizes.selectSizes ⊆ r'.sizes.selectSizes
  colors : r.colors.selectColors ⊆ r'.colors.selectColors

theorem CatalogDb.Extends.selectImages (h : db.Extends db') :
    db.selectImages ⊆ db'.selectImages := by
  rintro ⟨id, img⟩ hmem
  obtain ⟨r, hr, hboth⟩ := mem_selectImages.1 hmem
  exact mem_selectImages.2 ⟨r, h.itemImages hr, hboth⟩

theorem CatalogDb.Extends.selectTags (h : db.Extends db') : db.selectTags ⊆ db'.selectTags := by
  rintro ⟨id, slug⟩ hmem
  obtain ⟨it, hit, t, ht, hboth⟩ := mem_selectTags.1 hmem
  exact mem_selectTags.2 ⟨it, h.itemTags hit, t, h.tags _ t ht, hboth⟩

theorem CatalogDb.Extends.selectSizes (h : db.Extends db') :
    db.selectSizes ⊆ db'.selectSizes := by
  rintro ⟨id, size⟩ hmem
  obtain ⟨r, hr, hboth⟩ := mem_selectSizes.1 hmem
  exact mem_selectSizes.2 ⟨r, h.itemSizes hr, hboth⟩

theorem CatalogDb.Extends.selectColors (h : db.Extends db') :
    db.selectColors ⊆ db'.selectColors := by
  rintro ⟨id, color⟩ hmem
  obtain ⟨r, hr, hboth⟩ := mem_selectColors.1 hmem
  exact mem_selectColors.2 ⟨r, h.itemColors hr, hboth⟩

/-- The same item with children that it may have got since. -/
structure Item.Within (item item' : Item) : Prop where
  columns : Reads.bare item = Reads.bare item'
  images : item.images ⊆ item'.images
  tags : item.tags ⊆ item'.tags
  sizes : item.sizes ⊆ item'.sizes
  colors : item.colors ⊆ item'.colors

theorem childrenOf_subset {α : Type*} {rows rows' : List (Int × α)} (h : rows ⊆ rows') (id : Int) :
    childrenOf rows id ⊆ childrenOf rows' id := by
  intro x hx
  rw [mem_childrenOf] at hx ⊢
  exact h hx

theorem Reads.Within.withChildren {r r' : Reads} (h : r.Within r') (item : Item) :
    (r.withChildren item).Within (r'.withChildren item) where
  columns := rfl
  images := childrenOf_subset h.images item.id
  tags := childrenOf_subset h.tags item.id
  sizes := childrenOf_subset h.sizes item.id
  colors := childrenOf_subset h.colors item.id

/-! ## Reads that follow one another -/

/-- The six states, each with what it has of the one before. -/
def Reads.InTurn (r : Reads) : Prop := r.inOrder.Pairwise CatalogDb.Extends

theorem Reads.InTurn.within {r : Reads} (h : r.InTurn) :
    (Reads.single r.items).Within r ∧ r.Within (.single r.partners) := by
  simp only [InTurn, Reads.inOrder, List.pairwise_cons, List.mem_cons, List.not_mem_nil,
    or_false, forall_eq_or_imp, forall_eq] at h
  obtain ⟨⟨himages, htags, hsizes, hcolors, -⟩, ⟨-, -, -, himages'⟩, ⟨-, -, htags'⟩,
    ⟨-, hsizes'⟩, hcolors', -⟩ := h
  exact ⟨⟨himages.selectImages, htags.selectTags, hsizes.selectSizes, hcolors.selectColors⟩,
    ⟨himages'.selectImages, htags'.selectTags, hsizes'.selectSizes, hcolors'.selectColors⟩⟩

theorem Reads.InTurn.first_last {r : Reads} (h : r.InTurn) : r.items.Extends r.partners := by
  simp only [InTurn, Reads.inOrder, List.pairwise_cons, List.mem_cons, List.not_mem_nil,
    or_false, forall_eq_or_imp, forall_eq] at h
  exact h.1.2.2.2.2

/-- The catalog between the state `S` that the items were read from and the state `S'` that
the partners were read from. -/
structure Catalog.Between (S S' : CatalogDb) (c : Catalog) : Prop where
  later : S.Extends S'
  rows : ∀ row ∈ S.publishedRows, ∃ item ∈ c.items, item.id = row.id
  items : ∀ item ∈ c.items, ∃ row ∈ S.publishedRows,
    ((Reads.single S).withChildren (itemOfRow row)).Within item ∧
      item.Within ((Reads.single S').withChildren (itemOfRow row))
  partner : ∀ item ∈ c.items, item.partnerId ≠ 0 →
    ∃ p ∈ S'.partners.rows, c.partner item.partnerId = some p

/-! ## What is found in a catalog -/

/-- With one row for each key, a search is a membership. -/
theorem find?_eq_some_iff_mem {α : Type*} {key : α → Int} {rows : List α}
    (hkeys : (rows.map key).Nodup) {k : Int} {row : α} :
    rows.find? (fun row => key row == k) = some row ↔ row ∈ rows ∧ key row = k := by
  constructor
  · intro hfind
    exact ⟨List.mem_of_find?_eq_some hfind, by simpa using List.find?_some hfind⟩
  · rintro ⟨hrow, rfl⟩
    cases hfind : rows.find? fun row' => key row' == key row with
    | none => simpa using List.find?_eq_none.1 hfind row hrow
    | some found =>
        have hfound := List.mem_of_find?_eq_some hfind
        have hsame : key found = key row := by simpa using List.find?_some hfind
        rw [List.inj_on_of_nodup_map hkeys hfound hrow hsame]

theorem Reads.mem_catalogOf {r : Reads} {item : Item} :
    item ∈ r.catalogOf.items ↔
      ∃ row ∈ r.items.publishedRows, item = r.withChildren (itemOfRow row) := by
  rw [Reads.catalogOf, Catalog.ofRows, (List.perm_insertionSort FeedOrder _).mem_iff,
    r.loadItems_eq_map, selectItems, List.mem_map]
  simp only [(List.perm_insertionSort RankedBefore _).mem_iff, List.mem_map]
  constructor
  · rintro ⟨_, ⟨row, hrow, rfl⟩, rfl⟩
    exact ⟨row, hrow, rfl⟩
  · rintro ⟨row, hrow, rfl⟩
    exact ⟨_, ⟨row, hrow, rfl⟩, rfl⟩

theorem Reads.nodup_catalogOf (r : Reads) : (r.catalogOf.items.map Item.id).Nodup := by
  have hperm : (r.catalogOf.items.map Item.id).Perm (r.loadItems.map Item.id) :=
    (List.perm_insertionSort FeedOrder r.loadItems).map Item.id
  rw [hperm.nodup_iff, r.map_id_loadItems]
  exact r.items.nodup_selectItems

/-- The items of a catalog are the published rows that were read. -/
theorem Reads.find_catalogOf {r : Reads} {id : Int} {item : Item} :
    r.catalogOf.find id = some item ↔ ∃ row, r.items.items.find? id = some row ∧
      row.status = .published ∧ item = r.withChildren (itemOfRow row) := by
  rw [Catalog.find, find?_eq_some_iff_mem r.nodup_catalogOf, r.mem_catalogOf]
  simp only [publishedRows, List.mem_filter, decide_eq_true_eq, Table.find?_eq_some_iff]
  constructor
  · rintro ⟨⟨row, ⟨hrow, hpublished⟩, rfl⟩, rfl⟩
    exact ⟨row, ⟨hrow, rfl⟩, hpublished, rfl⟩
  · rintro ⟨row, ⟨hrow, hid⟩, hpublished, rfl⟩
    exact ⟨⟨row, ⟨hrow, hpublished⟩, rfl⟩, Option.some.inj hid⟩

theorem Reads.InTurn.between {r : Reads} (h : r.InTurn) (hschema : r.items.Schema) :
    r.catalogOf.Between r.items r.partners where
  later := h.first_last
  rows row hrow := ⟨_, r.mem_catalogOf.2 ⟨row, hrow, rfl⟩, rfl⟩
  items item hitem := by
    obtain ⟨row, hrow, rfl⟩ := r.mem_catalogOf.1 hitem
    exact ⟨row, hrow, h.within.1.withChildren _, h.within.2.withChildren _⟩
  partner item hitem hpartner := by
    obtain ⟨row, hrow, rfl⟩ := r.mem_catalogOf.1 hitem
    cases hid : row.partnerId with
    | none => exact absurd (show row.partnerId.getD 0 = 0 by rw [hid]; rfl) hpartner
    | some id =>
        have hmem : row ∈ r.items.items.rows := (List.mem_filter.1 hrow).1
        have hthere := h.first_last.partners id (hschema.partner row hmem id hid)
        obtain ⟨p, hp, hpid⟩ := hasPartner_iff_mem.1 hthere
        refine ⟨p, hp, ?_⟩
        have hkeys := Table.nodup_map_rows (k := Partner.id) (fun _ => rfl) r.partners.partners
        refine (find?_eq_some_iff_mem hkeys).2 ⟨hp, hpid.trans ?_⟩
        show id = row.partnerId.getD 0
        rw [hid]
        rfl

/-! ## The history of commits -/

/-- Every committed state extends those before it. -/
structure Refresher.Chained (s : Refresher) : Prop where
  forward : s.Forward
  chain : s.committed.Pairwise CatalogDb.Extends
  schema : ∀ S ∈ s.committed, S.Schema

variable {s t : Refresher} {a : RefreshAct}

theorem Refresher.Chained.init (hschema : db.Schema) : (Refresher.init db).Chained where
  forward := .init db
  chain := List.pairwise_singleton _ _
  schema S hS := by
    rw [List.mem_singleton.1 hS]
    exact hschema

/-- Only a transaction adds to the history. -/
theorem committed_step (hstep : refreshStep s a = some t) :
    t.committed = s.committed ∨
      ∃ tx, runTransaction s.db tx = some t.db ∧ t.committed = s.committed ++ [t.db] := by
  cases a with
  | commit tx =>
      rw [refreshStep] at hstep
      split at hstep
      · cases hstep
        exact Or.inl rfl
      · next hdb =>
          cases hstep
          exact Or.inr ⟨tx, hdb, rfl⟩
  | fail =>
      cases hstep
      exact Or.inl rfl
  | select => exact Or.inl (Refresher.everRead_select hstep).2.1

theorem Refresher.Chained.step (h : s.Chained) (hstep : refreshStep s a = some t) :
    t.Chained := by
  refine ⟨h.forward.step hstep, ?_, ?_⟩
  · rcases committed_step hstep with hsame | ⟨tx, htx, hmore⟩
    · rw [hsame]
      exact h.chain
    · rw [hmore, List.pairwise_append]
      refine ⟨h.chain, List.pairwise_singleton _ _, fun S hS S' hS' => ?_⟩
      rw [List.mem_singleton.1 hS']
      have hextends := (runTransaction_keeps htx).later
      obtain ⟨before, hbefore⟩ := List.getLast?_eq_some_iff.1 h.forward.current
      have hchain := h.chain
      rw [hbefore] at hS hchain
      rcases List.mem_append.1 hS with hS | hS
      · exact ((List.pairwise_append.1 hchain).2.2 S hS s.db (by simp)).trans hextends
      · rw [List.mem_singleton.1 hS]
        exact hextends
  · rcases committed_step hstep with hsame | ⟨tx, htx, hmore⟩
    · rw [hsame]
      exact h.schema
    · rw [hmore]
      intro S hS
      have hcurrent := List.mem_of_getLast? h.forward.current
      rcases List.mem_append.1 hS with hS | hS
      · exact h.schema S hS
      · rw [List.mem_singleton.1 hS]
        exact (runTransaction_keeps htx).schema (h.schema _ hcurrent)

/-- In the order of their commits the states of the catalog tables extend one another and
satisfy the schema, whatever transactions there are and whichever of them fail. -/
theorem committed_extend {as : List RefreshAct} (hschema : db.Schema)
    (hrun : Runs.exec refreshStep (.init db) as = some s) :
    s.committed.Pairwise CatalogDb.Extends ∧ ∀ S ∈ s.committed, S.Schema := by
  have hchained : s.Chained := by
    refine Runs.exec_invariant ?_ (Refresher.Chained.init hschema) hrun
    intro u a v hu huv
    exact hu.step huv
  exact ⟨hchained.chain, hchained.schema⟩

/-- An item is published and archived, a tag is attached to an item that there is not. -/
theorem committed_extend_archived :
    ∃ s, Runs.exec refreshStep (.init .migrated)
        [.commit oneItem, .commit [.setItemStatus 1 .archived 5], .commit [.attachTag 7 1]] =
        some s ∧
      s.committed.length = 3 ∧ s.committed.Pairwise CatalogDb.Extends := by
  have hrun : (Runs.exec refreshStep (.init .migrated)
      [.commit oneItem, .commit [.setItemStatus 1 .archived 5], .commit [.attachTag 7 1]]).map
        (fun s => s.committed.length) = some 3 := by
    decide
  obtain ⟨s, hs, hlength⟩ := Option.map_eq_some_iff.1 hrun
  refine ⟨s, hs, hlength, (committed_extend ?_ hs).1⟩
  constructor <;> decide

end SSize
