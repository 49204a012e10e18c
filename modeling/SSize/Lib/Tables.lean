import Mathlib.Data.List.Nodup
import Mathlib.Data.List.Induction
import Mathlib.Order.Basic

/-!
# Tables under a unique index on a nullable key

A `Table` is the list of its rows, oldest first, together with the proof that no
two rows carry the same key. The key of a row may be `none`, the SQL `NULL`,
which a partial unique index skips: any number of rows may have it.

* `insert?` is a plain `INSERT`: it is refused on a duplicate key;
* `upsert` is `INSERT ... ON CONFLICT(key) DO UPDATE`: on a duplicate key the
  row that is there is merged with the new one and keeps its place;
* `delete` is `DELETE ... WHERE p`.

`find?_foldl_upsert` says what a sequence of upserts leaves under a key: the
row that was there or the first one written, merged in order with the later ones.
-/

namespace SSize.Lib

variable {α κ : Type*}

/-- Rows whose non-null keys are pairwise different. -/
@[ext] structure Table (α : Type*) {κ : Type*} (key : α → Option κ) where
  rows : List α
  unique : (rows.filterMap key).Nodup

namespace Table

variable {key : α → Option κ}

def empty : Table α key := ⟨[], List.nodup_nil⟩

@[simp] theorem rows_empty : (empty : Table α key).rows = [] := rfl

def keys (t : Table α key) : List κ := t.rows.filterMap key

theorem mem_keys {t : Table α key} {k : κ} :
    k ∈ t.keys ↔ ∃ r ∈ t.rows, key r = some k :=
  List.mem_filterMap

theorem eq_of_key_eq : ∀ {rows : List α}, (rows.filterMap key).Nodup →
    ∀ {r s : α} {k : κ}, r ∈ rows → s ∈ rows → key r = some k → key s = some k → r = s := by
  intro rows
  induction rows with
  | nil => intro _ r s k hr; simp at hr
  | cons x rows ih =>
      intro hnd r s k hr hs hkr hks
      have hrest : (rows.filterMap key).Nodup := by
        rw [List.filterMap_cons] at hnd
        split at hnd
        · exact hnd
        · exact (List.nodup_cons.1 hnd).2
      have hfresh : ∀ y ∈ rows, key x = some k → key y ≠ some k := by
        intro y hy hkx hky
        rw [List.filterMap_cons_some hkx, List.nodup_cons] at hnd
        exact hnd.1 (List.mem_filterMap.2 ⟨y, hy, hky⟩)
      rcases List.mem_cons.1 hr with rfl | hr'
      · rcases List.mem_cons.1 hs with rfl | hs'
        · rfl
        · exact absurd hks (hfresh s hs' hkr)
      · rcases List.mem_cons.1 hs with rfl | hs'
        · exact absurd hkr (hfresh r hr' hks)
        · exact ih hrest hr' hs' hkr hks

/-- A primary key: no row is without one. -/
theorem nodup_map_rows {k : α → κ} (hk : ∀ r, key r = some (k r)) (t : Table α key) :
    (t.rows.map k).Nodup := by
  have hkeys : t.rows.filterMap key = t.rows.map k := by
    rw [← List.filterMap_eq_map]
    exact List.filterMap_congr fun r _ => hk r
  exact hkeys ▸ t.unique

theorem filterMap_concat (rows : List α) (r : α) :
    (rows ++ [r]).filterMap key = rows.filterMap key ++ (key r).toList := by
  rw [List.filterMap_append]
  cases h : key r <;> simp [h]

def Free (t : Table α key) (r : α) : Prop := ∀ k ∈ key r, k ∉ t.keys

theorem nodup_concat {t : Table α key} {r : α} (h : t.Free r) :
    ((t.rows ++ [r]).filterMap key).Nodup := by
  rw [filterMap_concat]
  cases hk : key r with
  | none => simpa using t.unique
  | some k =>
      have hfresh : k ∉ t.rows.filterMap key := h k (by simp [hk])
      rw [Option.toList_some]
      exact List.nodup_append.2
        ⟨t.unique, List.nodup_singleton k, by
          intro a ha b hb hab
          rw [List.mem_singleton] at hb
          exact hfresh (hb ▸ hab ▸ ha)⟩

/-! ## DELETE -/

/-- `DELETE ... WHERE p`. -/
def delete (t : Table α key) (p : α → Bool) : Table α key :=
  ⟨t.rows.filter fun r => !p r,
    t.unique.sublist (List.filter_sublist.filterMap key)⟩

/-! ## Other columns

A function of the rows that leaves the key alone is one of the tables, and a statement that
looks at no other column than such a function leaves commutes with it. -/

/-- The table with every row replaced. -/
def map (f : α → α) (hf : ∀ r, key (f r) = key r) (t : Table α key) : Table α key where
  rows := t.rows.map f
  unique := by
    have hkeys : (t.rows.map f).filterMap key = t.rows.filterMap key := by
      rw [List.filterMap_map]
      exact List.filterMap_congr fun r _ => hf r
    rw [hkeys]
    exact t.unique

@[simp] theorem rows_map (f : α → α) (hf : ∀ r, key (f r) = key r) (t : Table α key) :
    (t.map f hf).rows = t.rows.map f := rfl

@[simp] theorem keys_map (f : α → α) (hf : ∀ r, key (f r) = key r) (t : Table α key) :
    (t.map f hf).keys = t.keys := by
  rw [keys, rows_map, List.filterMap_map]
  exact List.filterMap_congr fun r _ => hf r

theorem delete_map {f : α → α} {hf : ∀ r, key (f r) = key r} {p : α → Bool} (t : Table α key)
    (hp : ∀ r, p (f r) = p r) : (t.map f hf).delete p = (t.delete p).map f hf := by
  ext1
  simp only [delete, rows_map, List.filter_map]
  congr 1
  apply List.filter_congr
  intro r _
  rw [Function.comp_apply, hp]

/-! ## DO UPDATE SET -/

/-- The `DO UPDATE SET` clause: what the row in place becomes. It may not touch
the key. -/
structure Merge (key : α → Option κ) where
  set : α → α → α
  key_set : ∀ old new, key (set old new) = key old

variable (m : Merge key)

/-- What one more row written under a key makes of the row found there. -/
def mergeInto (found : Option α) (r : α) : Option α :=
  some (match found with
    | none => r
    | some old => m.set old r)

theorem foldl_mergeInto_some (old : α) (rs : List α) :
    rs.foldl (mergeInto m) (some old) = some (rs.foldl m.set old) := by
  induction rs generalizing old with
  | nil => rfl
  | cons r rs ih => exact ih (m.set old r)

/-! ## SELECT -/

variable [DecidableEq κ]

/-- `SELECT ... WHERE key = k`. -/
def find? (t : Table α key) (k : κ) : Option α :=
  t.rows.find? fun r => decide (key r = some k)

theorem mem_of_find?_eq_some {t : Table α key} {k : κ} {r : α}
    (h : t.find? k = some r) : r ∈ t.rows ∧ key r = some k := by
  refine ⟨List.mem_of_find?_eq_some h, ?_⟩
  simpa using List.find?_some h

theorem find?_eq_none {t : Table α key} {k : κ} :
    t.find? k = none ↔ k ∉ t.keys := by
  simp [find?, mem_keys]

theorem find?_eq_some_iff {t : Table α key} {k : κ} {r : α} :
    t.find? k = some r ↔ r ∈ t.rows ∧ key r = some k := by
  constructor
  · exact mem_of_find?_eq_some
  · rintro ⟨hr, hk⟩
    cases hfind : t.find? k with
    | none => exact absurd (mem_keys.2 ⟨r, hr, hk⟩) (find?_eq_none.1 hfind)
    | some s =>
        obtain ⟨hs, hks⟩ := mem_of_find?_eq_some hfind
        rw [eq_of_key_eq t.unique hs hr hks hk]

/-- Tables without null keys have the same rows when they have them under each key. -/
theorem mem_rows_congr {s t : Table α key} (hkey : ∀ r, (key r).isSome = true)
    (hfind : ∀ k, s.find? k = t.find? k) (r : α) : r ∈ s.rows ↔ r ∈ t.rows := by
  obtain ⟨k, hk⟩ := Option.isSome_iff_exists.1 (hkey r)
  have hboth : (r ∈ s.rows ∧ key r = some k) ↔ (r ∈ t.rows ∧ key r = some k) := by
    rw [← find?_eq_some_iff, ← find?_eq_some_iff, hfind k]
  simpa [hk] using hboth

/-! ## INSERT -/

instance (t : Table α key) (r : α) : Decidable (t.Free r) :=
  match h : key r with
  | none => isTrue (by simp [Free, h])
  | some k => decidable_of_iff (k ∉ t.keys) (by simp [Free, h])

/-- `INSERT`: refused when the key of the row is taken. -/
def insert? (t : Table α key) (r : α) : Option (Table α key) :=
  if h : t.Free r then some ⟨t.rows ++ [r], nodup_concat h⟩ else none

theorem insert?_eq_some {t u : Table α key} {r : α} :
    t.insert? r = some u ↔ t.Free r ∧ u.rows = t.rows ++ [r] := by
  unfold insert?
  split
  · next h =>
      simp only [Option.some.injEq, h, true_and]
      constructor
      · rintro rfl; rfl
      · intro hu; exact Table.ext hu.symm
  · next h => simp [h]

theorem insert?_eq_none {t : Table α key} {r : α} :
    t.insert? r = none ↔ ¬ t.Free r := by
  unfold insert?
  split
  · next h => simp [h]
  · next h => simp [h]

theorem exists_insert? {t : Table α key} {r : α} (h : t.Free r) :
    ∃ u, t.insert? r = some u ∧ u.rows = t.rows ++ [r] :=
  ⟨_, dif_pos h, rfl⟩

theorem insert?_map {f : α → α} {hf : ∀ r, key (f r) = key r} (t : Table α key) (r : α) :
    (t.map f hf).insert? (f r) = (t.insert? r).map (map f hf) := by
  have hfree : (t.map f hf).Free (f r) ↔ t.Free r := by
    rw [Free, Free, hf r, keys_map]
  unfold insert?
  by_cases h : t.Free r
  · rw [dif_pos h, dif_pos (hfree.2 h), Option.map_some]
    congr 1
    ext1
    simp
  · rw [dif_neg h, dif_neg fun hboth => h (hfree.1 hboth), Option.map_none]

/-! ## INSERT ... ON CONFLICT(key) DO UPDATE -/

def upsertRows (rows : List α) (r : α) : List α :=
  if key r ≠ none ∧ key r ∈ rows.map key then
    rows.map fun x => if key x = key r then m.set x r else x
  else
    rows ++ [r]

theorem filterMap_map_set (rows : List α) (r : α) :
    (rows.map fun x => if key x = key r then m.set x r else x).filterMap key =
      rows.filterMap key := by
  rw [List.filterMap_map]
  apply List.filterMap_congr
  intro x _
  rw [Function.comp_apply]
  split
  · exact m.key_set x r
  · rfl

theorem nodup_upsertRows (t : Table α key) (r : α) :
    ((upsertRows m t.rows r).filterMap key).Nodup := by
  unfold upsertRows
  split
  · rw [filterMap_map_set]
    exact t.unique
  · next h =>
      refine nodup_concat fun k hk hmem => h ⟨?_, ?_⟩
      · rw [Option.mem_def.1 hk]
        exact Option.some_ne_none k
      · obtain ⟨x, hx, hkx⟩ := mem_keys.1 hmem
        exact List.mem_map.2 ⟨x, hx, by rw [hkx, Option.mem_def.1 hk]⟩

/-- `INSERT ... ON CONFLICT(key) WHERE key IS NOT NULL DO UPDATE SET ...`. -/
def upsert (t : Table α key) (r : α) : Table α key :=
  ⟨upsertRows m t.rows r, nodup_upsertRows m t r⟩

theorem rows_upsert_null {t : Table α key} {r : α} (h : key r = none) :
    (t.upsert m r).rows = t.rows ++ [r] := by
  simp [upsert, upsertRows, h]

theorem rows_upsert_fresh {t : Table α key} {r : α} {k : κ} (h : key r = some k)
    (hk : k ∉ t.keys) : (t.upsert m r).rows = t.rows ++ [r] := by
  have hnot : key r ∉ t.rows.map key := by
    intro hmem
    obtain ⟨x, hx, hkx⟩ := List.mem_map.1 hmem
    exact hk (mem_keys.2 ⟨x, hx, hkx.trans h⟩)
  simp only [upsert, upsertRows]
  rw [if_neg fun hc => hnot hc.2]

theorem rows_upsert_taken {t : Table α key} {r : α} {k : κ} (h : key r = some k)
    (hk : k ∈ t.keys) :
    (t.upsert m r).rows = t.rows.map fun x => if key x = some k then m.set x r else x := by
  obtain ⟨x, hx, hkx⟩ := mem_keys.1 hk
  have hmem : some k ∈ t.rows.map key := List.mem_map.2 ⟨x, hx, hkx⟩
  simp only [upsert, upsertRows]
  rw [if_pos ⟨h ▸ Option.some_ne_none k, h ▸ hmem⟩, h]

theorem mem_upsert {t : Table α key} {r x : α} (h : x ∈ (t.upsert m r).rows) :
    x = r ∨ x ∈ t.rows ∨ ∃ y ∈ t.rows, key y = key r ∧ x = m.set y r := by
  simp only [upsert, upsertRows] at h
  split at h
  · obtain ⟨y, hy, rfl⟩ := List.mem_map.1 h
    split
    · next hkey => exact Or.inr (Or.inr ⟨y, hy, hkey, rfl⟩)
    · exact Or.inr (Or.inl hy)
  · rcases List.mem_append.1 h with h | h
    · exact Or.inr (Or.inl h)
    · exact Or.inl (List.mem_singleton.1 h)

theorem mem_keys_upsert {t : Table α key} {r : α} {k : κ} :
    k ∈ (t.upsert m r).keys ↔ k ∈ t.keys ∨ key r = some k := by
  have hkeys : (t.upsert m r).keys =
      (upsertRows m t.rows r).filterMap key := rfl
  rw [hkeys, upsertRows]
  split
  · next h =>
      rw [filterMap_map_set]
      constructor
      · exact Or.inl
      · rintro (hk | hk)
        · exact hk
        · obtain ⟨x, hx, hkx⟩ := List.mem_map.1 h.2
          exact mem_keys.2 ⟨x, hx, hkx.trans hk⟩
  · rw [filterMap_concat, List.mem_append]
    simp [keys]

theorem find?_upsert_self {t : Table α key} {r : α} {k : κ} (h : key r = some k) :
    (t.upsert m r).find? k =
      some (match t.find? k with
        | none => r
        | some old => m.set old r) := by
  rw [find?_eq_some_iff]
  cases hfind : t.find? k with
  | none =>
      rw [rows_upsert_fresh m h (find?_eq_none.1 hfind)]
      exact ⟨by simp, h⟩
  | some old =>
      obtain ⟨hold, hkold⟩ := mem_of_find?_eq_some hfind
      rw [rows_upsert_taken m h (mem_keys.2 ⟨old, hold, hkold⟩)]
      refine ⟨List.mem_map.2 ⟨old, hold, if_pos hkold⟩, ?_⟩
      rw [m.key_set, hkold]

theorem find?_upsert_ne {t : Table α key} {r : α} {k : κ} (h : key r ≠ some k) :
    (t.upsert m r).find? k = t.find? k := by
  cases hfind : t.find? k with
  | none =>
      rw [find?_eq_none] at hfind ⊢
      rw [mem_keys_upsert]
      exact fun hk => hk.elim hfind h
  | some x =>
      rw [find?_eq_some_iff] at hfind ⊢
      refine ⟨?_, hfind.2⟩
      simp only [upsert, upsertRows]
      split
      · refine List.mem_map.2 ⟨x, hfind.1, if_neg fun hkey => h ?_⟩
        rw [← hkey, hfind.2]
      · exact List.mem_append_left _ hfind.1

theorem mem_foldl_upsert_null (t : Table α key) (rs : List α) {x : α} (hx : key x = none)
    (h : x ∈ (rs.foldl (upsert m) t).rows) : x ∈ t.rows ∨ x ∈ rs := by
  induction rs using List.reverseRecOn with
  | nil => exact Or.inl h
  | append_singleton rs r ih =>
      rw [List.foldl_append, List.foldl_cons, List.foldl_nil] at h
      have hlast : x = r ∨ x ∈ (rs.foldl (upsert m) t).rows := by
        rcases mem_upsert m h with heq | hmem | ⟨y, hy, hkey, hset⟩
        · exact Or.inl heq
        · exact Or.inr hmem
        · have hnull : key r = none := by rw [← hkey, ← m.key_set y r, ← hset, hx]
          rw [rows_upsert_null m hnull] at h
          rcases List.mem_append.1 h with hmem | hmem
          · exact Or.inr hmem
          · exact Or.inl (List.mem_singleton.1 hmem)
      rcases hlast with rfl | hmem
      · exact Or.inr (by simp)
      · rcases ih hmem with hold | hnew
        · exact Or.inl hold
        · exact Or.inr (List.mem_append_left _ hnew)

/-- The row found under `k` after the upserts `rs`: only those with key `k`
matter, in their order. -/
theorem find?_foldl_upsert (t : Table α key) (rs : List α) (k : κ) :
    (rs.foldl (upsert m) t).find? k =
      (rs.filter fun r => decide (key r = some k)).foldl (mergeInto m) (t.find? k) := by
  induction rs using List.reverseRecOn with
  | nil => rfl
  | append_singleton rs r ih =>
      rw [List.foldl_append, List.foldl_cons, List.foldl_nil, List.filter_append,
        List.foldl_append, ← ih]
      by_cases h : key r = some k
      · rw [find?_upsert_self m h, List.filter_cons_of_pos (by simpa using h),
          List.filter_nil]
        rfl
      · rw [find?_upsert_ne m h, List.filter_cons_of_neg (by simpa using h),
          List.filter_nil]
        rfl

/-- A row that was written over keeps its key, so a row without one is never touched. -/
theorem filter_null_map_set (rows : List α) (r : α) {k : κ} (h : key r = some k) :
    (rows.map fun x => if key x = key r then m.set x r else x).filter (fun x => (key x).isNone) =
      rows.filter fun x => (key x).isNone := by
  induction rows with
  | nil => rfl
  | cons x rows ih =>
      rw [List.map_cons]
      by_cases hx : key x = key r
      · have hkey : key (m.set x r) = some k := by rw [m.key_set, hx, h]
        rw [if_pos hx, List.filter_cons_of_neg (by simp [hkey]),
          List.filter_cons_of_neg (by simp [hx, h]), ih]
      · rw [if_neg hx, List.filter_cons, List.filter_cons, ih]

theorem filter_null_upsert (t : Table α key) (r : α) :
    (t.upsert m r).rows.filter (fun x => (key x).isNone) =
      (t.rows.filter fun x => (key x).isNone) ++ [r].filter fun x => (key x).isNone := by
  cases h : key r with
  | none => rw [rows_upsert_null m h, List.filter_append]
  | some k =>
      rw [List.filter_cons_of_neg (by simp [h]), List.filter_nil, List.append_nil]
      simp only [upsert, upsertRows]
      split
      · exact filter_null_map_set m t.rows r h
      · rw [List.filter_append, List.filter_cons_of_neg (by simp [h]), List.filter_nil,
          List.append_nil]

/-- The rows without a key after the upserts `rs`: every one of them is a row of its own. -/
theorem filter_null_foldl_upsert (t : Table α key) (rs : List α) :
    (rs.foldl (upsert m) t).rows.filter (fun x => (key x).isNone) =
      (t.rows.filter fun x => (key x).isNone) ++ rs.filter fun x => (key x).isNone := by
  induction rs generalizing t with
  | nil => simp
  | cons r rs ih =>
      rw [List.foldl_cons, ih, filter_null_upsert, List.append_assoc, ← List.filter_append,
        List.singleton_append]

theorem mem_keys_foldl_upsert {t : Table α key} {rs : List α} {k : κ} :
    k ∈ (rs.foldl (upsert m) t).keys ↔ k ∈ t.keys ∨ ∃ r ∈ rs, key r = some k := by
  induction rs generalizing t with
  | nil => simp
  | cons r rs ih =>
      rw [List.foldl_cons, ih, mem_keys_upsert]
      simp only [List.mem_cons, exists_eq_or_imp]
      exact or_assoc

/-- At most one row has a given key. -/
theorem length_filter_key_le (t : Table α key) (k : κ) :
    (t.rows.filter fun x => decide (key x = some k)).length ≤ 1 := by
  have hcount : t.keys.count k ≤ 1 := List.nodup_iff_count_le_one.1 t.unique k
  have hsame : (t.rows.filter fun x => decide (key x = some k)).length = t.keys.count k := by
    rw [keys, List.count_filterMap, ← List.countP_eq_length_filter]
    apply List.countP_congr
    intro x _
    simp
  omega

/-! ## Upserts seen through a projection

`f` is what an observer sees of a row. Where `f` determines the key and is
compatible with `set`, what is seen of the table after an upsert depends on what
was seen before only. -/

section Projection

variable {β : Type*} (f : α → β)

theorem map_eq_of_map_eq {γ : Type*} {g h : α → γ} {rows rows' : List α}
    (heq : rows.map f = rows'.map f) (hgh : ∀ x y, f x = f y → g x = h y) :
    rows.map g = rows'.map h := by
  induction rows generalizing rows' with
  | nil =>
      have hnil : rows' = [] := List.map_eq_nil_iff.1 heq.symm
      rw [hnil, List.map_nil, List.map_nil]
  | cons x rows ih =>
      cases rows' with
      | nil => simp at heq
      | cons y rows' =>
          rw [List.map_cons, List.map_cons, List.cons.injEq] at heq
          rw [List.map_cons, List.map_cons, hgh x y heq.1, ih heq.2]

theorem map_rows_upsert_congr (hkey : ∀ x y, f x = f y → key x = key y)
    (hset : ∀ x y r s, f x = f y → f r = f s → f (m.set x r) = f (m.set y s))
    {t u : Table α key} (h : t.rows.map f = u.rows.map f) {r s : α} (hr : f r = f s) :
    (t.upsert m r).rows.map f = (u.upsert m s).rows.map f := by
  have hkeys : t.rows.map key = u.rows.map key := map_eq_of_map_eq f h hkey
  have hrs : key r = key s := hkey r s hr
  simp only [upsert, upsertRows, hkeys, hrs]
  split
  · rw [List.map_map, List.map_map]
    apply map_eq_of_map_eq f h
    intro x y hxy
    simp only [Function.comp_apply, hkey x y hxy]
    split
    · exact hset x y r s hxy hr
    · exact hxy
  · rw [List.map_append, List.map_append, h, List.map_singleton, List.map_singleton, hr]

/-- Writing the same thing under a key once more changes nothing that is seen. -/
theorem map_rows_upsert_again {t : Table α key} {r s : α} {k : κ} (hr : key r = some k)
    (hs : key s = some k) (hfirst : f (m.set r s) = f r)
    (hagain : ∀ old, f (m.set (m.set old r) s) = f (m.set old r)) :
    ((t.upsert m r).upsert m s).rows.map f = (t.upsert m r).rows.map f := by
  have hmem : k ∈ (t.upsert m r).keys := (mem_keys_upsert m).2 (Or.inr hr)
  rw [rows_upsert_taken m hs hmem, List.map_map]
  apply List.map_congr_left
  intro x hx
  rw [Function.comp_apply]
  split
  · next hkx =>
      have hfind := find?_eq_some_iff.2 ⟨hx, hkx⟩
      rw [find?_upsert_self m hr, Option.some.injEq] at hfind
      rw [← hfind]
      split
      · exact hfirst
      · exact hagain _
  · rfl

end Projection

theorem perm_cons_upsert {t u : Table α key} {x : α} (hx : key x = none)
    (h : u.rows.Perm (x :: t.rows)) (r : α) :
    (u.upsert m r).rows.Perm (x :: (t.upsert m r).rows) := by
  have hkeys : ∀ k, k ∈ u.keys ↔ k ∈ t.keys := by
    intro k
    simp only [mem_keys, h.mem_iff, List.mem_cons]
    constructor
    · rintro ⟨y, rfl | hy, hk⟩
      · simp [hx] at hk
      · exact ⟨y, hy, hk⟩
    · rintro ⟨y, hy, hk⟩
      exact ⟨y, Or.inr hy, hk⟩
  cases hr : key r with
  | none =>
      rw [rows_upsert_null m hr, rows_upsert_null m hr]
      exact h.append_right [r]
  | some k =>
      by_cases hk : k ∈ t.keys
      · rw [rows_upsert_taken m hr hk, rows_upsert_taken m hr ((hkeys k).2 hk)]
        have hmap := h.map fun y => if key y = some k then m.set y r else y
        simpa [hx] using hmap
      · rw [rows_upsert_fresh m hr hk, rows_upsert_fresh m hr fun hu => hk ((hkeys k).1 hu)]
        exact h.append_right [r]

end Table

end SSize.Lib
