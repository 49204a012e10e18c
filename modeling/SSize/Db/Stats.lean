import SSize.Catalog.Tables
import SSize.Db.Rollup
import SSize.Lib.Binary64
import SSize.Lib.Groups
import SSize.Lib.TopList

/-!
# The events in `ssize-admin stats` (`admin_cli.cpp`)

Two grouped `SELECT`s over the events of the last days: the funnel, and the items that send
the most of their impressions on to the shop. The first leaves the order of its groups open,
the second that of items with the same quotient.
-/

namespace SSize

open Lib

/-- `now_ms() - static_cast<TsMs>(days) * 86'400'000`. -/
def windowStart (now : TsMs) (days : Int) : TsMs := now - days * dayMs

/-- `ua_class != 'bot'`, which a `NULL` is not either. -/
def EventRow.notBot (r : EventRow) : Bool :=
  match r.uaClass with
  | some ua => ua != bytes "bot"
  | none => false

def EventRow.inWindow (since : TsMs) (r : EventRow) : Bool := decide (since ≤ r.ts) && r.notBot

/-! ## The funnel -/

/-- `type, COUNT(*), COUNT(DISTINCT anon_id)`. -/
structure FunnelLine where
  type : Text
  events : Nat := 0
  users : Nat := 0
deriving DecidableEq, Repr

def funnelLine (type : Text) (group : List EventRow) : FunnelLine where
  type := type
  events := group.length
  users := (group.map EventRow.anonId).dedup.length

def funnel (since : TsMs) (rows : List EventRow) : List FunnelLine :=
  groupBy EventRow.type funnelLine (rows.filter (EventRow.inWindow since))

theorem funnelLine_perm (type : Text) (group group' : List EventRow) (h : group.Perm group') :
    funnelLine type group = funnelLine type group' := by
  rw [funnelLine, funnelLine, h.length_eq, (h.map EventRow.anonId).dedup.length_eq]

/-! ## The top items -/

abbrev ItemsTable := Table ItemRow ItemRow.key

/-- `events e JOIN items i ON i.id = e.item_id`. -/
def joinItems (items : ItemsTable) (rows : List EventRow) : List (ItemRow × EventRow) :=
  rows.filterMap fun r => (r.itemId.bind items.find?).map fun i => (i, r)

/-- `i.id, i.title, SUM(e.type = 'impression') AS imp, SUM(e.type = 'outbound') AS out`. -/
structure TopLine where
  id : Int
  title : Text
  imp : Nat
  out : Nat
deriving DecidableEq, Repr

def topLine (id : Int) (group : List (ItemRow × EventRow)) : TopLine where
  id := id
  title := (group.head?.map fun p => p.1.title).getD []
  imp := group.countP fun p => p.2.type == EventType.impression.toString
  out := group.countP fun p => p.2.type == EventType.outbound.toString

/-- `CAST(out AS REAL) / imp`, a division of doubles. -/
def TopLine.rate (line : TopLine) : ℚ :=
  roundBinary64 (roundBinary64 line.out / roundBinary64 line.imp)

/-- The groups, less those that `HAVING imp >= 20` drops. -/
def topGroups (since : TsMs) (items : ItemsTable) (rows : List EventRow) : List TopLine :=
  (groupBy (fun p => p.1.id) topLine
    (joinItems items (rows.filter (EventRow.inWindow since)))).filter fun line => 20 ≤ line.imp

/-- What the statement may answer. -/
def TopItems (since : TsMs) (items : ItemsTable) (rows : List EventRow)
    (lines : List TopLine) : Prop :=
  IsTop TopLine.rate 10 (topGroups since items rows) lines

/-- `a` sends at least as large a part of its impressions on as `b` does. -/
def TopLine.AtLeast (a b : TopLine) : Prop := b.out * a.imp ≤ a.out * b.imp

instance (a b : TopLine) : Decidable (a.AtLeast b) := inferInstanceAs (Decidable (_ ≤ _))

/-- Counts that are small enough for the order of the doubles to be that of the quotients. -/
def TopLine.Small (line : TopLine) : Prop := 0 < line.imp ∧ line.imp < 2 ^ 26 ∧ line.out < 2 ^ 26

theorem TopLine.rate_of_small {line : TopLine} (h : line.Small) :
    line.rate = roundBinary64 ((line.out : ℚ) / line.imp) := by
  have hexact : ∀ n : Nat, n < 2 ^ 26 → roundBinary64 (n : ℚ) = n := by
    intro n hn
    have hround := roundBinary64_of_isExact (isExact_of_lt (k := (n : ℤ)) (by
      rw [abs_of_nonneg (Int.natCast_nonneg n)]
      omega))
    exact_mod_cast hround
  rw [rate, hexact _ h.2.1, hexact _ h.2.2]

theorem TopLine.atLeast_of_rate_le {a b : TopLine} (ha : a.Small) (hb : b.Small)
    (h : b.rate ≤ a.rate) : a.AtLeast b := by
  rw [rate_of_small ha, rate_of_small hb] at h
  by_contra hless
  have hlt : a.out * b.imp < b.out * a.imp := Nat.lt_of_not_ge hless
  exact absurd h (not_le.2 (roundBinary64_div_lt hb.1 ha.1 hb.2.2 hb.2.1 ha.2.1 hlt))

/-- What the join makes of one row. -/
theorem joined_id {items : ItemsTable} {r : EventRow} {p : ItemRow × EventRow}
    (h : (r.itemId.bind items.find?).map (fun i => (i, r)) = some p) :
    p.1 ∈ items.rows ∧ r.itemId = some p.1.id ∧ p.2 = r := by
  obtain ⟨i, hi, rfl⟩ := Option.map_eq_some_iff.1 h
  obtain ⟨k, hk, hfind⟩ := Option.bind_eq_some_iff.1 hi
  obtain ⟨hmem, hid⟩ := Table.mem_of_find?_eq_some hfind
  rw [ItemRow.key, Option.some.injEq] at hid
  exact ⟨hmem, hid ▸ hk, rfl⟩

/-- The joined rows of an item. -/
theorem groupOf_joinItems {items : ItemsTable} {i : ItemRow} (hi : i ∈ items.rows)
    (rows : List EventRow) :
    groupOf (fun p => p.1.id) (joinItems items rows) i.id =
      (rows.filter fun r => r.itemId == some i.id).map fun r => (i, r) := by
  have hfind : items.find? i.id = some i := Table.find?_eq_some_iff.2 ⟨hi, rfl⟩
  induction rows with
  | nil => rfl
  | cons r rows ih =>
      rw [groupOf, joinItems] at ih
      rw [groupOf, joinItems, List.filterMap_cons, List.filter_cons]
      by_cases hsame : r.itemId = some i.id
      · have hjoined : (r.itemId.bind items.find?).map (fun j => (j, r)) = some (i, r) := by
          rw [hsame, Option.bind_some, hfind, Option.map_some]
        rw [hjoined, hsame, List.filter_cons_of_pos (by simp), ih, if_pos (beq_self_eq_true _),
          List.map_cons]
      · have hother : (r.itemId == some i.id) = false := by simpa using hsame
        rw [hother]
        split
        · exact ih
        · next p hp =>
            obtain ⟨-, hid, -⟩ := joined_id hp
            have hne : p.1.id ≠ i.id := by
              intro heq
              rw [heq] at hid
              exact hsame hid
            rw [List.filter_cons_of_neg (by simpa using hne)]
            exact ih

/-- The line of an item, counted over all rows at once. -/
def itemLine (rows : List EventRow) (i : ItemRow) : TopLine where
  id := i.id
  title := i.title
  imp := rows.countP fun r => r.itemId == some i.id && r.type == EventType.impression.toString
  out := rows.countP fun r => r.itemId == some i.id && r.type == EventType.outbound.toString

theorem itemLine_perm {rows rows' : List EventRow} (h : rows.Perm rows') :
    itemLine rows = itemLine rows' := by
  funext i
  rw [itemLine, itemLine, h.countP_eq, h.countP_eq]

/-- An item with impressions has a group. -/
theorem ne_nil_of_imp {id : Int} {group : List (ItemRow × EventRow)}
    (h : 20 ≤ (topLine id group).imp) : group ≠ [] := by
  rintro rfl
  simp [topLine] at h

theorem topLine_group {items : ItemsTable} {i : ItemRow} (hi : i ∈ items.rows)
    (rows : List EventRow) :
    (topLine i.id (groupOf (fun p => p.1.id) (joinItems items rows) i.id)).imp =
        (itemLine rows i).imp ∧
      (groupOf (fun p => p.1.id) (joinItems items rows) i.id ≠ [] →
        topLine i.id (groupOf (fun p => p.1.id) (joinItems items rows) i.id) =
          itemLine rows i) := by
  have hcount : ∀ type : Text,
      ((rows.filter fun r => r.itemId == some i.id).map fun r => (i, r)).countP
          (fun p => p.2.type == type) =
        rows.countP fun r => r.itemId == some i.id && r.type == type := by
    intro type
    rw [List.countP_map, List.countP_filter]
    apply List.countP_congr
    intro r _
    rw [Function.comp_apply, Bool.and_comm]
  rw [groupOf_joinItems hi]
  constructor
  · exact hcount _
  · intro hsome
    have htitle : ((((rows.filter fun r => r.itemId == some i.id).map
        fun r => (i, r)).head?).map fun p => p.1.title).getD [] = i.title := by
      cases hgroup : rows.filter fun r => r.itemId == some i.id with
      | nil =>
          rw [hgroup] at hsome
          exact absurd rfl hsome
      | cons r rest => rfl
    rw [topLine, itemLine, hcount, hcount, htitle]

/-- The groups are the items that had impressions enough. -/
theorem topGroups_perm (since : TsMs) (items : ItemsTable) (rows : List EventRow) :
    (topGroups since items rows).Perm
      ((items.rows.map (itemLine (rows.filter (EventRow.inWindow since)))).filter fun line =>
        20 ≤ line.imp) := by
  rw [topGroups]
  generalize rows.filter (EventRow.inWindow since) = kept
  have hkeys : ((items.rows.filter fun i =>
      groupOf (fun p => p.1.id) (joinItems items kept) i.id ≠ []).map ItemRow.id).Nodup :=
    (items.nodup_map_rows fun _ => rfl).sublist (List.Sublist.map _ List.filter_sublist)
  have hgroups : (groupBy (fun p => p.1.id) topLine (joinItems items kept)).Perm
      (((items.rows.filter fun i =>
        groupOf (fun p => p.1.id) (joinItems items kept) i.id ≠ []).map ItemRow.id).map fun k =>
          topLine k (groupOf (fun p => p.1.id) (joinItems items kept) k)) := by
    apply groupBy_perm_keys hkeys
    intro k
    rw [List.mem_map]
    constructor
    · rintro ⟨i, hi, rfl⟩
      rw [List.mem_filter, decide_eq_true_eq] at hi
      exact hi.2
    · intro hsome
      obtain ⟨p, hp, rfl⟩ := List.mem_map.1 (groupOf_ne_nil.1 hsome)
      obtain ⟨r, -, hr⟩ := List.mem_filterMap.1 hp
      refine ⟨p.1, ?_, rfl⟩
      rw [List.mem_filter, decide_eq_true_eq]
      exact ⟨(joined_id hr).1, hsome⟩
  apply (hgroups.filter _).trans
  rw [List.map_map, List.filter_map, List.filter_map, List.filter_filter]
  have hfilter : items.rows.filter (fun i =>
      ((fun line : TopLine => decide (20 ≤ line.imp)) ∘ (fun k =>
        topLine k (groupOf (fun p => p.1.id) (joinItems items kept) k)) ∘ ItemRow.id) i &&
          decide (groupOf (fun p => p.1.id) (joinItems items kept) i.id ≠ [])) =
      items.rows.filter ((fun line : TopLine => decide (20 ≤ line.imp)) ∘ itemLine kept) := by
    apply List.filter_congr
    intro i hi
    simp only [Function.comp_apply, (topLine_group hi kept).1]
    by_cases himp : 20 ≤ (itemLine kept i).imp
    · have hsome := ne_nil_of_imp ((topLine_group hi kept).1 ▸ himp)
      simp [hsome]
    · simp [himp]
  rw [hfilter]
  apply List.Perm.of_eq
  apply List.map_congr_left
  intro i hi
  rw [List.mem_filter, Function.comp_apply, decide_eq_true_eq] at hi
  exact (topLine_group hi.1 kept).2 (ne_nil_of_imp ((topLine_group hi.1 kept).1 ▸ hi.2))

end SSize
