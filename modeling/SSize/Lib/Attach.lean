import Mathlib.Data.List.Nodup

/-!
# Attaching a stream of child rows to their parents

`attachAll` walks over rows that name their parent and pushes each one onto the
parent with that identifier; rows of unknown parents are skipped. When the
identifiers are unique the walk is the same as giving every parent, separately,
its own rows in their order.

A `ListField` is a list that a record holds; pushing a stream of rows onto it
appends them.
-/

namespace SSize.Lib

variable {α β ι : Type*} [DecidableEq ι] (id : α → ι) (push : α → β → α)

def attachRow (parents : List α) (row : ι × β) : List α :=
  match parents.findIdx? fun p => id p == row.1 with
  | none => parents
  | some i => parents.modify i fun p => push p row.2

def attachAll (rows : List (ι × β)) (parents : List α) : List α :=
  rows.foldl (attachRow id push) parents

def childrenOf (rows : List (ι × β)) (k : ι) : List β :=
  (rows.filter fun row => row.1 = k).map Prod.snd

theorem childrenOf_map {γ : Type*} (k : γ → ι) (v : γ → β) (rows : List γ) (i : ι) :
    childrenOf (rows.map fun r => (k r, v r)) i = (rows.filter fun r => k r = i).map v := by
  rw [childrenOf, List.filter_map, List.map_map]
  rfl

theorem mem_childrenOf {rows : List (ι × β)} {i : ι} {b : β} :
    b ∈ childrenOf rows i ↔ (i, b) ∈ rows := by
  simp [childrenOf]

theorem attachRow_cons_self {p : α} {row : ι × β} (parents : List α) (h : id p = row.1) :
    attachRow id push (p :: parents) row = push p row.2 :: parents := by
  simp [attachRow, List.findIdx?_cons, h]

theorem attachRow_cons_ne {p : α} {row : ι × β} (parents : List α) (h : id p ≠ row.1) :
    attachRow id push (p :: parents) row = p :: attachRow id push parents row := by
  unfold attachRow
  rw [List.findIdx?_cons, if_neg (by simpa using h)]
  cases parents.findIdx? fun p => id p == row.1 <;> rfl

/-- With unique identifiers a row changes its own parent and no other. -/
theorem attachRow_eq_map {parents : List α} (hnodup : (parents.map id).Nodup) (row : ι × β) :
    attachRow id push parents row =
      parents.map fun p => if id p = row.1 then push p row.2 else p := by
  induction parents with
  | nil => rfl
  | cons p parents ih =>
      rw [List.map_cons, List.nodup_cons] at hnodup
      by_cases h : id p = row.1
      · have hothers : parents.map (fun q => if id q = row.1 then push q row.2 else q) =
            parents := by
          conv_rhs => rw [← List.map_id parents]
          apply List.map_congr_left
          intro q hq
          have hne : id q ≠ row.1 := fun heq =>
            hnodup.1 ((h.trans heq.symm) ▸ List.mem_map_of_mem hq)
          rw [if_neg hne]
          rfl
        rw [attachRow_cons_self id push parents h, List.map_cons, if_pos h, hothers]
      · rw [attachRow_cons_ne id push parents h, List.map_cons, if_neg h, ih hnodup.2]

/-- The whole stream, parent by parent. The induction is on the stream; what a row
does not touch are the identifiers. -/
theorem attachAll_eq_map (hid : ∀ p b, id (push p b) = id p) {parents : List α}
    (hnodup : (parents.map id).Nodup) (rows : List (ι × β)) :
    attachAll id push rows parents =
      parents.map fun p => (childrenOf rows (id p)).foldl push p := by
  induction rows generalizing parents with
  | nil => simp [attachAll, childrenOf]
  | cons row rows ih =>
      have hids : (attachRow id push parents row).map id = parents.map id := by
        rw [attachRow_eq_map id push hnodup, List.map_map]
        apply List.map_congr_left
        intro p _
        rw [Function.comp_apply]
        split
        · exact hid p row.2
        · rfl
      have hrest : attachAll id push rows (attachRow id push parents row) = _ :=
        ih (hids ▸ hnodup)
      calc attachAll id push (row :: rows) parents
          = attachAll id push rows (attachRow id push parents row) := rfl
        _ = (attachRow id push parents row).map
              fun p => (childrenOf rows (id p)).foldl push p := hrest
        _ = parents.map fun p => (childrenOf (row :: rows) (id p)).foldl push p := by
            rw [attachRow_eq_map id push hnodup, List.map_map]
            apply List.map_congr_left
            intro p _
            by_cases h : id p = row.1
            · simp [childrenOf, h, hid]
            · have hne : row.1 ≠ id p := Ne.symm h
              simp [childrenOf, h, hne]

theorem map_id_attachAll (hid : ∀ p b, id (push p b) = id p) {parents : List α}
    (hnodup : (parents.map id).Nodup) (rows : List (ι × β)) :
    (attachAll id push rows parents).map id = parents.map id := by
  rw [attachAll_eq_map id push hid hnodup, List.map_map]
  apply List.map_congr_left
  intro p _
  have hfold : ∀ (bs : List β) (q : α), id (bs.foldl push q) = id q := by
    intro bs
    induction bs with
    | nil => exact fun q => rfl
    | cons b bs ih => exact fun q => (ih (push q b)).trans (hid q b)
  exact hfold _ p

/-! ## Fields that hold lists -/

/-- A list-valued field, with the laws of a record update. -/
structure ListField (α β : Type*) where
  get : α → List β
  set : α → List β → α
  get_set : ∀ p xs, get (set p xs) = xs
  set_set : ∀ p xs ys, set (set p xs) ys = set p ys
  set_get : ∀ p, set p (get p) = p

namespace ListField

variable (f : ListField α β)

/-- `p.field.push_back(b)`. -/
def pushBack (p : α) (b : β) : α := f.set p (f.get p ++ [b])

theorem foldl_pushBack (p : α) (bs : List β) : bs.foldl f.pushBack p = f.set p (f.get p ++ bs) := by
  induction bs generalizing p with
  | nil => rw [List.foldl_nil, List.append_nil, f.set_get]
  | cons b bs ih =>
      rw [List.foldl_cons, ih, pushBack, f.get_set, f.set_set, List.append_assoc,
        List.singleton_append]

theorem attachAll_pushBack (hid : ∀ p xs, id (f.set p xs) = id p) {parents : List α}
    (hnodup : (parents.map id).Nodup) (rows : List (ι × β)) :
    attachAll id f.pushBack rows parents =
        parents.map (fun p => f.set p (f.get p ++ childrenOf rows (id p))) ∧
      ((attachAll id f.pushBack rows parents).map id).Nodup := by
  have hpush : ∀ p b, id (f.pushBack p b) = id p := fun p b => hid p _
  constructor
  · rw [attachAll_eq_map id f.pushBack hpush hnodup]
    apply List.map_congr_left
    intro p _
    exact f.foldl_pushBack p _
  · rw [map_id_attachAll id f.pushBack hpush hnodup]
    exact hnodup

end ListField

end SSize.Lib
