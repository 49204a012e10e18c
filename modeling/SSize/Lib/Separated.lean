import Mathlib.Data.List.Infix
import Mathlib.Data.List.TakeWhile

/-!
# What stands before a separator and behind it

`takeWhile` and `dropWhile` up to the first `a` of a list, for lists of which it is
known where that is. A separator of several elements is a word; an unbordered one
cannot begin before a place where it stands and end behind that. `pieces` are the
non-empty stretches between the separators, as the components of a path are;
`pieces_prefix_append_iff` says when a list that begins another one begins it in pieces
as well.
-/

namespace SSize.Lib

variable {α : Type*} [DecidableEq α] {a : α} {xs : List α}

theorem takeWhile_bne_self (h : a ∉ xs) : xs.takeWhile (· != a) = xs := by
  apply List.takeWhile_eq_self_iff.2
  intro x hx
  simpa using ne_of_mem_of_not_mem hx h

theorem dropWhile_bne_self (h : a ∉ xs) : xs.dropWhile (· != a) = [] := by
  apply List.dropWhile_eq_nil_iff.2
  intro x hx
  simpa using ne_of_mem_of_not_mem hx h

theorem takeWhile_eq_nil_iff_head {α : Type*} {p : α → Bool} {xs : List α} :
    xs.takeWhile p = [] ↔ ∀ x ∈ xs.head?, p x = false := by
  cases xs with
  | nil => simp
  | cons x xs => cases hx : p x <;> simp [hx]

/-- Where the predicate fails at the first element behind `xs`. -/
theorem takeWhile_append_of_head {α : Type*} {p : α → Bool} {xs ys : List α}
    (hxs : ∀ x ∈ xs, p x = true) (hys : ∀ y ∈ ys.head?, p y = false) :
    (xs ++ ys).takeWhile p = xs := by
  rw [List.takeWhile_append_of_pos hxs, takeWhile_eq_nil_iff_head.2 hys, List.append_nil]

theorem dropWhile_append_of_head {α : Type*} {p : α → Bool} {xs ys : List α}
    (hxs : ∀ x ∈ xs, p x = true) (hys : ∀ y ∈ ys.head?, p y = false) :
    (xs ++ ys).dropWhile p = ys := by
  rw [List.dropWhile_append_of_pos hxs]
  cases ys with
  | nil => rfl
  | cons y ys => simp [hys y rfl]

theorem takeWhile_bne_append (h : a ∉ xs) (ys : List α) :
    (xs ++ a :: ys).takeWhile (· != a) = xs := by
  rw [List.takeWhile_append_of_pos fun x hx => by simpa using ne_of_mem_of_not_mem hx h]
  simp

theorem dropWhile_bne_append (h : a ∉ xs) (ys : List α) :
    (xs ++ a :: ys).dropWhile (· != a) = a :: ys := by
  rw [List.dropWhile_append_of_pos fun x hx => by simpa using ne_of_mem_of_not_mem hx h]
  simp

/-- The last `a` of a list splits it in one way. -/
theorem append_cons_inj_of_notMem_right {xs' ys ys' : List α} (hys : a ∉ ys) (hys' : a ∉ ys')
    (h : xs ++ a :: ys = xs' ++ a :: ys') : xs = xs' ∧ ys = ys' := by
  have hreverse : ys.reverse ++ a :: xs.reverse = ys'.reverse ++ a :: xs'.reverse := by
    have hboth := congrArg List.reverse h
    simpa using hboth
  have hlast := congrArg (List.takeWhile (· != a)) hreverse
  rw [takeWhile_bne_append (by simpa using hys), takeWhile_bne_append (by simpa using hys'),
    List.reverse_inj] at hlast
  subst hlast
  exact ⟨List.append_cancel_right h, rfl⟩

/-- A piece between separators is no longer than the whole. -/
theorem length_le_of_mem_splitOn {piece : List α} (h : piece ∈ xs.splitOn a) :
    piece.length ≤ xs.length := by
  have hjoined : ∀ pieces : List (List α), piece ∈ pieces →
      piece.length ≤ ([a].intercalate pieces).length := by
    intro pieces hmem
    induction pieces with
    | nil => simp at hmem
    | cons first rest ih =>
        cases rest with
        | nil => simpa using (congrArg List.length (List.mem_singleton.1 hmem)).le
        | cons next rest =>
            rw [List.intercalate_cons_cons, List.length_append, List.length_append]
            rcases List.mem_cons.1 hmem with hfirst | hlater
            · rw [hfirst]
              omega
            · have := ih hlater
              omega
  have hwhole := hjoined _ h
  rwa [List.intercalate_splitOn] at hwhole

/-! ## Words -/

/-- Nothing but the whole word is both a beginning and an end of it. -/
def Unbordered (word : List α) : Prop :=
  ∀ part, part <:+ word → part <+: word → part = [] ∨ part = word

instance (word : List α) : Decidable (Unbordered word) :=
  decidable_of_iff (∀ part ∈ word.tails, part <+: word → part = [] ∨ part = word)
    (by simp [Unbordered])

omit [DecidableEq α] in
/-- The word does not begin in front of its first place. -/
theorem Unbordered.not_begins {word before : List α} (hword : Unbordered word)
    (hne : before ≠ []) (hbefore : ¬ word <:+: before) (rest : List α) :
    ¬ word <+: before ++ (word ++ rest) := by
  intro hbegins
  have hstart : before <+: before ++ (word ++ rest) := List.prefix_append _ _
  rcases List.prefix_or_prefix_of_prefix hbegins hstart with hinside | hover
  · exact hbefore hinside.isInfix
  · -- What is left of the word behind `before` is an end of it and a beginning.
    obtain ⟨part, hpart⟩ := hover
    have hlater : part <+: word ++ rest := by
      apply (List.prefix_append_right_inj before).1
      rwa [hpart]
    have hshort : part.length ≤ word.length := by
      have hlength := congrArg List.length hpart
      rw [List.length_append] at hlength
      omega
    have hboth : part <+: word :=
      List.prefix_of_prefix_length_le hlater (List.prefix_append _ _) hshort
    rcases hword part ⟨before, hpart⟩ hboth with hnil | hwhole
    · rw [hnil, List.append_nil] at hpart
      exact hbefore (hpart ▸ List.infix_refl before)
    · rw [hwhole, List.append_left_eq_self] at hpart
      exact hne hpart

/-! ## Pieces -/

/-- The non-empty stretches between the separators. -/
def pieces (a : α) (xs : List α) : List (List α) :=
  (xs.splitOn a).filter fun piece => !piece.isEmpty

theorem pieces_append_cons (xs ys : List α) :
    pieces a (xs ++ a :: ys) = pieces a xs ++ pieces a ys := by
  rw [pieces, List.splitOn_append_cons_self, List.filter_append, pieces, pieces]

theorem pieces_of_not_mem (h : a ∉ xs) (hne : xs ≠ []) : pieces a xs = [xs] := by
  have hnonempty : xs.isEmpty = false := by simpa [List.isEmpty_iff] using hne
  rw [pieces, List.splitOn_eq_singleton h]
  simp [hnonempty]

theorem pieces_nil : pieces a ([] : List α) = [] := by
  simp [pieces]

omit [DecidableEq α] in
/-- Behind the last separator. -/
theorem exists_last_separator (h : a ∈ xs) :
    ∃ before last, xs = before ++ a :: last ∧ a ∉ last := by
  obtain ⟨last, before, hsplit, hlast⟩ :=
    List.eq_append_cons_of_mem (show a ∈ xs.reverse by simpa using h)
  refine ⟨before.reverse, last.reverse, ?_, by simpa using hlast⟩
  have hreverse := congrArg List.reverse hsplit
  simpa using hreverse

/-- The first piece of a list that does not begin with a separator. -/
theorem pieces_append_of_not_mem {first : List α} (hfirst : a ∉ first) (hne : first ≠ [])
    (ys : List α) :
    ∃ rest, pieces a (first ++ ys) = (first ++ ys.takeWhile (· != a)) :: rest := by
  by_cases hys : a ∈ ys
  · obtain ⟨start, tail, hsplit, hstart⟩ := List.eq_append_cons_of_mem hys
    have hclean : a ∉ first ++ start := by
      rw [List.mem_append]
      exact not_or.2 ⟨hfirst, hstart⟩
    refine ⟨pieces a tail, ?_⟩
    rw [hsplit, takeWhile_bne_append hstart, ← List.append_assoc, pieces_append_cons,
      pieces_of_not_mem hclean (by simp [hne]), List.singleton_append]
  · have hclean : a ∉ first ++ ys := by
      rw [List.mem_append]
      exact not_or.2 ⟨hfirst, hys⟩
    exact ⟨[], by rw [takeWhile_bne_self hys, pieces_of_not_mem hclean (by simp [hne])]⟩

/-- What begins a list begins it in pieces when a separator or nothing follows, and
otherwise only when it ends with a separator itself. -/
theorem pieces_prefix_append_iff (h : a ∈ xs) (ys : List α) :
    pieces a xs <+: pieces a (xs ++ ys) ↔
      ys = [] ∨ xs.getLast? = some a ∨ ys.head? = some a := by
  obtain ⟨before, last, hxs, hlast⟩ := exists_last_separator h
  have hleft : pieces a xs = pieces a before ++ pieces a last := by
    rw [hxs, pieces_append_cons]
  have hright : pieces a (xs ++ ys) = pieces a before ++ pieces a (last ++ ys) := by
    rw [hxs, List.append_assoc, List.cons_append, pieces_append_cons]
  have hend : xs.getLast? = some a ↔ last = [] := by
    cases last with
    | nil => simp [hxs]
    | cons c last =>
        rw [hxs, List.getLast?_append_cons, List.getLast?_cons_cons]
        refine iff_of_false (fun hlast' => hlast ?_) (by simp)
        exact List.mem_of_getLast? hlast'
  rw [hleft, hright, List.prefix_append_right_inj, hend]
  by_cases hempty : last = []
  · simp [hempty, pieces_nil]
  · obtain ⟨rest, hrest⟩ := pieces_append_of_not_mem hlast hempty ys
    rw [pieces_of_not_mem hlast hempty, hrest, List.cons_prefix_cons, List.self_eq_append_right]
    cases ys with
    | nil => simp
    | cons y ys =>
        by_cases hy : y = a
        · simp [hy]
        · simp [hy, hempty]

end SSize.Lib
