import Mathlib.Data.List.GetD
import Mathlib.Data.List.Infix

/-!
# Reading a history that grows

A writer appends states to a history, a reader reads the last of them from time to time.
What it has read is then a walk through the history that never turns back, however the
two take turns.
-/

namespace SSize.Lib

variable {α : Type*}

/-- The states `reads` stand at `places` in the history, which never decrease. -/
structure WalksAt (history : List α) (places : List Nat) (reads : List α) : Prop where
  sorted : places.Pairwise (· ≤ ·)
  found : places.map (history[·]?) = reads.map some

/-- The states were current one after another. -/
def Walks (history reads : List α) : Prop := ∃ places, WalksAt history places reads

variable {history history' reads later : List α} {places : List Nat}

theorem WalksAt.length_eq (h : WalksAt history places reads) : places.length = reads.length := by
  simpa using congrArg List.length h.found

theorem WalksAt.lt_length (h : WalksAt history places reads) :
    ∀ i ∈ places, i < history.length := by
  intro i hi
  have hmem := List.mem_map_of_mem (f := (history[·]?)) hi
  rw [h.found] at hmem
  obtain ⟨x, -, hx⟩ := List.mem_map.1 hmem
  exact (List.getElem?_eq_some_iff.1 hx.symm).1

theorem walks_nil (history : List α) : Walks history [] := ⟨[], List.Pairwise.nil, rfl⟩

/-- The history grows. -/
theorem Walks.mono (h : Walks history reads) (hgrows : history <+: history') :
    Walks history' reads := by
  obtain ⟨places, hat⟩ := h
  refine ⟨places, hat.sorted, ?_⟩
  rw [← hat.found]
  apply List.map_congr_left
  intro i hi
  obtain ⟨more, rfl⟩ := hgrows
  exact List.getElem?_append_left (hat.lt_length i hi)

/-- The reader reads the last state. -/
theorem Walks.read (h : Walks history reads) {x : α} (hlast : history.getLast? = some x) :
    Walks history (reads ++ [x]) := by
  obtain ⟨places, hat⟩ := h
  refine ⟨places ++ [history.length - 1], ?_, ?_⟩
  · rw [List.pairwise_append]
    refine ⟨hat.sorted, List.pairwise_singleton _ _, fun i hi j hj => ?_⟩
    have hlt := hat.lt_length i hi
    rw [List.mem_singleton.1 hj]
    omega
  · rw [List.map_append, List.map_append, hat.found, List.map_singleton, List.map_singleton,
      ← List.getLast?_eq_getElem?, hlast]

/-- A part of what was read is a walk as well. -/
theorem Walks.sublist (h : Walks history reads) (hsub : later.Sublist reads) :
    Walks history later := by
  obtain ⟨places, hat⟩ := h
  have hmap : (later.map some).Sublist (places.map (history[·]?)) := by
    rw [hat.found]
    exact hsub.map some
  obtain ⟨places', hsub', heq⟩ := List.sublist_map_iff.1 hmap
  exact ⟨places', hat.sorted.sublist hsub', heq.symm⟩

/-- What holds between any state of the history and a later one holds along a walk. -/
theorem Walks.pairwise {R : α → α → Prop} (h : Walks history reads) (hrefl : ∀ x, R x x)
    (hchain : history.Pairwise R) : reads.Pairwise R := by
  obtain ⟨places, hat⟩ := h
  have hsome : (reads.map some).Pairwise fun a b => ∀ x ∈ a, ∀ y ∈ b, R x y := by
    rw [← hat.found, List.pairwise_map]
    refine hat.sorted.imp fun {i j} hij x hx y hy => ?_
    obtain ⟨hi, rfl⟩ := List.getElem?_eq_some_iff.1 hx
    obtain ⟨hj, rfl⟩ := List.getElem?_eq_some_iff.1 hy
    rcases Nat.lt_or_eq_of_le hij with hlt | rfl
    · exact List.pairwise_iff_getElem.1 hchain i j hi hj hlt
    · exact hrefl _
  rw [List.pairwise_map] at hsome
  exact hsome.imp fun hR => hR _ rfl _ rfl

theorem Walks.subset (h : Walks history reads) : reads ⊆ history := by
  obtain ⟨places, hat⟩ := h
  intro x hx
  have hmem := List.mem_map_of_mem (f := some) hx
  rw [← hat.found] at hmem
  obtain ⟨i, -, hi⟩ := List.mem_map.1 hmem
  exact List.mem_of_getElem? hi

/-- Of two parts of a walk, the later is nowhere before the earlier. -/
theorem Walks.split (h : Walks history (reads ++ later)) :
    ∃ places places', WalksAt history places reads ∧ WalksAt history places' later ∧
      ∀ i ∈ places, ∀ j ∈ places', i ≤ j := by
  obtain ⟨all, hsorted, hfound⟩ := h
  rw [List.map_append, List.map_eq_append_iff] at hfound
  obtain ⟨places, places', rfl, hreads, hlater⟩ := hfound
  obtain ⟨hfirst, hsecond, hle⟩ := List.pairwise_append.1 hsorted
  exact ⟨places, places', ⟨hfirst, hreads⟩, ⟨hsecond, hlater⟩, hle⟩

end SSize.Lib
