import SSize.Handlers.Pages
import Mathlib.Data.List.Perm.Basic
import Mathlib.Data.List.Pairwise

/-!
# The migration files (`migrations.cpp`)

`directory_iterator` lists the directory in any order, and `std::sort` may put
files of one version in any order. So `discover` does not return one list:
`Discovers` holds of every list that it can return.
-/

namespace SSize

structure DirEntry where
  name : Text
  regular : Bool := true
deriving DecidableEq

structure Migration where
  version : Int
  path : Text
deriving DecidableEq

/-- `std::from_chars` into an `int` at the start of `s`: what follows the digits
does not matter. -/
def leadingInt (s : Text) : Option Int :=
  let negative := s.head? = some '-'.toUInt8
  let digits := (if negative then s.drop 1 else s).takeWhile isDigit
  if digits.isEmpty then none
  else
    let v := if negative then -digitsValue digits else digitsValue digits
    if -2 ^ 31 ≤ v ∧ v < 2 ^ 31 then some v else none

/-- The body of the loop of `discover`: `none` for an entry that is skipped. -/
def recognise (e : DirEntry) : Option Migration :=
  if !e.regular || extension e.name != bytes ".sql" then none
  else
    match leadingInt e.name with
    | none => none
    | some version => if version ≤ 0 then none else some ⟨version, e.name⟩

theorem recognise_eq_some {e : DirEntry} {m : Migration} (h : recognise e = some m) :
    m.path = e.name ∧ 0 < m.version := by
  unfold recognise at h
  split at h
  · simp at h
  · split at h
    · simp at h
    · split at h
      · simp at h
      · next hpos =>
          cases h
          exact ⟨rfl, Int.not_le.1 hpos⟩

/-- A directory has one entry of a name. -/
structure Directory where
  entries : List DirEntry
  distinct : (entries.map DirEntry.name).Nodup

def Directory.migrations (dir : Directory) : List Migration := dir.entries.filterMap recognise

/-- `found` is a list that `discover` may return: the entries in some order, the
recognised ones sorted by version. -/
def Discovers (dir : Directory) (found : List Migration) : Prop :=
  ∃ listing : List DirEntry, listing.Perm dir.entries ∧
    found.Perm (listing.filterMap recognise) ∧ found.Pairwise (·.version ≤ ·.version)

variable {dir : Directory} {found found' : List Migration}

theorem Discovers.perm (h : Discovers dir found) : found.Perm dir.migrations := by
  obtain ⟨listing, hlisting, hfound, -⟩ := h
  exact hfound.trans (hlisting.filterMap recognise)

theorem Discovers.sorted (h : Discovers dir found) :
    found.Pairwise (·.version ≤ ·.version) := by
  obtain ⟨-, -, -, hsorted⟩ := h
  exact hsorted

theorem Discovers.mem_iff (h : Discovers dir found) {m : Migration} :
    m ∈ found ↔ m ∈ dir.migrations := h.perm.mem_iff

/-- Files of one directory differ in their path. -/
theorem Directory.nodup_migrations (dir : Directory) : dir.migrations.Nodup := by
  have hpaths : (dir.migrations.map Migration.path).Sublist (dir.entries.map DirEntry.name) := by
    unfold Directory.migrations
    generalize dir.entries = entries
    induction entries with
    | nil => exact List.Sublist.slnil
    | cons e entries ih =>
        cases hrec : recognise e with
        | none =>
            rw [List.filterMap_cons_none hrec]
            exact ih.cons e.name
        | some m =>
            rw [List.filterMap_cons_some hrec, List.map_cons, List.map_cons,
              (recognise_eq_some hrec).1]
            exact ih.cons_cons e.name
  have hnodup : (dir.migrations.map Migration.path).Nodup := hpaths.nodup dir.distinct
  exact hnodup.of_map

theorem Discovers.nodup (h : Discovers dir found) : found.Nodup :=
  h.perm.nodup_iff.2 dir.nodup_migrations

/-- No two of these files carry the same version. -/
def DistinctVersions (ms : List Migration) : Prop :=
  ∀ m ∈ ms, ∀ m' ∈ ms, m.version = m'.version → m = m'

instance (ms : List Migration) : Decidable (DistinctVersions ms) :=
  inferInstanceAs (Decidable (∀ m ∈ ms, ∀ m' ∈ ms, _ → _))

theorem DistinctVersions.mono {ms ms' : List Migration} (h : DistinctVersions ms)
    (hsub : ∀ m ∈ ms', m ∈ ms) : DistinctVersions ms' :=
  fun m hm m' hm' => h m (hsub m hm) m' (hsub m' hm')

/-- Sorted files with distinct versions have increasing ones. -/
theorem DistinctVersions.increasing {ms : List Migration} (h : DistinctVersions ms)
    (hnodup : ms.Nodup) (hsorted : ms.Pairwise (·.version ≤ ·.version)) :
    ms.Pairwise (·.version < ·.version) := by
  have hboth := hsorted.and hnodup
  apply hboth.imp_of_mem
  rintro m m' hm hm' ⟨hle, hne⟩
  apply lt_of_le_of_ne hle
  exact fun heq => hne (h m hm m' hm' heq)

theorem distinctVersions_of_increasing {ms : List Migration}
    (h : ms.Pairwise (·.version < ·.version)) : DistinctVersions ms := by
  have hsymm : Std.Symm fun m m' : Migration => m.version ≠ m'.version := ⟨fun _ _ => Ne.symm⟩
  have hne : ms.Pairwise fun m m' => m.version ≠ m'.version := h.imp fun hlt => ne_of_lt hlt
  intro m hm m' hm' heq
  by_contra hdiff
  exact hne.forall hm hm' hdiff heq

theorem Discovers.increasing (h : Discovers dir found)
    (hdistinct : DistinctVersions dir.migrations) : found.Pairwise (·.version < ·.version) :=
  (hdistinct.mono fun _ => h.mem_iff.1).increasing h.nodup h.sorted

theorem Discovers.unique (h : Discovers dir found) (h' : Discovers dir found')
    (hdistinct : DistinctVersions dir.migrations) : found = found' := by
  have hperm : found.Perm found' := h.perm.trans h'.perm.symm
  apply hperm.eq_of_pairwise ?_ (h.increasing hdistinct) (h'.increasing hdistinct)
  intro m m' _ _ hlt hgt
  exact absurd hgt (lt_asymm hlt)

end SSize
