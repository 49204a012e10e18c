import SSize.Handlers.Pages
import SSize.Lib.Separated

/-!
# Files and their root

`handle_file` compares canonical paths as texts. A file is served from outside its
root exactly when such a path goes on behind the root in the middle of a name, or when
the root has no canonical path and the empty one of the error stands for it.
-/

namespace SSize

open Lib

abbrev slash : UInt8 := '/'.toUInt8

/-- The components of a path. -/
abbrev components (path : Text) : List Text := pieces slash path

variable (amb : Ambient) (req : HttpRequest) (root rel : Text)

/-- The two answers that tell something of a file. -/
def Status.servesFile (st : Status) : Prop := st = .ok ∨ st = .notModified

/-- The file at a canonical path can be read, or the validator of the request is its own. -/
def FileServed (path : Text) : Prop :=
  etagOf amb.files path = some req.ifNoneMatch ∨ (amb.files.read path).isSome = true

/-- What is answered 200 or 304 lies under the root, component by component. -/
def ServesInside : Prop :=
  (handleFile amb req root rel).status.servesFile →
    ∃ canonicalRoot path, amb.files.weaklyCanonical root = some canonicalRoot ∧
      amb.files.weaklyCanonical (joinPath root rel) = some path ∧
      components canonicalRoot <+: components path

/-- The path goes on behind the root in the middle of a name. -/
def Beyond (canonicalRoot path : Text) : Prop :=
  ∃ c rest, path = canonicalRoot ++ c :: rest ∧ c ≠ slash ∧ canonicalRoot.getLast? ≠ some slash

/-- A layout in which the request gets at a file whose path is the one of the root and
more of a name, or at any file of a root that cannot be resolved. -/
def ReachesOut : Prop :=
  ¬ bytes ".." <:+: rel ∧ ∃ path, amb.files.weaklyCanonical (joinPath root rel) = some path ∧
    FileServed amb req path ∧
    (amb.files.weaklyCanonical root = none ∨
      ∃ canonicalRoot, amb.files.weaklyCanonical root = some canonicalRoot ∧
        Beyond canonicalRoot path)

/-- `weakly_canonical` gives absolute paths. -/
def ResolvesAbsolute (files : FileSystem) : Prop :=
  ∀ p path, files.weaklyCanonical p = some path → path.head? = some slash

variable {amb req root rel}

/-- When `handle_file` answers with a file, and with which. -/
theorem handleFile_serves_iff :
    (handleFile amb req root rel).status.servesFile ↔
      ¬ bytes ".." <:+: rel ∧ ∃ path, amb.files.weaklyCanonical (joinPath root rel) = some path ∧
        (amb.files.weaklyCanonical root).getD [] <+: path ∧ FileServed amb req path := by
  unfold handleFile Status.servesFile
  simp only
  split
  · next hdots => simp [hdots]
  · next hdots =>
      split
      · next hpath => simp [hpath]
      · next path hpath =>
          simp only [hdots, not_false_eq_true, true_and, hpath, Option.some.injEq,
            exists_eq_left', Bool.not_eq_true', ← List.isPrefixOf_iff_prefix]
          split
          · next hstart => simp [hstart]
          · next hstart =>
              have hbegins := Bool.not_eq_false _ ▸ hstart
              unfold FileServed
              split
              · next hetag => simp [hbegins, hetag, Response.set]
              · next hetag =>
                  cases hread : amb.files.read path with
                  | none => simp [hetag]
                  | some body =>
                      cases etagOf amb.files path <;>
                        simp [hbegins, Response.set, makeResponse]

/-- Under an absolute root a longer path is inside or beyond. -/
theorem components_prefix_iff {canonicalRoot path : Text} (habsolute : slash ∈ canonicalRoot)
    (hbegins : canonicalRoot <+: path) :
    components canonicalRoot <+: components path ↔ ¬ Beyond canonicalRoot path := by
  obtain ⟨rest, rfl⟩ := hbegins
  rw [components, components, pieces_prefix_append_iff habsolute]
  constructor
  · rintro hinside ⟨c, tail, hpath, hc, hend⟩
    rw [List.append_cancel_left hpath] at hinside
    rcases hinside with hnil | hslash | hhead
    · simp at hnil
    · exact hend hslash
    · exact hc (Option.some.inj hhead)
  · intro hbeyond
    cases rest with
    | nil => exact Or.inl rfl
    | cons c tail =>
        by_cases hend : canonicalRoot.getLast? = some slash
        · exact Or.inr (Or.inl hend)
        · by_cases hc : c = slash
          · exact Or.inr (Or.inr (by rw [List.head?_cons, hc]))
          · exact absurd ⟨c, tail, rfl, hc, hend⟩ hbeyond

/-- For every layout, root and request: what is served lies under the root unless the
request reaches out in one of the two ways. -/
theorem servesInside_iff (habsolute : ResolvesAbsolute amb.files) :
    ServesInside amb req root rel ↔ ¬ ReachesOut amb req root rel := by
  unfold ServesInside ReachesOut
  rw [handleFile_serves_iff]
  constructor
  · rintro hinside ⟨hdots, path, hpath, hserved, hout⟩
    rcases hout with hroot | ⟨canonicalRoot, hroot, hbeyond⟩
    · obtain ⟨canonicalRoot, -, hroot', -⟩ :=
        hinside ⟨hdots, path, hpath, by rw [hroot]; exact List.nil_prefix, hserved⟩
      rw [hroot] at hroot'
      simp at hroot'
    · have hbegins : canonicalRoot <+: path := by
        obtain ⟨c, rest, rfl, -, -⟩ := hbeyond
        exact List.prefix_append canonicalRoot (c :: rest)
      obtain ⟨canonicalRoot', path', hroot', hpath', hcomponents⟩ :=
        hinside ⟨hdots, path, hpath, by rw [hroot]; exact hbegins, hserved⟩
      rw [hroot, Option.some.injEq] at hroot'
      rw [hpath, Option.some.injEq] at hpath'
      rw [← hroot', ← hpath'] at hcomponents
      have hslash := List.mem_of_mem_head? (habsolute root canonicalRoot hroot)
      exact (components_prefix_iff hslash hbegins).1 hcomponents hbeyond
  · rintro hstays ⟨hdots, path, hpath, hbegins, hserved⟩
    cases hroot : amb.files.weaklyCanonical root with
    | none => exact absurd ⟨hdots, path, hpath, hserved, Or.inl hroot⟩ hstays
    | some canonicalRoot =>
        rw [hroot, Option.getD_some] at hbegins
        refine ⟨canonicalRoot, path, rfl, hpath, ?_⟩
        have hslash := List.mem_of_mem_head? (habsolute root canonicalRoot hroot)
        rw [components_prefix_iff hslash hbegins]
        intro hbeyond
        exact hstays ⟨hdots, path, hpath, hserved, Or.inr ⟨canonicalRoot, hroot, hbeyond⟩⟩

/-- A disk with the root `/srv/static`, where `/srv/static/x` is a link to `target`. -/
def FileSystem.linking (target : Text) : FileSystem where
  weaklyCanonical p :=
    if p = bytes "/srv/static" then some p
    else if p = bytes "/srv/static/x" then some target
    else none
  lastWriteTime _ := some 0
  fileSize _ := some 1
  read p := if p = target then some (bytes "1") else none

theorem FileSystem.linking_absolute {target : Text} (h : target.head? = some slash) :
    ResolvesAbsolute (linking target) := by
  intro p path hpath
  unfold linking at hpath
  dsimp only at hpath
  split at hpath
  · next hroot =>
      rw [← Option.some.inj hpath, hroot]
      decide
  · split at hpath
    · exact Option.some.inj hpath ▸ h
    · simp at hpath

/-- A link to another file of the root. -/
theorem servesInside_link :
    ServesInside { Ambient.bare 0 with files := .linking (bytes "/srv/static/a.css") } {}
      (bytes "/srv/static") (bytes "x") := by
  have habsolute : ResolvesAbsolute (.linking (bytes "/srv/static/a.css")) :=
    FileSystem.linking_absolute (by decide)
  refine (@servesInside_iff { Ambient.bare 0 with files := .linking (bytes "/srv/static/a.css") }
    _ _ _ habsolute).2 ?_
  rintro ⟨-, path, hpath, -, hroot | ⟨canonicalRoot, hroot, c, rest, hbeyond, hc, -⟩⟩
  · exact absurd hroot (by decide)
  · have hroot' : canonicalRoot = bytes "/srv/static" := (Option.some.inj hroot).symm
    have hpath' : path = bytes "/srv/static" ++ slash :: bytes "a.css" := by
      rw [← Option.some.inj hpath]
      decide
    rw [hroot', hpath'] at hbeyond
    exact hc (List.cons.inj (List.append_cancel_left hbeyond)).1.symm

/-- A link into a directory beside the root, whose name begins with that of the root. -/
theorem servesInside_fails :
    ResolvesAbsolute (.linking (bytes "/srv/static-old/secret")) ∧
      ¬ ServesInside { Ambient.bare 0 with files := .linking (bytes "/srv/static-old/secret") } {}
        (bytes "/srv/static") (bytes "x") := by
  refine ⟨FileSystem.linking_absolute (by decide), fun hinside => ?_⟩
  obtain ⟨canonicalRoot, path, hroot, hpath, hcomponents⟩ := hinside (Or.inl (by decide))
  rw [← Option.some.inj hroot, ← Option.some.inj hpath] at hcomponents
  exact absurd hcomponents (by decide)

end SSize
