import SSize.Links
import SSize.Lib.Replace
import SSize.Lib.Separated

/-!
# `render_link` and plain replacement

The scanner pairs every opening brace with the next closing one. What is not the
name of a placeholder it copies with both braces, and a placeholder that begins in
between is copied with it.
-/

namespace SSize

open Lib

abbrev openBrace : UInt8 := '\x7b'.toUInt8

abbrev closeBrace : UInt8 := '\x7d'.toUInt8

theorem not_closed_cons {x : Text} (h : closeBrace ∉ x) : closeBrace ∉ openBrace :: x := by
  rw [List.mem_cons]
  exact not_or.2 ⟨by decide, h⟩

/-- A template is read in pieces: a byte, an opening brace that is never closed, or
a brace and what is up to the next closing one. -/
theorem pieces_induction {motive : Text → Prop} (nil : motive [])
    (copied : ∀ c rest, c ≠ openBrace → motive rest → motive (c :: rest))
    (unterminated : ∀ rest, closeBrace ∉ rest → motive (openBrace :: rest))
    (braced : ∀ name rest, closeBrace ∉ name → motive rest →
      motive (openBrace :: (name ++ closeBrace :: rest)))
    (tmpl : Text) : motive tmpl := by
  induction hlength : tmpl.length using Nat.strong_induction_on generalizing tmpl with
  | h n ih =>
      subst hlength
      cases tmpl with
      | nil => exact nil
      | cons c rest =>
          by_cases hbrace : c = openBrace
          · subst hbrace
            by_cases hclosed : closeBrace ∈ rest
            · obtain ⟨name, later, hrest, hname⟩ := List.eq_append_cons_of_mem hclosed
              have hshorter : later.length < (openBrace :: rest).length := by
                rw [hrest, List.length_cons, List.length_append, List.length_cons]
                omega
              exact hrest ▸ braced name later hname (ih later.length hshorter later rfl)
            · exact unterminated rest hclosed
          · exact copied c rest hbrace (ih rest.length (by simp) rest rfl)

/-! ## What the scanner does with each piece -/

section Render

variable (vars : LinkVars)

theorem renderFrom_skip (skip : Nat) (x : Text) :
    renderFrom vars skip x = renderLink (x.drop skip) vars := by
  induction skip generalizing x with
  | zero => rfl
  | succ skip ih =>
      cases x with
      | nil => rfl
      | cons c rest => rw [renderFrom, ih, List.drop_succ_cons]

theorem renderLink_copied {c : UInt8} (hc : c ≠ openBrace) (rest : Text) :
    renderLink (c :: rest) vars = c :: renderLink rest vars := by
  rw [renderLink, renderFrom, if_pos hc]
  rfl

theorem renderLink_unterminated {rest : Text} (h : closeBrace ∉ rest) :
    renderLink (openBrace :: rest) vars = openBrace :: rest := by
  rw [renderLink, renderFrom, if_neg (by simp)]
  simp only [takeWhile_bne_self h, if_true]

theorem renderLink_braced {name : Text} (hname : closeBrace ∉ name) (rest : Text) :
    renderLink (openBrace :: (name ++ closeBrace :: rest)) vars =
      placeholder vars name ++ renderLink rest vars := by
  have hlength : name.length ≠ (name ++ closeBrace :: rest).length := by
    rw [List.length_append, List.length_cons]
    omega
  have hsplit : name ++ closeBrace :: rest = (name ++ [closeBrace]) ++ rest := by simp
  have hdrop : (name ++ closeBrace :: rest).drop (name.length + 1) = rest := by
    rw [hsplit, List.drop_left' (by simp)]
  rw [renderLink, renderFrom, if_neg (by simp)]
  simp only [takeWhile_bne_append hname, if_neg hlength, renderFrom_skip, hdrop]

end Render

/-! ## Plain replacement -/

/-- The literal of a placeholder. -/
def literal (name : Text) : Text := openBrace :: name ++ [closeBrace]

/-- The placeholders and what stands for them. -/
def LinkVars.substitutions (vars : LinkVars) : List (Text × Text) :=
  [(literal (bytes "url"), vars.url),
    (literal (bytes "url_enc"), urlEncode vars.url),
    (literal (bytes "subid"), vars.subid),
    (literal (bytes "campaign"), vars.campaign)]

def placeholderNames : List Text :=
  [bytes "url", bytes "url_enc", bytes "subid", bytes "campaign"]

theorem names_braceless :
    ∀ name ∈ placeholderNames, openBrace ∉ name ∧ closeBrace ∉ name := by
  decide

section Replace

variable (vars : LinkVars)

theorem substitutions_eq :
    vars.substitutions =
      placeholderNames.map fun name => (literal name, placeholder vars name) := rfl

theorem placeholder_unknown {name : Text} (h : name ∉ placeholderNames) :
    placeholder vars name = literal name := by
  simp only [placeholderNames, List.mem_cons, List.not_mem_nil, or_false, not_or] at h
  obtain ⟨hurl, henc, hsubid, hcampaign⟩ := h
  rw [placeholder, if_neg hurl, if_neg henc, if_neg hsubid, if_neg hcampaign]
  rfl

theorem literalAt_eq_none_iff {x : Text} :
    literalAt vars.substitutions x = none ↔ ∀ name ∈ placeholderNames, ¬ literal name <+: x := by
  rw [literalAt, substitutions_eq, List.find?_eq_none]
  simp only [List.forall_mem_map, List.isPrefixOf_iff_prefix]

/-- Only an opening brace begins a literal. -/
theorem literalAt_copied {c : UInt8} (hc : c ≠ openBrace) (rest : Text) :
    literalAt vars.substitutions (c :: rest) = none := by
  rw [literalAt_eq_none_iff]
  intro name _ hbegins
  exact hc (List.cons_prefix_cons.1 hbegins).1.symm

/-- A literal has to be closed. -/
theorem literalAt_unterminated {x : Text} (h : closeBrace ∉ x) :
    literalAt vars.substitutions x = none := by
  rw [literalAt_eq_none_iff]
  intro name _ hbegins
  exact h (hbegins.subset (by simp [literal]))

theorem literal_prefix_iff {name x : Text} (hname : closeBrace ∉ name) (hx : closeBrace ∉ x)
    (rest : Text) : literal name <+: x ++ closeBrace :: rest ↔ x = openBrace :: name := by
  constructor
  · rintro ⟨behind, hbehind⟩
    have hopen := not_closed_cons hname
    have hsplit : literal name ++ behind = (openBrace :: name) ++ closeBrace :: behind := by
      simp [literal]
    rw [hsplit] at hbehind
    calc x = (x ++ closeBrace :: rest).takeWhile (· != closeBrace) :=
          (takeWhile_bne_append hx rest).symm
      _ = ((openBrace :: name) ++ closeBrace :: behind).takeWhile (· != closeBrace) := by
          rw [hbehind]
      _ = openBrace :: name := takeWhile_bne_append hopen behind
  · intro h
    exact ⟨rest, by simp [literal, h]⟩

/-- No literal begins where the next closing brace closes none. -/
theorem literalAt_eq_none {x : Text} (hx : closeBrace ∉ x)
    (h : ∀ name ∈ placeholderNames, x ≠ openBrace :: name) (rest : Text) :
    literalAt vars.substitutions (x ++ closeBrace :: rest) = none := by
  rw [literalAt_eq_none_iff]
  intro name hname
  rw [literal_prefix_iff (names_braceless name hname).2 hx]
  exact h name hname

theorem literalAt_literal {name : Text} (hname : name ∈ placeholderNames) (rest : Text) :
    literalAt vars.substitutions (literal name ++ rest) =
      some (literal name, placeholder vars name) := by
  have hopen := not_closed_cons (names_braceless name hname).2
  have hsplit : literal name ++ rest = (openBrace :: name) ++ closeBrace :: rest := by
    simp [literal]
  cases hfound : literalAt vars.substitutions (literal name ++ rest) with
  | none =>
      exact absurd ⟨rest, rfl⟩ ((literalAt_eq_none_iff vars).1 hfound name hname)
  | some entry =>
      have hmem := List.mem_of_find?_eq_some hfound
      rw [substitutions_eq, List.mem_map] at hmem
      obtain ⟨other, hother, rfl⟩ := hmem
      have hbegins : literal other <+: literal name ++ rest := by
        simpa [List.isPrefixOf_iff_prefix] using List.find?_some hfound
      rw [hsplit, literal_prefix_iff (names_braceless other hother).2 hopen] at hbegins
      rw [(List.cons.inj hbegins).2]

theorem replaceAll_copied {c : UInt8} (hc : c ≠ openBrace) (rest : Text) :
    replaceAll vars.substitutions (c :: rest) = c :: replaceAll vars.substitutions rest :=
  replaceAll_cons_of_none (literalAt_copied vars hc rest)

theorem replaceAll_unterminated {x : Text} (h : closeBrace ∉ x) :
    replaceAll vars.substitutions x = x := by
  have hcopied : replaceAll vars.substitutions (x ++ []) =
      x ++ replaceAll vars.substitutions [] := by
    apply replaceAll_append_of_none
    intro y z hyz _
    rw [List.append_nil]
    exact literalAt_unterminated vars fun hmem => h (hyz ▸ List.mem_append_right y hmem)
  simpa [replaceAll, replaceFrom] using hcopied

theorem replaceAll_known {name : Text} (hname : name ∈ placeholderNames) (rest : Text) :
    replaceAll vars.substitutions (literal name ++ rest) =
      placeholder vars name ++ replaceAll vars.substitutions rest :=
  replaceAll_literal (literalAt_literal vars hname rest)

/-- Behind an opening brace: as far as no placeholder is closed, all is copied. -/
theorem replaceAll_between (x tail rest : Text) (hx : closeBrace ∉ x ++ tail)
    (h : ∀ y z, x = y ++ z → z ≠ [] → ∀ name ∈ placeholderNames, z ++ tail ≠ openBrace :: name) :
    replaceAll vars.substitutions (x ++ (tail ++ closeBrace :: rest)) =
      x ++ replaceAll vars.substitutions (tail ++ closeBrace :: rest) := by
  apply replaceAll_append_of_none
  intro y z hyz hz
  have hclosed : closeBrace ∉ z ++ tail := by
    intro hmem
    apply hx
    rw [hyz, List.append_assoc]
    exact List.mem_append_right y hmem
  rw [← List.append_assoc]
  exact literalAt_eq_none vars hclosed (h y z hyz hz) rest

end Replace

/-! ## Swallowed placeholders -/

/-- What is between two braces ends in a placeholder without its closing brace. -/
def Swallows (name : Text) : Prop :=
  ∃ between, ∃ known ∈ placeholderNames, name = between ++ openBrace :: known

/-- Somewhere before a placeholder there is an opening brace that is not closed
before the placeholder begins. -/
def Swallowed (tmpl : Text) : Prop :=
  ∃ before between behind, ∃ name ∈ placeholderNames, closeBrace ∉ between ∧
    tmpl = before ++ (openBrace :: between ++ (literal name ++ behind))

theorem Swallowed.append {tmpl : Text} (h : Swallowed tmpl) (before : Text) :
    Swallowed (before ++ tmpl) := by
  obtain ⟨before', between, behind, name, hname, hclosed, rfl⟩ := h
  exact ⟨before ++ before', between, behind, name, hname, hclosed, by rw [List.append_assoc]⟩

theorem swallowed_copied {c : UInt8} (hc : c ≠ openBrace) {rest : Text} :
    Swallowed (c :: rest) ↔ Swallowed rest := by
  constructor
  · rintro ⟨before, between, behind, name, hname, hclosed, htmpl⟩
    cases before with
    | nil => exact absurd (List.cons.inj htmpl).1 hc
    | cons b before =>
        exact ⟨before, between, behind, name, hname, hclosed, (List.cons.inj htmpl).2⟩
  · exact fun h => h.append [c]

theorem not_swallowed_unterminated {x : Text} (hx : closeBrace ∉ x) : ¬ Swallowed x := by
  rintro ⟨before, between, behind, name, -, -, rfl⟩
  exact hx (by simp [literal])

theorem swallowed_braced {name : Text} (hname : closeBrace ∉ name) {rest : Text} :
    Swallowed (openBrace :: (name ++ closeBrace :: rest)) ↔ Swallows name ∨ Swallowed rest := by
  constructor
  · rintro ⟨before, between, behind, known, hknown, hclosed, htmpl⟩
    have hopen : closeBrace ∉ openBrace :: between ++ openBrace :: known := by
      rw [List.mem_append]
      exact not_or.2 ⟨not_closed_cons hclosed, not_closed_cons (names_braceless known hknown).2⟩
    have hwhole : (openBrace :: name) ++ closeBrace :: rest =
        before ++ ((openBrace :: between ++ openBrace :: known) ++ closeBrace :: behind) := by
      simpa [literal] using htmpl
    rcases List.append_eq_append_iff.1 hwhole with ⟨later, -, hrest⟩ | ⟨inner, hbraced, hsame⟩
    · cases later with
      | nil => exact absurd (List.cons.inj hrest).1 (by decide)
      | cons b later =>
          refine Or.inr ⟨later, between, behind, known, hknown, hclosed, ?_⟩
          rw [(List.cons.inj hrest).2]
          simp [literal]
    · have hinner : closeBrace ∉ inner := by
        intro hmem
        have hmem' : closeBrace ∈ openBrace :: name := hbraced ▸ List.mem_append_right before hmem
        rcases List.mem_cons.1 hmem' with hbrace | htail
        · exact absurd hbrace (by decide)
        · exact hname htail
      have hfirst := congrArg (List.takeWhile (· != closeBrace)) hsame
      rw [takeWhile_bne_append hopen, takeWhile_bne_append hinner] at hfirst
      subst hfirst
      refine Or.inl ?_
      cases before with
      | nil => exact ⟨between, known, hknown, (List.cons.inj hbraced).2⟩
      | cons b before =>
          refine ⟨before ++ openBrace :: between, known, hknown, ?_⟩
          have htail : name = before ++ (openBrace :: between ++ openBrace :: known) :=
            (List.cons.inj hbraced).2
          rw [htail, List.append_assoc, List.cons_append]
  · rintro (⟨between, known, hknown, rfl⟩ | hrest)
    · refine ⟨[], between, rest, known, hknown, ?_, by simp [literal]⟩
      exact fun hmem => hname (List.mem_append_left _ hmem)
    · have happend := hrest.append (openBrace :: (name ++ [closeBrace]))
      simpa using happend

/-- No name of a placeholder has a brace in it. -/
theorem not_swallows_known {name : Text} (h : name ∈ placeholderNames) : ¬ Swallows name := by
  rintro ⟨between, known, -, rfl⟩
  exact (names_braceless _ h).1 (by simp)

section Agreement

variable (vars : LinkVars) {name : Text} (hname : closeBrace ∉ name)
include hname

theorem replaceAll_unknown (hunknown : name ∉ placeholderNames) (hnot : ¬ Swallows name)
    (rest : Text) :
    replaceAll vars.substitutions (openBrace :: (name ++ closeBrace :: rest)) =
      literal name ++ replaceAll vars.substitutions rest := by
  have hopen : closeBrace ∉ (openBrace :: name) ++ [] := by
    rw [List.append_nil]
    exact not_closed_cons hname
  have hcopied := replaceAll_between vars (openBrace :: name) [] rest hopen
    fun y z hyz _ known hknown hz => by
      rw [List.append_nil] at hz
      subst hz
      cases y with
      | nil => exact hunknown ((List.cons.inj hyz).2 ▸ hknown)
      | cons b y => exact hnot ⟨y, known, hknown, (List.cons.inj hyz).2⟩
  have hclose := replaceAll_copied vars (show closeBrace ≠ openBrace by decide) rest
  simpa [literal, hclose] using hcopied

theorem replaceAll_swallows {between known : Text} (hknown : known ∈ placeholderNames)
    (hsplit : name = between ++ openBrace :: known) (rest : Text) :
    replaceAll vars.substitutions (openBrace :: (name ++ closeBrace :: rest)) =
      openBrace :: between ++ (placeholder vars known ++ replaceAll vars.substitutions rest) := by
  have hopen : closeBrace ∉ (openBrace :: between) ++ openBrace :: known := by
    rw [hsplit] at hname
    exact not_closed_cons hname
  have hcopied := replaceAll_between vars (openBrace :: between) (openBrace :: known) rest hopen
    fun y z hyz hz other hother heq => by
      -- The name would have the brace of the swallowed placeholder in it.
      cases z with
      | nil => exact hz rfl
      | cons b z =>
          have hbrace : openBrace ∈ other := (List.cons.inj heq).2 ▸ by simp
          exact (names_braceless other hother).1 hbrace
  have hliteral : openBrace :: known ++ closeBrace :: rest = literal known ++ rest := by
    simp [literal]
  rw [hliteral, replaceAll_known vars hknown] at hcopied
  rw [hsplit, ← hcopied]
  simp [literal]

end Agreement

/-- Where no placeholder is swallowed, `render_link` replaces plainly. -/
theorem renderLink_eq_replaceAll (vars : LinkVars) {tmpl : Text} (h : ¬ Swallowed tmpl) :
    renderLink tmpl vars = replaceAll vars.substitutions tmpl := by
  induction tmpl using pieces_induction with
  | nil => rfl
  | copied c rest hc ih =>
      rw [swallowed_copied hc] at h
      rw [renderLink_copied vars hc, replaceAll_copied vars hc, ih h]
  | unterminated rest hrest =>
      have hx := not_closed_cons hrest
      rw [renderLink_unterminated vars hrest, replaceAll_unterminated vars hx]
  | braced name rest hname ih =>
      rw [swallowed_braced hname, not_or] at h
      rw [renderLink_braced vars hname, ih h.2]
      by_cases hknown : name ∈ placeholderNames
      · rw [← replaceAll_known vars hknown]
        simp [literal]
      · rw [placeholder_unknown vars hknown, replaceAll_unknown vars hname hknown h.1]

/-! ## The converse -/

/-- Values that are longer than every literal. -/
def longVars : LinkVars where
  url := .replicate 11 'a'.toUInt8
  subid := .replicate 11 'a'.toUInt8
  campaign := .replicate 11 'a'.toUInt8

theorem literal_shorter :
    ∀ name ∈ placeholderNames, (literal name).length < (placeholder longVars name).length := by
  decide

/-- Every swallowed placeholder leaves the result shorter. -/
theorem length_renderLink_longVars (tmpl : Text) :
    (renderLink tmpl longVars).length ≤ (replaceAll longVars.substitutions tmpl).length ∧
      (Swallowed tmpl →
        (renderLink tmpl longVars).length < (replaceAll longVars.substitutions tmpl).length) := by
  induction tmpl using pieces_induction with
  | nil => exact ⟨le_rfl, fun h => absurd h (not_swallowed_unterminated List.not_mem_nil)⟩
  | copied c rest hc ih =>
      rw [renderLink_copied _ hc, replaceAll_copied _ hc, swallowed_copied hc]
      simpa using ih
  | unterminated rest hrest =>
      have hx := not_closed_cons hrest
      rw [renderLink_unterminated _ hrest, replaceAll_unterminated _ hx]
      exact ⟨le_rfl, fun h => absurd h (not_swallowed_unterminated hx)⟩
  | braced name rest hname ih =>
      rw [renderLink_braced _ hname, swallowed_braced hname, List.length_append]
      by_cases hknown : name ∈ placeholderNames
      · have hliteral : openBrace :: (name ++ closeBrace :: rest) = literal name ++ rest := by
          simp [literal]
        rw [hliteral, replaceAll_known _ hknown, List.length_append]
        have hnot := not_swallows_known hknown
        constructor
        · omega
        · intro h
          have hlt := ih.2 (h.resolve_left hnot)
          omega
      · rw [placeholder_unknown _ hknown]
        by_cases hswallows : Swallows name
        · obtain ⟨between, known, hmem, hsplit⟩ := hswallows
          have hshort := literal_shorter known hmem
          have hlength : (literal name).length =
              (openBrace :: between).length + (literal known).length := by
            simp only [hsplit, literal, List.length_append, List.length_cons, List.length_nil]
            omega
          rw [replaceAll_swallows _ hname hmem hsplit, List.length_append, List.length_append]
          omega
        · rw [replaceAll_unknown _ hname hknown hswallows, List.length_append]
          constructor
          · omega
          · intro h
            have hlt := ih.2 (h.resolve_left hswallows)
            omega

/-- `render_link` is plain replacement, whatever the values are, for exactly the
templates in which no placeholder is swallowed. -/
theorem renderLink_replaces_iff (tmpl : Text) :
    (∀ vars : LinkVars, renderLink tmpl vars = replaceAll vars.substitutions tmpl) ↔
      ¬ Swallowed tmpl := by
  constructor
  · intro h hswallowed
    have hlt := (length_renderLink_longVars tmpl).2 hswallowed
    rw [h longVars] at hlt
    exact lt_irrefl _ hlt
  · exact fun h vars => renderLink_eq_replaceAll vars h

/-- A stray brace in front of `subid`, which the partner then never gets. -/
theorem renderLink_stray_brace :
    ¬ ∀ (tmpl : Text) (vars : LinkVars),
      renderLink tmpl vars = replaceAll vars.substitutions tmpl := by
  intro h
  have hstray := h (bytes "https://p/?x=\x7b&s=\x7bsubid\x7d")
    { url := bytes "u", subid := bytes "T1", campaign := [] }
  exact absurd hstray (by decide)

end SSize
