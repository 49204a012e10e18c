import SSize.Handlers.FeedCache
import SSize.Server.Listing

/-!
# The filter chips

`feed.html` writes a slug into the link of its chip as it is, and `parse_query` decodes
what it finds there. The link leads to its own tag exactly when decoding changes
nothing and no separator cuts the slug.
-/

namespace SSize

open Lib

/-! ## Decoding what was not encoded -/

/-- Two hexadecimal digits behind a `%` stand somewhere in the text. -/
def Escaped (text : Text) : Prop :=
  ∃ hi lo, (hexValue hi).isSome = true ∧ (hexValue lo).isSome = true ∧
    ['%'.toUInt8, hi, lo] <:+: text

theorem escaped_cons {c : UInt8} {text : Text} :
    Escaped (c :: text) ↔ Escaped text ∨ c = '%'.toUInt8 ∧
      ∃ hi lo rest, text = hi :: lo :: rest ∧ (hexValue hi).isSome = true ∧
        (hexValue lo).isSome = true := by
  constructor
  · rintro ⟨hi, lo, hhi, hlo, hwithin⟩
    rcases List.infix_cons_iff.1 hwithin with hfirst | hlater
    · obtain ⟨rest, hrest⟩ := hfirst
      rw [List.cons_append, List.cons.injEq] at hrest
      exact Or.inr ⟨hrest.1.symm, hi, lo, rest, hrest.2.symm, hhi, hlo⟩
    · exact Or.inl ⟨hi, lo, hhi, hlo, hlater⟩
  · rintro (⟨hi, lo, hhi, hlo, hlater⟩ | ⟨rfl, hi, lo, rest, rfl, hhi, hlo⟩)
    · exact ⟨hi, lo, hhi, hlo, hlater.trans (List.suffix_cons c text).isInfix⟩
    · exact ⟨hi, lo, hhi, hlo, List.infix_cons_iff.2 (Or.inl (List.prefix_append [_, hi, lo] rest))⟩

/-- What one step of the loop does: a space, a decoded byte or a copied one. -/
theorem urlDecode_cons (c : UInt8) (rest : Text) :
    (c = '+'.toUInt8 ∧ urlDecode (c :: rest) = ' '.toUInt8 :: urlDecode rest) ∨
    (c = '%'.toUInt8 ∧ ∃ hi lo tail h l, rest = hi :: lo :: tail ∧ hexValue hi = some h ∧
      hexValue lo = some l ∧ urlDecode (c :: rest) = (h * 16 + l) :: urlDecode tail) ∨
    (c ≠ '+'.toUInt8 ∧
      ¬ (c = '%'.toUInt8 ∧ ∃ hi lo tail, rest = hi :: lo :: tail ∧
        (hexValue hi).isSome = true ∧ (hexValue lo).isSome = true) ∧
      urlDecode (c :: rest) = c :: urlDecode rest) := by
  by_cases hplus : c = '+'.toUInt8
  · refine Or.inl ⟨hplus, ?_⟩
    match rest with
    | [] => simp [urlDecode, hplus]
    | [b] => simp [urlDecode, hplus]
    | hi :: lo :: tail => rw [urlDecode, if_pos hplus]
  refine Or.inr ?_
  by_cases hpercent : c = '%'.toUInt8
  · match rest with
    | [] => exact Or.inr ⟨hplus, by simp, by simp [urlDecode, hplus]⟩
    | [b] => exact Or.inr ⟨hplus, by simp, by simp [urlDecode, hplus]⟩
    | hi :: lo :: tail =>
        cases hhi : hexValue hi with
        | none =>
            refine Or.inr ⟨hplus, by simp [hhi], ?_⟩
            rw [urlDecode, if_neg hplus, if_pos hpercent, hhi]
        | some h =>
            cases hlo : hexValue lo with
            | none =>
                refine Or.inr ⟨hplus, by simp [hlo], ?_⟩
                rw [urlDecode, if_neg hplus, if_pos hpercent, hhi, hlo]
            | some l =>
                refine Or.inl ⟨hpercent, hi, lo, tail, h, l, rfl, hhi, hlo, ?_⟩
                rw [hpercent]
                exact urlDecode_escape hhi hlo tail
  · exact Or.inr ⟨hplus, fun h => hpercent h.1, urlDecode_cons_plain hplus hpercent rest⟩

theorem length_urlDecode_le (text : Text) : (urlDecode text).length ≤ text.length := by
  induction hlength : text.length using Nat.strong_induction_on generalizing text with
  | _ n ih =>
      cases text with
      | nil => simp [urlDecode]
      | cons c rest =>
          rw [List.length_cons] at hlength
          have hrest := ih rest.length (by omega) rest rfl
          rcases urlDecode_cons c rest with ⟨-, h⟩ | ⟨-, hi, lo, tail, x, y, rfl, -, -, h⟩ |
            ⟨-, -, h⟩
          · rw [h, List.length_cons]
            omega
          · simp only [List.length_cons] at hlength
            have htail := ih tail.length (by omega) tail rfl
            rw [h, List.length_cons]
            omega
          · rw [h, List.length_cons]
            omega

/-- Decoding keeps a text exactly when there is nothing to decode in it. -/
theorem urlDecode_eq_self_iff (text : Text) :
    urlDecode text = text ↔ '+'.toUInt8 ∉ text ∧ ¬ Escaped text := by
  induction text with
  | nil =>
      refine iff_of_true rfl ⟨List.not_mem_nil, ?_⟩
      rintro ⟨hi, lo, -, -, hwithin⟩
      simpa using hwithin.length_le
  | cons c rest ih =>
      rw [List.mem_cons, escaped_cons]
      rcases urlDecode_cons c rest with ⟨hplus, h⟩ | ⟨hpercent, hi, lo, tail, x, y, hrest, hhi, hlo,
        h⟩ | ⟨hplus, hescape, h⟩
      · refine iff_of_false ?_ fun hclean => hclean.1 (Or.inl hplus.symm)
        rw [h, hplus]
        intro heq
        exact absurd (List.cons.inj heq).1 (by decide)
      · refine iff_of_false ?_ fun hclean =>
          hclean.2 (Or.inr ⟨hpercent, hi, lo, tail, hrest, ?_, ?_⟩)
        · intro heq
          have hlength := congrArg List.length (h.symm.trans heq)
          have htail := length_urlDecode_le tail
          rw [hrest] at hlength
          simp only [List.length_cons] at hlength
          omega
        · rw [hhi, Option.isSome_some]
        · rw [hlo, Option.isSome_some]
      · rw [h, List.cons.injEq, ih]
        have hne : '+'.toUInt8 ≠ c := Ne.symm hplus
        constructor
        · rintro ⟨-, hclean, hplain⟩
          exact ⟨not_or.2 ⟨hne, hclean⟩, not_or.2 ⟨hplain, hescape⟩⟩
        · rintro ⟨hclean, hplain⟩
          exact ⟨rfl, (not_or.1 hclean).2, (not_or.1 hplain).1⟩

/-! ## The link of a chip -/

/-- What `feed.html` puts into the `href` of the chip for a tag. -/
def chipLink (cfg : Config) (slug : Text) : Text := cfg.basePath ++ bytes "/?tag=" ++ slug

theorem splitTarget_chipLink {cfg : Config} (hbase : question ∉ cfg.basePath) (slug : Text) :
    splitTarget (chipLink cfg slug) = (cfg.basePath ++ bytes "/", bytes "tag=" ++ slug) := by
  have hpath : question ∉ cfg.basePath ++ bytes "/" := by
    rw [List.mem_append]
    exact not_or.2 ⟨hbase, by decide⟩
  have hsign : bytes "/?tag=" = bytes "/" ++ question :: bytes "tag=" := by decide
  have hlink : chipLink cfg slug =
      (cfg.basePath ++ bytes "/") ++ question :: (bytes "tag=" ++ slug) := by
    simp only [chipLink, hsign, List.append_assoc, List.cons_append]
  rw [hlink, splitTarget, takeWhile_bne_append hpath, dropWhile_bne_append hpath]
  rfl

/-- The tag of the query is shorter than `n` bytes. -/
def Query.TagBelow (n : Nat) (q : Query) : Prop :=
  ∃ value, q (bytes "tag") = some value ∧ value.length < n

/-- A pair of less than `n` bytes has no value of `n` bytes. -/
theorem Query.TagBelow.parsePair {n : Nat} {q : Query} (h : q.TagBelow n) {pair : Text}
    (hpair : pair.length < n) : (parsePair q pair).TagBelow n := by
  obtain ⟨value, hvalue, hshort⟩ := h
  unfold SSize.parsePair
  split
  · exact ⟨value, hvalue, hshort⟩
  simp only
  split
  · by_cases hkey : bytes "tag" = urlDecode pair
    · exact ⟨value, by simp [Query.emplace, ← hkey, hvalue], hshort⟩
    · exact ⟨value, by simp [Query.emplace, hkey, hvalue], hshort⟩
  · next c rest hrest =>
      by_cases hkey : bytes "tag" = urlDecode (pair.takeWhile (· != '='.toUInt8))
      · refine ⟨urlDecode rest, by simp [Query.insertOrAssign, ← hkey], ?_⟩
        have hsuffix := (List.dropWhile_suffix (l := pair) (· != '='.toUInt8)).length_le
        have hdecoded := length_urlDecode_le rest
        rw [hrest, List.length_cons] at hsuffix
        omega
      · exact ⟨value, by simp [Query.insertOrAssign, hkey, hvalue], hshort⟩

theorem Query.TagBelow.foldl {n : Nat} {q : Query} (h : q.TagBelow n) {pairs : List Text}
    (hpairs : ∀ pair ∈ pairs, pair.length < n) : (pairs.foldl SSize.parsePair q).TagBelow n := by
  induction pairs generalizing q with
  | nil => exact h
  | cons pair pairs ih =>
      exact ih (h.parsePair (hpairs pair List.mem_cons_self))
        fun other hother => hpairs other (List.mem_cons_of_mem pair hother)

theorem parsePair_tag (q : Query) (value : Text) :
    parsePair q (bytes "tag=" ++ value) = q.insertOrAssign (bytes "tag") (urlDecode value) := by
  have hkey : bytes "tag=" ++ value = bytes "tag" ++ '='.toUInt8 :: value := by
    have hsign : bytes "tag=" = bytes "tag" ++ ['='.toUInt8] := by decide
    rw [hsign, List.append_assoc]
    rfl
  have hplain : urlDecode (bytes "tag") = bytes "tag" := by decide
  rw [hkey, parsePair_append (by decide), hplain]

/-- The part of a slug in front of its first `&` is its tag, or a later part is. -/
theorem parseQuery_cut {slug : Text} (h : '&'.toUInt8 ∈ slug) :
    (parseQuery (bytes "tag=" ++ slug)).TagBelow slug.length := by
  obtain ⟨first, rest, rfl, hfirst⟩ := List.eq_append_cons_of_mem h
  have hclean : '&'.toUInt8 ∉ bytes "tag=" ++ first := by
    rw [List.mem_append]
    exact not_or.2 ⟨by decide, hfirst⟩
  have hjoin : bytes "tag=" ++ (first ++ '&'.toUInt8 :: rest) =
      (bytes "tag=" ++ first) ++ '&'.toUInt8 :: rest := (List.append_assoc _ _ _).symm
  rw [hjoin, parseQuery, List.splitOn_append_cons_self_of_not_mem hclean, List.foldl_cons,
    parsePair_tag]
  refine Query.TagBelow.foldl ⟨urlDecode first, by simp [Query.insertOrAssign], ?_⟩ ?_
  · have hdecoded := length_urlDecode_le first
    rw [List.length_append, List.length_cons]
    omega
  · intro pair hpair
    have hshort := length_le_of_mem_splitOn hpair
    rw [List.length_append, List.length_cons]
    omega

/-- The parameter is the slug when nothing in it cuts or decodes it, and only then. -/
theorem tag_chipLink_iff {cfg : Config} (hbase : question ∉ cfg.basePath) (slug : Text) :
    parseQuery (splitTarget (chipLink cfg slug)).2 (bytes "tag") = some slug ↔
      '&'.toUInt8 ∉ slug ∧ '+'.toUInt8 ∉ slug ∧ ¬ Escaped slug := by
  rw [splitTarget_chipLink hbase]
  by_cases hcut : '&'.toUInt8 ∈ slug
  · refine iff_of_false (fun htag => ?_) fun hclean => hclean.1 hcut
    obtain ⟨value, hvalue, hshort⟩ := parseQuery_cut hcut
    rw [htag, Option.some.injEq] at hvalue
    rw [hvalue] at hshort
    exact lt_irrefl _ hshort
  · have hone : '&'.toUInt8 ∉ bytes "tag=" ++ slug := by
      rw [List.mem_append]
      exact not_or.2 ⟨by decide, hcut⟩
    have htag : parseQuery (bytes "tag=" ++ slug) (bytes "tag") = some (urlDecode slug) := by
      rw [parseQuery, List.splitOn_eq_singleton hone, List.foldl_cons, parsePair_tag]
      simp [Query.insertOrAssign]
    rw [htag, Option.some.injEq, urlDecode_eq_self_iff]
    exact ⟨fun h => ⟨hcut, h⟩, fun h => h.2⟩

/-! ## From the page to the feed -/

/-- The chip of every tag of the snapshot is on the page. -/
theorem chipLink_feedHtml {cfg : Config} {catalog : Catalog} {slug : Text}
    (hslug : slug ∈ catalog.tags) (tag size query : Text) :
    href (chipLink cfg slug) <:+: feedHtml (feedData cfg catalog tag size query) := by
  have hstart : bytes "\"\n       href=\"" = bytes "\"\n       " ++ bytes "href=\"" := by decide
  have hend : bytes "\">" = bytes "\"" ++ bytes ">" := by decide
  have hbase : ((feedData cfg catalog tag size query).field "base").print = cfg.basePath := rfl
  have htags : ((feedData cfg catalog tag size query).field "tags").elements =
      catalog.tags.map .string := rfl
  have hchip : ∀ start on : Text, href (chipLink cfg slug) <:+:
      start ++ on ++ bytes "\"\n       href=\"" ++ cfg.basePath ++ bytes "/?tag=" ++
        (Json.string slug).print ++ bytes "\">" ++ (Json.string slug).print ++
        bytes "</a>\n" := by
    intro start on
    refine ⟨start ++ on ++ bytes "\"\n       ", bytes ">" ++ slug ++ bytes "</a>\n", ?_⟩
    simp only [href, chipLink, hstart, hend, Json.print, List.append_assoc]
  have hchips : href (chipLink cfg slug) <:+: chips (feedData cfg catalog tag size query) := by
    unfold chips
    simp only [hbase, htags, List.flatMap_def, List.map_map]
    refine List.infix_append_of_infix_left (List.infix_append_of_infix_right ?_)
    apply List.IsInfix.trans ?_
      (List.infix_of_mem_flatten (List.mem_map.2 ⟨slug, hslug, rfl⟩))
    exact hchip _ _
  unfold feedHtml feedMain
  simp only [List.append_assoc]
  repeat first
    | with_reducible exact List.infix_append_of_infix_left hchips
    | refine List.infix_append_of_infix_right ?_

/-- A GET of the chip's link is for the feed of this tag. -/
def LeadsToTag (cfg : Config) (slug : Text) : Prop :=
  ∀ req : HttpRequest, req.method = .get → req.target = chipLink cfg slug →
    isFeed cfg req = true ∧ feedQuery req (bytes "tag") = some slug

theorem leadsToTag_iff {cfg : Config} (hbase : question ∉ cfg.basePath) (slug : Text) :
    LeadsToTag cfg slug ↔ '&'.toUInt8 ∉ slug ∧ '+'.toUInt8 ∉ slug ∧ ¬ Escaped slug := by
  rw [← tag_chipLink_iff hbase]
  constructor
  · exact fun h => (h { target := chipLink cfg slug } rfl rfl).2
  · intro htag req hget htarget
    constructor
    · rw [isFeed, htarget, splitTarget_chipLink hbase, routePath_base (by decide)]
      exact decide_eq_true ⟨hget, rfl⟩
    · rw [feedQuery, htarget]
      exact htag

end SSize
