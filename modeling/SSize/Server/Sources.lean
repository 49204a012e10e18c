import SSize.Lib.Separated
import SSize.Server.Clicks

/-!
# The source of a visit

`visit_source` cuts a `Referer` behind the first `://` and before the next slash. What
stands in between is the authority when the path begins there, or when nothing comes
behind the authority at all. A query or a fragment without a path is taken along.
-/

namespace SSize

open Lib

/-! ## Referrers -/

/-- `scheme://authority path [?query] [#fragment]`. A scheme has no `:` in it; here it is
enough that it has no `://`. -/
structure Referrer where
  scheme : Text
  authority : Text
  path : Text
  query : Option Text
  fragment : Option Text
  scheme_ends : ¬ bytes "://" <:+: scheme
  authority_ends : '/'.toUInt8 ∉ authority ∧ '?'.toUInt8 ∉ authority ∧ '#'.toUInt8 ∉ authority
  path_begins : path = [] ∨ path.head? = some '/'.toUInt8

namespace Referrer

variable (r : Referrer)

def queryText : Text := r.query.elim [] ('?'.toUInt8 :: ·)

def fragmentText : Text := r.fragment.elim [] ('#'.toUInt8 :: ·)

/-- What comes behind the authority. -/
def tail : Text := r.path ++ r.queryText ++ r.fragmentText

def text : Text := r.scheme ++ (bytes "://" ++ (r.authority ++ r.tail))

/-- The authority is followed by the path, or by nothing. -/
def Closed : Prop := r.path = [] → r.query = none ∧ r.fragment = none

instance : Decidable r.Closed := inferInstanceAs (Decidable (_ → _))

theorem text_ne_nil : r.text ≠ [] := by
  have hword : bytes "://" ≠ [] := by decide
  simp [text, hword]

/-- A tail begins as the first of its parts that is there. -/
theorem head?_tail :
    r.tail.head? = (r.path.head?.or (r.query.map fun _ => '?'.toUInt8)).or
      (r.fragment.map fun _ => '#'.toUInt8) := by
  have hquery : r.queryText.head? = r.query.map fun _ => '?'.toUInt8 := by
    unfold queryText
    cases r.query <;> rfl
  have hfragment : r.fragmentText.head? = r.fragment.map fun _ => '#'.toUInt8 := by
    unfold fragmentText
    cases r.fragment <;> rfl
  rw [tail, List.head?_append, List.head?_append, hquery, hfragment]

/-- That is one of the bytes that the authority has not. -/
theorem head_tail {c : UInt8} (h : c ∈ r.tail.head?) :
    c = '/'.toUInt8 ∨ c = '?'.toUInt8 ∨ c = '#'.toUInt8 := by
  rw [head?_tail, Option.mem_def, Option.or_eq_some_iff, Option.or_eq_some_iff] at h
  rcases h with (hslash | ⟨-, hquestion⟩) | ⟨-, hhash⟩
  · rcases r.path_begins with hpath | hpath
    · simp [hpath] at hslash
    · left
      simpa [hpath, eq_comm] using hslash
  · obtain ⟨_, -, rfl⟩ := Option.map_eq_some_iff.1 hquestion
    exact Or.inr (Or.inl rfl)
  · obtain ⟨_, -, rfl⟩ := Option.map_eq_some_iff.1 hhash
    exact Or.inr (Or.inr rfl)

/-- Up to the first slash of the tail there is nothing exactly when a path begins the
tail or the tail is empty. -/
theorem takeWhile_tail_iff : r.tail.takeWhile (· != '/'.toUInt8) = [] ↔ r.Closed := by
  have hquestion : '?'.toUInt8 ≠ '/'.toUInt8 := by decide
  have hhash : '#'.toUInt8 ≠ '/'.toUInt8 := by decide
  rw [takeWhile_eq_nil_iff_head, head?_tail]
  rcases r.path_begins with hpath | hpath
  · cases hquery : r.query with
    | some query => simp [Closed, hpath, hquery, hquestion]
    | none => cases hfragment : r.fragment <;> simp [Closed, hpath, hquery, hfragment, hhash]
  · have hne : r.path ≠ [] := fun hnil => by simp [hnil] at hpath
    simp [Closed, hpath, hne]

end Referrer

theorem afterScheme_append {scheme : Text} (h : ¬ bytes "://" <:+: scheme) (rest : Text) :
    afterScheme (scheme ++ (bytes "://" ++ rest)) = some rest := by
  have hword : Unbordered (bytes "://") := by decide
  induction scheme with
  | nil => rfl
  | cons c scheme ih =>
      have hbegins := hword.not_begins (List.cons_ne_nil c scheme) h rest
      have hlater : ¬ bytes "://" <:+: scheme := fun hscheme => h (List.infix_cons hscheme)
      rw [List.cons_append] at hbegins
      rw [List.cons_append, afterScheme, if_neg fun hhere =>
        hbegins (List.isPrefixOf_iff_prefix.1 hhere), ih hlater]

theorem afterScheme_text (r : Referrer) : afterScheme r.text = some (r.authority ++ r.tail) :=
  afterScheme_append r.scheme_ends _

/-- A text has one authority. -/
theorem Referrer.authority_unique {r r' : Referrer} (h : r.text = r'.text) :
    r.authority = r'.authority := by
  have hread : ∀ r : Referrer, (r.authority ++ r.tail).takeWhile (fun c =>
      c ≠ '/'.toUInt8 ∧ c ≠ '?'.toUInt8 ∧ c ≠ '#'.toUInt8) = r.authority := by
    intro r
    apply takeWhile_append_of_head
    · intro c hc
      obtain ⟨hslash, hquestion, hhash⟩ := r.authority_ends
      simp [ne_of_mem_of_not_mem hc hslash, ne_of_mem_of_not_mem hc hquestion,
        ne_of_mem_of_not_mem hc hhash]
    · intro c hc
      rcases r.head_tail hc with rfl | rfl | rfl <;> decide
  have hsame := congrArg afterScheme h
  rw [afterScheme_text, afterScheme_text, Option.some.injEq] at hsame
  rw [← hread r, hsame, hread r']

/-! ## What is cut out -/

/-- The request says nothing of its source itself. -/
def NoUtmSource (q : Query) : Prop := ∀ utm, q (bytes "utm_source") = some utm → utm = []

theorem visitSource_referer {q : Query} (hutm : NoUtmSource q) (referer : Text) :
    visitSource q referer =
      if referer.isEmpty then bytes "direct"
      else ((afterScheme referer).getD referer).takeWhile (· != '/'.toUInt8) := by
  unfold visitSource
  split
  · next c rest hsource => exact absurd (hutm _ hsource) (List.cons_ne_nil c rest)
  · rfl

/-- No `Referer` at all gets a slash into the source. -/
theorem slash_notMem_visitSource {q : Query} (hutm : NoUtmSource q) (referer : Text) :
    '/'.toUInt8 ∉ visitSource q referer := by
  rw [visitSource_referer hutm]
  split
  · decide
  · intro hslash
    simpa using List.mem_takeWhile_imp hslash

/-- The authority, and what stands behind it up to the next slash. -/
theorem visitSource_text {q : Query} (hutm : NoUtmSource q) (r : Referrer) :
    visitSource q r.text = r.authority ++ r.tail.takeWhile (· != '/'.toUInt8) := by
  have hne : r.text.isEmpty = false := by simpa [List.isEmpty_iff] using r.text_ne_nil
  have hauthority : ∀ c ∈ r.authority, (c != '/'.toUInt8) = true :=
    fun c hc => by simpa using ne_of_mem_of_not_mem hc r.authority_ends.1
  rw [visitSource_referer hutm, hne, if_neg (by decide), afterScheme_text, Option.getD_some,
    List.takeWhile_append_of_pos hauthority]

theorem visitSource_text_iff {q : Query} (hutm : NoUtmSource q) (r : Referrer) :
    visitSource q r.text = r.authority ↔ r.Closed := by
  rw [visitSource_text hutm, List.append_right_eq_self, r.takeWhile_tail_iff]

/-! ## The column -/

variable (lib : Library) (cfg : Config) (amb : Ambient)

/-- Clicks have the source of the visit, impressions have none. -/
theorem dispatch_source (ptr : CatalogPtr) (cache : FeedCache) (req : HttpRequest)
    (clientIp : Text) {ev : Event}
    (hev : ev ∈ eventsOf (dispatch lib cfg amb ptr cache req clientIp).effects) :
    ev.source = if ev.type = .impression then []
      else visitSource (parseQuery (splitTarget req.target).2) req.referer := by
  rw [dispatch_effects_eq] at hev
  split at hev
  · simp [eventsOf] at hev
  cases hitem : requestedItem (bytes "/item/") cfg req with
  | some id =>
      rw [routed_item lib amb hitem, handleItem] at hev
      split at hev
      · simp [Outcome.answer, eventsOf] at hev
      · rw [mem_eventsOf, List.mem_singleton, logEvent, Effect.event.injEq] at hev
        rw [hev]
        rfl
  | none =>
      cases hredirect : requestedItem (bytes "/r/") cfg req with
      | some id =>
          rw [routed_redirect lib amb hredirect, handleRedirect] at hev
          split at hev
          · simp [Outcome.answer, eventsOf] at hev
          · rw [mem_eventsOf, List.mem_singleton, logEvent, Effect.event.injEq] at hev
            rw [hev]
            rfl
      | none =>
          obtain ⟨htype, hsource⟩ := routed_other lib amb hitem hredirect ev hev
          rw [htype, if_pos rfl, hsource]

/-- The visit has the authority for its source, and so has every row of it in `events`
whose source is filled in, as it is for clicks. -/
structure SourceIsAuthority (r : Referrer) (q : Query) (effects : List Effect) : Prop where
  returned : visitSource q r.text = r.authority
  column : ∀ ev ∈ eventsOf effects,
    (eventRow ev).source = some (if ev.type = .impression then [] else r.authority)

/-- A request that names no source itself has the authority of its `Referer` for one
exactly when no query and no fragment follows the authority at once. -/
theorem source_authority_iff (ptr : CatalogPtr) (cache : FeedCache) (req : HttpRequest)
    (clientIp : Text) (r : Referrer) (hreferer : req.referer = r.text)
    (hutm : NoUtmSource (parseQuery (splitTarget req.target).2)) :
    SourceIsAuthority r (parseQuery (splitTarget req.target).2)
        (dispatch lib cfg amb ptr cache req clientIp).effects ↔ r.Closed := by
  constructor
  · exact fun h => (visitSource_text_iff hutm r).1 h.returned
  · intro hclosed
    have hreturned := (visitSource_text_iff hutm r).2 hclosed
    refine ⟨hreturned, fun ev hev => ?_⟩
    have hsource := dispatch_source lib cfg amb ptr cache req clientIp hev
    rw [hreferer, hreturned] at hsource
    exact congrArg some hsource

/-- `https://t.me/shop?start=a/b#top`. -/
def telegramPost : Referrer where
  scheme := bytes "https"
  authority := bytes "t.me"
  path := bytes "/shop"
  query := some (bytes "start=a/b")
  fragment := some (bytes "top")
  scheme_ends := by decide
  authority_ends := by decide
  path_begins := by decide

/-- The click of a visitor who comes from a post. -/
theorem source_authority_post :
    SourceIsAuthority telegramPost (parseQuery (bytes "p=2"))
      (dispatch .bare {} (.bare 0) { catalog := .ofRows [{ id := 1 }] [] } {}
        { target := bytes "/item/1?p=2", referer := telegramPost.text } []).effects := by
  have hutm : NoUtmSource (parseQuery (splitTarget (bytes "/item/1?p=2")).2) := by
    have hnone : parseQuery (splitTarget (bytes "/item/1?p=2")).2 (bytes "utm_source") = none := by
      decide
    intro utm hsome
    rw [hnone] at hsome
    exact absurd hsome.symm (Option.some_ne_none utm)
  exact (source_authority_iff .bare {} (.bare 0) { catalog := .ofRows [{ id := 1 }] [] } {}
    { target := bytes "/item/1?p=2", referer := telegramPost.text } [] telegramPost rfl hutm).2
    (by decide)

/-- `https://t.me?start=42`. -/
def telegramStart : Referrer where
  scheme := bytes "https"
  authority := bytes "t.me"
  path := []
  query := some (bytes "start=42")
  fragment := none
  scheme_ends := by decide
  authority_ends := by decide
  path_begins := by decide

/-- The query is in the column. -/
theorem source_leaks_query :
    (eventsOf (dispatch .bare {} (.bare 0) { catalog := .ofRows [{ id := 1 }] [] } {}
      { target := bytes "/item/1", referer := telegramStart.text } []).effects).map
        (fun ev => (eventRow ev).source) = [some (bytes "t.me?start=42")] ∧
    ¬ SourceIsAuthority telegramStart (parseQuery [])
      (dispatch .bare {} (.bare 0) { catalog := .ofRows [{ id := 1 }] [] } {}
        { target := bytes "/item/1", referer := telegramStart.text } []).effects := by
  refine ⟨by decide, fun h => ?_⟩
  exact absurd h.returned (by decide)

end SSize
