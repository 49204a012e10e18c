import SSize.Server.Listing

/-!
# Positions on the way through the server

The position of a click is parsed as an `int64`, cast to an `int`, written into the
out link of the item page with `-1` standing for none, and parsed again behind that
link. Exactly the positions that are an `int` come through all of it.
-/

namespace SSize

/-! ## Numerals -/

/-- The whole text is a decimal numeral: digits, with or without a minus. -/
inductive Denotes : Text → Int → Prop
  | digits {text : Text} (hne : text ≠ []) (hdigits : text.all isDigit = true) :
      Denotes text (digitsValue text)
  | minus {text : Text} (hne : text ≠ []) (hdigits : text.all isDigit = true) :
      Denotes ('-'.toUInt8 :: text) (-digitsValue text)

theorem minus_not_digits {text : Text} (h : ('-'.toUInt8 :: text).all isDigit = true) : False := by
  rw [List.all_cons, Bool.and_eq_true] at h
  exact absurd h.1 (by decide)

theorem Denotes.unique {text : Text} {m n : Int} (hm : Denotes text m) (hn : Denotes text n) :
    m = n := by
  cases hm with
  | digits hne hdigits =>
      cases hn with
      | digits => rfl
      | minus => exact (minus_not_digits hdigits).elim
  | minus hne hdigits =>
      cases hn with
      | digits _ hdigits' => exact (minus_not_digits hdigits').elim
      | minus => rfl

theorem parseInt_digits {text : Text} (hne : text ≠ []) (hdigits : text.all isDigit = true) :
    parseInt text = if -2 ^ 63 ≤ digitsValue text ∧ digitsValue text < 2 ^ 63 then
      some (digitsValue text) else none := by
  have hempty : text.isEmpty = false := by simpa [List.isEmpty_iff] using hne
  have hhead : text.head? ≠ some '-'.toUInt8 := by
    intro hhead
    have hminus := List.all_eq_true.1 hdigits _ (List.mem_of_mem_head? hhead)
    exact absurd hminus (by decide)
  simp [parseInt, hhead, hempty, hdigits]

theorem parseInt_minus_digits {text : Text} (hne : text ≠ []) (hdigits : text.all isDigit = true) :
    parseInt ('-'.toUInt8 :: text) =
      if -2 ^ 63 ≤ -digitsValue text ∧ -digitsValue text < 2 ^ 63 then
        some (-digitsValue text) else none := by
  have hempty : text.isEmpty = false := by simpa [List.isEmpty_iff] using hne
  simp [parseInt, hempty, hdigits]

/-- `parse_int` reads the numerals of `int64` and nothing else. -/
theorem parseInt_eq_some_iff {text : Text} {n : Int} :
    parseInt text = some n ↔ Denotes text n ∧ -2 ^ 63 ≤ n ∧ n < 2 ^ 63 := by
  constructor
  · intro h
    have hnumeral : ∃ m, Denotes text m := by
      unfold parseInt at h
      by_cases hminus : text.head? = some '-'.toUInt8
      · obtain ⟨rest, rfl⟩ := List.head?_eq_some_iff.1 hminus
        simp only [hminus, if_true, List.drop_one, List.tail_cons] at h
        split at h
        · simp at h
        · next hrest =>
            rw [Bool.or_eq_true, not_or] at hrest
            exact ⟨_, .minus (by simpa using hrest.1) (by simpa using hrest.2)⟩
      · simp only [hminus, if_false] at h
        split at h
        · simp at h
        · next htext =>
            rw [Bool.or_eq_true, not_or] at htext
            exact ⟨_, .digits (by simpa using htext.1) (by simpa using htext.2)⟩
    obtain ⟨m, hm⟩ := hnumeral
    cases hm with
    | digits hne hdigits =>
        rw [parseInt_digits hne hdigits, Option.ite_none_right_eq_some, Option.some.injEq] at h
        exact ⟨h.2 ▸ .digits hne hdigits, h.2 ▸ h.1⟩
    | minus hne hdigits =>
        rw [parseInt_minus_digits hne hdigits, Option.ite_none_right_eq_some,
          Option.some.injEq] at h
        exact ⟨h.2 ▸ .minus hne hdigits, h.2 ▸ h.1⟩
  · rintro ⟨hdenotes, hrange⟩
    cases hdenotes with
    | digits hne hdigits => rw [parseInt_digits hne hdigits, if_pos hrange]
    | minus hne hdigits => rw [parseInt_minus_digits hne hdigits, if_pos hrange]

/-! ## The position of a query -/

/-- The parameter `p` is there and is a numeral of the integer. -/
def Query.Gives (q : Query) (n : Int) : Prop :=
  ∃ text, q (bytes "p") = some text ∧ Denotes text n

/-- The position is the `int` that the query gives, and there is none without one. -/
def Query.Records (q : Query) (position : Option Int) : Prop :=
  ∀ n, position = some n ↔ q.Gives n ∧ FitsInt n

theorem Query.Gives.unique {q : Query} {m n : Int} (hm : q.Gives m) (hn : q.Gives n) : m = n := by
  obtain ⟨text, htext, hm⟩ := hm
  obtain ⟨text', htext', hn⟩ := hn
  rw [htext, Option.some.injEq] at htext'
  exact hm.unique (htext' ▸ hn)

theorem positionOf_eq_some_iff {q : Query} {n : Int} :
    positionOf q = some n ↔ ∃ v, q.Gives v ∧ FitsInt64 v ∧ castInt v = n := by
  rw [positionOf, Option.map_eq_some_iff]
  constructor
  · rintro ⟨v, hv, hcast⟩
    obtain ⟨text, htext, hparse⟩ := Option.bind_eq_some_iff.1 hv
    obtain ⟨hdenotes, hrange⟩ := parseInt_eq_some_iff.1 hparse
    exact ⟨v, ⟨text, htext, hdenotes⟩, hrange, hcast⟩
  · rintro ⟨v, ⟨text, htext, hdenotes⟩, hrange, hcast⟩
    refine ⟨v, ?_, hcast⟩
    rw [htext]
    exact parseInt_eq_some_iff.2 ⟨hdenotes, hrange⟩

/-- The cast is what goes wrong: an `int64` that is no `int` is recorded as another one. -/
theorem records_positionOf_iff (q : Query) :
    q.Records (positionOf q) ↔ ∀ v, q.Gives v → FitsInt64 v → FitsInt v := by
  constructor
  · intro hrecords v hgives hwide
    have hposition : positionOf q = some (castInt v) :=
      positionOf_eq_some_iff.2 ⟨v, hgives, hwide, rfl⟩
    obtain ⟨hgives', hfits⟩ := (hrecords (castInt v)).1 hposition
    rw [hgives.unique hgives']
    exact hfits
  · intro hints n
    rw [positionOf_eq_some_iff]
    constructor
    · rintro ⟨v, hgives, hwide, hcast⟩
      have hfits := hints v hgives hwide
      rw [castInt_eq_self_iff.2 hfits] at hcast
      exact hcast ▸ ⟨hgives, hfits⟩
    · rintro ⟨hgives, hfits⟩
      have hwide : FitsInt64 n := by
        unfold FitsInt FitsInt64 at *
        omega
      exact ⟨n, hgives, hwide, castInt_eq_self_iff.2 hfits⟩

/-! ## The click and the link behind it -/

variable (lib : Library) (cfg : Config)

/-- The one event of a request, with the position that its query gives. -/
def LogsPosition (type : EventType) (q : Query) (effects : List Effect) : Prop :=
  ∃ ev, effects = [.event ev] ∧ ev.type = type ∧ q.Records ev.position

/-- Whoever follows `link` while the item is published queues an outbound click with
this position, or with none. -/
def CarriesPosition (id : Int) (link : Text) (position : Option Int) : Prop :=
  ∀ (amb : Ambient) (ptr : CatalogPtr) (cache : FeedCache) (req : HttpRequest) (clientIp : Text),
    req.method = .get → req.target = link → ptr.catalog.find id ≠ none →
      ∃ ev, (dispatch lib cfg amb ptr cache req clientIp).effects = [.event ev] ∧
        ev.type = .outbound ∧ ev.itemId = some id ∧ ev.position = position

/-- The link to the partner on the page that `handle_item` renders. -/
def pageOutLink (item : Item) (q : Query) : Text :=
  outLink ((itemData cfg item (positionOf q)).field "item")

/-- The click on an item page has the position of the query, and the out link of the
page hands on the position of the click. -/
structure KeepsPosition (item : Item) (q : Query) (effects : List Effect) : Prop where
  logged : LogsPosition .cardClick q effects
  carried : ∀ ev, effects = [.event ev] →
    CarriesPosition lib cfg item.id (pageOutLink cfg item q) ev.position

variable {cfg} (amb : Ambient) {req : HttpRequest} {clientIp : Text} {item : Item} {id : Int}

theorem requestedItem_fits {root : Text} (h : requestedItem root cfg req = some id) :
    FitsInt64 id :=
  (parseInt_eq_some_iff.1 (requestedItem_eq_some h).2.2).2

theorem redirect_position (ptr : CatalogPtr) (cache : FeedCache)
    (hid : requestedItem (bytes "/r/") cfg req = some id)
    (hitem : ptr.catalog.find id = some item) :
    ∃ ev, (dispatch lib cfg amb ptr cache req clientIp).effects = [.event ev] ∧
      ev.type = .outbound ∧ ev.itemId = some id ∧
      ev.position = positionOf (parseQuery (splitTarget req.target).2) := by
  rw [dispatch_effects_eq, if_neg (requestedItem_not_feed (by decide) hid),
    routed_redirect lib amb hid, handleRedirect, hitem]
  exact ⟨_, rfl, rfl, rfl, rfl⟩

theorem item_position (ptr : CatalogPtr) (cache : FeedCache)
    (hid : requestedItem (bytes "/item/") cfg req = some id)
    (hitem : ptr.catalog.find id = some item) :
    ∃ ev, (dispatch lib cfg amb ptr cache req clientIp).effects = [.event ev] ∧
      ev.type = .cardClick ∧
      ev.position = positionOf (parseQuery (splitTarget req.target).2) := by
  rw [dispatch_effects_eq, if_neg (requestedItem_not_feed (by decide) hid),
    routed_item lib amb hid, handleItem, hitem]
  exact ⟨_, rfl, rfl, rfl⟩

theorem logsPosition_iff {type : EventType} {q : Query} {effects : List Effect} {ev : Event}
    (heffects : effects = [.event ev]) (htype : ev.type = type)
    (hposition : ev.position = positionOf q) :
    LogsPosition type q effects ↔ ∀ v, q.Gives v → FitsInt64 v → FitsInt v := by
  rw [← records_positionOf_iff, ← hposition]
  constructor
  · rintro ⟨ev', heffects', -, hrecords⟩
    rw [heffects, List.cons.injEq, Effect.event.injEq] at heffects'
    exact heffects'.1 ▸ hrecords
  · exact fun hrecords => ⟨ev, heffects, htype, hrecords⟩

/-- The link carries a position that is there. Its `-1` for none comes back as a position. -/
theorem carriesPosition_iff (hbase : question ∉ cfg.basePath) (hid : FitsInt64 item.id)
    {ptr : CatalogPtr} (hpublished : ptr.catalog.find item.id ≠ none) (q : Query) :
    CarriesPosition lib cfg item.id (pageOutLink cfg item q) (positionOf q) ↔
      positionOf q ≠ none := by
  have hleads : ∀ i, FitsInt i → LeadsToPartner lib cfg item.id i
      (linkTo cfg (bytes "/r/") item.id i) :=
    fun i hi => redirect_leadsToPartner lib hbase hid.1 hid.2 hi.1 hi.2
  cases hposition : positionOf q with
  | none =>
      refine iff_of_false (fun hcarries => ?_) (fun hne => hne rfl)
      have hlink : pageOutLink cfg item q = linkTo cfg (bytes "/r/") item.id (-1) := by
        rw [pageOutLink, outLink_itemData, hposition]
        rfl
      rw [hlink] at hcarries
      let follow : HttpRequest := { target := linkTo cfg (bytes "/r/") item.id (-1) }
      obtain ⟨ev, heffects, -, -, hnone⟩ :=
        hcarries (.bare 0) ptr {} follow [] rfl rfl hpublished
      obtain ⟨ev', heffects', -, -, hminus⟩ :=
        (hleads (-1) (by unfold FitsInt; omega)).queued (.bare 0) ptr {} follow [] rfl rfl
          hpublished
      rw [heffects, List.cons.injEq, Effect.event.injEq] at heffects'
      rw [← heffects'.1, hnone] at hminus
      simp at hminus
  | some i =>
      refine iff_of_true ?_ (by simp)
      have hfits : FitsInt i := by
        obtain ⟨v, -, -, hcast⟩ := positionOf_eq_some_iff.1 hposition
        exact hcast ▸ castInt_fits v
      have hlink : pageOutLink cfg item q = linkTo cfg (bytes "/r/") item.id i := by
        rw [pageOutLink, outLink_itemData, hposition]
        rfl
      rw [hlink]
      exact (hleads i hfits).queued

theorem keepsPosition_iff (hbase : question ∉ cfg.basePath) (ptr : CatalogPtr) (cache : FeedCache)
    (hid : requestedItem (bytes "/item/") cfg req = some id)
    (hitem : ptr.catalog.find id = some item) :
    KeepsPosition lib cfg item (parseQuery (splitTarget req.target).2)
        (dispatch lib cfg amb ptr cache req clientIp).effects ↔
      ∃ n, (parseQuery (splitTarget req.target).2).Gives n ∧ FitsInt n := by
  set q := parseQuery (splitTarget req.target).2
  have hitemId : item.id = id := by simpa using List.find?_some hitem
  have hwide : FitsInt64 item.id := hitemId ▸ requestedItem_fits hid
  have hpublished : ptr.catalog.find item.id ≠ none := by simp [hitemId, hitem]
  obtain ⟨ev, heffects, htype, hposition⟩ :=
    @item_position lib cfg amb req clientIp item id ptr cache hid hitem
  have hlogs := logsPosition_iff heffects htype hposition
  have hcarries := carriesPosition_iff lib hbase hwide hpublished q
  constructor
  · intro hkeeps
    have hints := hlogs.1 hkeeps.logged
    have hsome := hcarries.1 (hposition ▸ hkeeps.carried ev heffects)
    obtain ⟨n, hn⟩ := Option.ne_none_iff_exists'.1 hsome
    obtain ⟨v, hgives, hv, -⟩ := positionOf_eq_some_iff.1 hn
    exact ⟨v, hgives, hints v hgives hv⟩
  · rintro ⟨n, hgives, hfits⟩
    have hint : ∀ v, q.Gives v → FitsInt64 v → FitsInt v :=
      fun v hv _ => hgives.unique hv ▸ hfits
    have hn : positionOf q = some n :=
      ((records_positionOf_iff q).2 hint n).2 ⟨hgives, hfits⟩
    refine ⟨hlogs.2 hint, fun ev' heffects' => ?_⟩
    rw [heffects, List.cons.injEq, Effect.event.injEq] at heffects'
    rw [← heffects'.1, hposition]
    exact hcarries.2 (by simp [hn])

/-- The page shows the link. -/
theorem pageOutLink_shown (ptr : CatalogPtr) (cache : FeedCache)
    (hid : requestedItem (bytes "/item/") cfg req = some id)
    (hitem : ptr.catalog.find id = some item) (hrenders : RendersItemPage amb) :
    href (pageOutLink cfg item (parseQuery (splitTarget req.target).2)) <:+:
      (dispatch lib cfg amb ptr cache req clientIp).response.body := by
  have hbody : (dispatch lib cfg amb ptr cache req clientIp).response.body =
      itemHtml (itemData cfg item (positionOf (parseQuery (splitTarget req.target).2))) := by
    rw [dispatch_body lib cfg amb ptr cache req clientIp (requestedItem_not_feed (by decide) hid),
      routed_item lib amb hid, handleItem, hitem]
    simp only [hrenders cfg item, Option.map_some, Option.getD_some]
    rfl
  rw [hbody]
  exact (href_outLink_buyLink _).trans (buyLink_itemHtml _)

/-- A redirect records the position that its query gives unless that is an `int64` and
no `int`. An item page keeps it on the way to the partner exactly when it is an `int`. -/
theorem positions_kept_iff (hbase : question ∉ cfg.basePath) (ptr : CatalogPtr)
    (cache : FeedCache) (hitem : ptr.catalog.find id = some item) :
    let q := parseQuery (splitTarget req.target).2
    let reply := dispatch lib cfg amb ptr cache req clientIp
    (requestedItem (bytes "/r/") cfg req = some id →
      (LogsPosition .outbound q reply.effects ↔ ∀ v, q.Gives v → FitsInt64 v → FitsInt v)) ∧
    (requestedItem (bytes "/item/") cfg req = some id →
      (RendersItemPage amb → href (pageOutLink cfg item q) <:+: reply.response.body) ∧
      (KeepsPosition lib cfg item q reply.effects ↔ ∃ n, q.Gives n ∧ FitsInt n)) := by
  intro q reply
  refine ⟨fun hid => ?_, fun hid => ⟨fun hrenders => ?_, ?_⟩⟩
  · obtain ⟨ev, heffects, htype, -, hposition⟩ :=
      @redirect_position lib cfg amb req clientIp item id ptr cache hid hitem
    exact logsPosition_iff heffects htype hposition
  · exact pageOutLink_shown lib amb ptr cache hid hitem hrenders
  · exact keepsPosition_iff lib amb hbase ptr cache hid hitem

/-- The item page of a card in the third place. -/
theorem positions_kept_third :
    KeepsPosition .bare {} { id := 1 } (parseQuery (bytes "p=2"))
      (dispatch .bare {} (.bare 0) { catalog := .ofRows [{ id := 1 }] [] } {}
        { target := bytes "/item/1?p=2" } []).effects :=
  ((@positions_kept_iff .bare {} (.bare 0) { target := bytes "/item/1?p=2" } [] { id := 1 } 1
      (by decide) { catalog := .ofRows [{ id := 1 }] [] } {} rfl).2 (by decide)).2.2
    ⟨2, ⟨bytes "2", by decide, .digits (by decide) (by decide)⟩, by unfold FitsInt; omega⟩

/-- Without a position the page hands on `-1`, and `2^32` is recorded as `0`. -/
theorem positions_not_kept :
    ¬ KeepsPosition .bare {} { id := 1 } (parseQuery [])
        (dispatch .bare {} (.bare 0) { catalog := .ofRows [{ id := 1 }] [] } {}
          { target := bytes "/item/1" } []).effects ∧
      ¬ LogsPosition .outbound (parseQuery (bytes "p=4294967296"))
        (dispatch .bare {} (.bare 0) { catalog := .ofRows [{ id := 1 }] [] } {}
          { target := bytes "/r/1?p=4294967296" } []).effects := by
  constructor
  · intro hkeeps
    have hgiven := (@keepsPosition_iff .bare {} (.bare 0) { target := bytes "/item/1" } []
      { id := 1 } 1 (by decide) { catalog := .ofRows [{ id := 1 }] [] } {} (by decide) rfl).1
      hkeeps
    obtain ⟨n, ⟨text, htext, -⟩, -⟩ := hgiven
    have hnone : parseQuery [] (bytes "p") = none := by decide
    rw [show (splitTarget (bytes "/item/1")).2 = [] by decide, hnone] at htext
    simp at htext
  · intro hlogs
    obtain ⟨ev, heffects, htype, -, hposition⟩ := @redirect_position .bare {} (.bare 0)
      { target := bytes "/r/1?p=4294967296" } [] { id := 1 } 1
      { catalog := .ofRows [{ id := 1 }] [] } {} (by decide) rfl
    have hints := (logsPosition_iff heffects htype hposition).1 hlogs (2 ^ 32)
      ⟨bytes "4294967296", by decide, .digits (by decide) (by decide)⟩
      (by unfold FitsInt64; omega)
    unfold FitsInt at hints
    omega

end SSize
