import SSize.Lib.Collected
import SSize.Lib.Timers
import SSize.Server.Listing
import SSize.Static.App

/-!
# What a page reports

The map of timers and the browser's list of them say the same, a running timer was set
by a visible card that has not left since, and what has been seen is what has been
reported: the queue is never full on a page of so few cards.
-/

namespace SSize.App

open Lib

variable {El : Type*}

/-! ## Callbacks -/

/-- The callback tells that the element is not visible. -/
def Callback.Leaves (callback : Callback El) (el : El) : Prop :=
  match callback with
  | .intersection entry _ => entry.target = el ∧ entry.visible = false
  | _ => False

/-- The callbacks that ran, each with the page that it found. -/
abbrev Calls (El : Type*) := List (Page El × Callback El)

/-- The element of the dwell timer that fired. -/
def firedBy : Page El × Callback El → Option El
  | (page, .dwell handle) => page.running.lookup handle
  | _ => none

def fired (calls : Calls El) : List El := calls.filterMap firedBy

theorem fired_snoc (calls : Calls El) (call : Page El × Callback El) :
    fired (calls ++ [call]) = fired calls ++ (firedBy call).toList := by
  rw [fired, List.filterMap_append, fired]
  congr 1

theorem fired_quiet (calls : Calls El) {call : Page El × Callback El} (h : firedBy call = none) :
    fired (calls ++ [call]) = fired calls := by
  rw [fired_snoc, h, Option.toList_none, List.append_nil]

/-- A visible `el` set the timer, which has been running since, and `el` has not left. -/
def DwellsSince (calls : Calls El) (handle : Nat) (el : El) : Prop :=
  ∃ earlier found entry since,
    calls = earlier ++ (found, .intersection entry handle) :: since ∧
    entry.target = el ∧ entry.visible = true ∧ found.timers el = none ∧
    ∀ call ∈ since, (handle, el) ∈ call.1.running ∧ ¬ call.2.Leaves el

theorem DwellsSince.snoc {calls : Calls El} {handle : Nat} {el : El} {page : Page El}
    {callback : Callback El} (h : DwellsSince calls handle el)
    (hrunning : (handle, el) ∈ page.running) (hstays : ¬ callback.Leaves el) :
    DwellsSince (calls ++ [(page, callback)]) handle el := by
  obtain ⟨earlier, found, entry, since, hcalls, htarget, hvisible, hnone, hsince⟩ := h
  refine ⟨earlier, found, entry, since ++ [(page, callback)], ?_, htarget, hvisible, hnone, ?_⟩
  · rw [hcalls, List.append_assoc, List.cons_append]
  · intro call hcall
    rcases List.mem_append.1 hcall with hbefore | hlast
    · exact hsince call hbefore
    · rw [List.mem_singleton.1 hlast]
      exact ⟨hrunning, hstays⟩

namespace Page

/-! ## What the functions leave alone -/

section Frame

variable (dataset : El → Dataset) (sendBeacon : Bool) (page : Page El)

@[simp] theorem enqueue_timers (el : El) : (page.enqueue dataset el).timers = page.timers := by
  simp only [enqueue]
  split_ifs <;> rfl

@[simp] theorem enqueue_running (el : El) :
    (page.enqueue dataset el).running = page.running := by
  simp only [enqueue]
  split_ifs <;> rfl

@[simp] theorem flush_timers (useBeacon : Bool) :
    (page.flush sendBeacon useBeacon).timers = page.timers := by
  unfold flush
  split_ifs <;> rfl

@[simp] theorem flush_running (useBeacon : Bool) :
    (page.flush sendBeacon useBeacon).running = page.running := by
  unfold flush
  split_ifs <;> rfl

@[simp] theorem flush_seen (useBeacon : Bool) :
    (page.flush sendBeacon useBeacon).seen = page.seen := by
  unfold flush
  split_ifs <;> rfl

/-- A flush hands the queue over and reports nothing new. -/
theorem flush_reported (useBeacon : Bool) :
    (page.flush sendBeacon useBeacon).reported = page.reported := by
  by_cases hempty : page.queue.isEmpty = true
  · rw [flush, if_pos hempty]
  · rw [flush, if_neg hempty]
    simp [reported]

end Frame

variable {dataset : El → Dataset} {sendBeacon : Bool} {page page' : Page El}
variable {callback : Callback El}

/-! ## Seen and reported -/

theorem enqueue_skip {el : El}
    (h : truthy (parseInt (dataset el).item) = true → parseInt (dataset el).item ∈ page.seen) :
    page.enqueue dataset el = page := by
  simp only [enqueue]
  rw [if_pos]
  cases htrue : truthy (parseInt (dataset el).item) with
  | true => simpa using h htrue
  | false => rfl

theorem enqueue_new {el : El} (htrue : truthy (parseInt (dataset el).item) = true)
    (hnew : parseInt (dataset el).item ∉ page.seen) (hroom : page.queue.length < maxBatch) :
    page.enqueue dataset el =
      { page with
        seen := page.seen ++ [parseInt (dataset el).item]
        queue := page.queue ++ [(dataset el).impression (parseInt (dataset el).item)] } := by
  simp only [enqueue]
  rw [if_neg (by simpa [htrue] using hnew), if_neg (by omega)]

/-- The numbers of the elements whose timers have fired have been seen, each once, and
all that has been seen has been reported. -/
structure Counted (dataset : El → Dataset) (els : List El) (page : Page El) : Prop where
  collected : Collected (truthy · = true) (fun el => parseInt (dataset el).item) els page.seen
  reported : page.reported.map Impression.item = page.seen

theorem Counted.length_queue_le {els : List El} (h : Counted dataset els page) :
    page.queue.length ≤ page.seen.length := by
  calc page.queue.length ≤ page.reported.length := by
        rw [Page.reported, List.length_append]
        exact Nat.le_add_left _ _
    _ = page.seen.length := by rw [← h.reported, List.length_map]

/-- Only what has been seen and reported counts. -/
theorem Counted.congr {els : List El} (h : Counted dataset els page)
    (hseen : page'.seen = page.seen) (hreported : page'.reported = page.reported) :
    Counted dataset els page' := by
  refine ⟨?_, ?_⟩
  · rw [hseen]
    exact h.collected
  · rw [hseen, hreported]
    exact h.reported

theorem Counted.enqueue [Fintype El] (hcard : Fintype.card El ≤ maxBatch) {els : List El}
    (h : Counted dataset els page) (el : El) :
    Counted dataset (els ++ [el]) (page.enqueue dataset el) := by
  by_cases hskip : truthy (parseInt (dataset el).item) = true →
      parseInt (dataset el).item ∈ page.seen
  · rw [enqueue_skip hskip]
    exact ⟨h.collected.skip hskip, h.reported⟩
  · rw [Classical.not_imp] at hskip
    obtain ⟨htrue, hnew⟩ := hskip
    have hroom : page.queue.length < maxBatch := by
      have hqueue := h.length_queue_le
      have hseen := h.collected.length_lt hnew
      omega
    rw [enqueue_new htrue hnew hroom]
    refine ⟨h.collected.add htrue hnew, ?_⟩
    have hreported := h.reported
    rw [Page.reported, List.map_append] at hreported
    simp only [Page.reported, List.map_append, List.map_cons, List.map_nil]
    rw [← List.append_assoc, hreported]
    rfl

/-! ## The invariant -/

/-- The invariant of the callbacks so far and the page that they left behind. -/
structure Tracked (dataset : El → Dataset) (calls : Calls El) (page : Page El) : Prop where
  timed : Timed page.timers page.running
  dwells : ∀ handle el, (handle, el) ∈ page.running → DwellsSince calls handle el
  counted : Counted dataset (fired calls) page

theorem tracked_start (dataset : El → Dataset) (elements : List El) :
    Tracked dataset [] (start elements) where
  timed := Timed.start
  dwells _ _ h := absurd h List.not_mem_nil
  counted := ⟨Collected.start, rfl⟩

/-- A running timer runs on through a callback that is no leaving of its element. -/
theorem Tracked.dwells_snoc {calls : Calls El} (h : Tracked dataset calls page)
    (hleaves : ∀ el, callback.Leaves el → page.timers el = none) {handle : Nat} {el : El}
    (hmem : (handle, el) ∈ page.running) :
    DwellsSince (calls ++ [(page, callback)]) handle el :=
  (h.dwells handle el hmem).snoc hmem fun hleft =>
    h.timed.not_running (hleaves el hleft) hmem

/-! ## What one callback does -/

variable [DecidableEq El]

/-- The moves of a page. The last two set no timer, fire none and clear none. -/
inductive Move (dataset : El → Dataset) (sendBeacon : Bool) (page : Page El) :
    Callback El → Page El → Prop
  | set (entry : IntersectionEntry El) (handle : Nat) (hvisible : entry.visible = true)
      (hnone : page.timers entry.target = none) (hfree : page.Free handle) :
      Move dataset sendBeacon page (.intersection entry handle)
        (page.setTimer entry.target handle)
  | clear (entry : IntersectionEntry El) (handle t : Nat)
      (htimer : page.timers entry.target = some t) :
      Move dataset sendBeacon page (.intersection entry handle) (page.clearTimer entry.target t)
  | fire (handle : Nat) (el : El) (hrunning : page.running.lookup handle = some el) :
      Move dataset sendBeacon page (.dwell handle) (page.dwelled dataset handle el)
  | flush (callback : Callback El) (useBeacon : Bool) (hfired : firedBy (page, callback) = none)
      (hleaves : ∀ el, callback.Leaves el → page.timers el = none) :
      Move dataset sendBeacon page callback (page.flush sendBeacon useBeacon)
  | stay (callback : Callback El) (hfired : firedBy (page, callback) = none)
      (hleaves : ∀ el, callback.Leaves el → page.timers el = none) :
      Move dataset sendBeacon page callback page

theorem observe_move {entry : IntersectionEntry El} {handle : Nat}
    (htimed : Timed page.timers page.running) (h : page.observe entry handle = some page') :
    Move dataset sendBeacon page (.intersection entry handle) page' := by
  cases hvisible : entry.visible with
  | true =>
      have hstays : ∀ el, (Callback.intersection entry handle).Leaves el →
          page.timers el = none := by
        intro el hleaves
        exact absurd (hvisible.symm.trans hleaves.2) (by decide)
      cases htimer : page.timers entry.target with
      | some t =>
          simp only [observe, hvisible, htimer, Option.isSome_some, if_true,
            Option.some.injEq] at h
          exact h ▸ .stay _ rfl hstays
      | none =>
          by_cases hfree : page.Free handle
          · simp [observe, hvisible, htimer, hfree] at h
            exact h ▸ .set entry handle hvisible htimer hfree
          · simp [observe, hvisible, htimer, hfree] at h
  | false =>
      cases htimer : page.timers entry.target with
      | some t =>
          have hpositive := htimed.positive t _ ((htimed.timer_iff _ t).1 htimer)
          have ht : t ≠ 0 := by omega
          simp [observe, hvisible, htimer, ht] at h
          exact h ▸ .clear entry handle t htimer
      | none =>
          simp [observe, hvisible, htimer] at h
          refine h ▸ .stay _ rfl fun el hleaves => ?_
          exact hleaves.1 ▸ htimer

theorem step_move (htimed : Timed page.timers page.running)
    (h : page.step dataset sendBeacon callback = some page') :
    Move dataset sendBeacon page callback page' := by
  cases callback with
  | intersection entry handle => exact observe_move htimed h
  | dwell handle =>
      obtain ⟨el, hrunning, rfl⟩ := Option.map_eq_some_iff.1 h
      exact .fire handle el hrunning
  | interval =>
      cases h
      exact .flush _ false rfl fun el hleaves => hleaves.elim
  | pagehide =>
      cases h
      exact .flush _ true rfl fun el hleaves => hleaves.elim
  | visibilitychange hidden =>
      cases hidden with
      | true =>
          cases h
          exact .flush _ true rfl fun el hleaves => hleaves.elim
      | false =>
          cases h
          exact .stay _ rfl fun el hleaves => hleaves.elim

/-! ## Runs -/

theorem Tracked.set {calls : Calls El} (h : Tracked dataset calls page)
    {entry : IntersectionEntry El} {handle : Nat} (hvisible : entry.visible = true)
    (hnone : page.timers entry.target = none) (hfree : page.Free handle) :
    Tracked dataset (calls ++ [(page, .intersection entry handle)])
      (page.setTimer entry.target handle) := by
  refine ⟨h.timed.set hnone hfree.1 hfree.2, fun handle' el hmem => ?_, ?_⟩
  · rcases List.mem_cons.1 hmem with heq | hmem
    · rw [Prod.mk.injEq] at heq
      obtain ⟨rfl, rfl⟩ := heq
      exact ⟨calls, page, entry, [], rfl, rfl, hvisible, hnone,
        fun call hcall => absurd hcall List.not_mem_nil⟩
    · refine h.dwells_snoc (fun el hleaves => ?_) hmem
      exact absurd (hvisible.symm.trans hleaves.2) (by decide)
  · rw [fired_quiet calls rfl]
    exact h.counted.congr rfl rfl

theorem Tracked.clear {calls : Calls El} (h : Tracked dataset calls page)
    {entry : IntersectionEntry El} {t : Nat} (handle : Nat)
    (htimer : page.timers entry.target = some t) :
    Tracked dataset (calls ++ [(page, .intersection entry handle)])
      (page.clearTimer entry.target t) := by
  have hrunning := (h.timed.timer_iff entry.target t).1 htimer
  refine ⟨h.timed.remove hrunning, fun handle' el hmem => ?_, ?_⟩
  · obtain ⟨hmem, hne⟩ := List.mem_filter.1 hmem
    refine (h.dwells handle' el hmem).snoc hmem fun hleaves => ?_
    have hsame : handle' = t := h.timed.handle_eq htimer (hleaves.1 ▸ hmem)
    simp [hsame] at hne
  · rw [fired_quiet calls rfl]
    exact h.counted.congr rfl rfl

theorem Tracked.fire [Fintype El] (hcard : Fintype.card El ≤ maxBatch) {calls : Calls El}
    (h : Tracked dataset calls page) {handle : Nat} {el : El}
    (hrunning : page.running.lookup handle = some el) :
    Tracked dataset (calls ++ [(page, .dwell handle)]) (page.dwelled dataset handle el) := by
  refine ⟨?_, fun handle' el' hmem => ?_, ?_⟩
  · simpa [dwelled] using h.timed.remove (Timed.mem_of_lookup hrunning)
  · simp only [dwelled, enqueue_running] at hmem
    have hstays : ∀ el, (Callback.dwell handle).Leaves el → page.timers el = none :=
      fun el hleaves => hleaves.elim
    exact h.dwells_snoc hstays (List.mem_filter.1 hmem).1
  · have hsame : Counted dataset (fired calls) { page with
        running := page.running.filter fun timer => timer.1 != handle } :=
      h.counted.congr rfl rfl
    have hfired : firedBy (page, .dwell handle) = some el := hrunning
    rw [fired_snoc, hfired]
    exact (hsame.enqueue hcard el).congr rfl rfl

theorem Tracked.step [Fintype El] (hcard : Fintype.card El ≤ maxBatch) {calls : Calls El}
    (h : Tracked dataset calls page) (hstep : page.step dataset sendBeacon callback = some page') :
    Tracked dataset (calls ++ [(page, callback)]) page' := by
  cases step_move h.timed hstep with
  | set entry handle hvisible hnone hfree => exact h.set hvisible hnone hfree
  | clear entry handle t htimer => exact h.clear handle htimer
  | fire handle el hrunning => exact h.fire hcard hrunning
  | flush _ useBeacon hfired hleaves =>
      refine ⟨by simpa using h.timed, fun handle el hmem => ?_, ?_⟩
      · rw [flush_running] at hmem
        exact h.dwells_snoc hleaves hmem
      · rw [fired_quiet calls hfired]
        exact h.counted.congr (flush_seen sendBeacon page useBeacon)
          (flush_reported sendBeacon page useBeacon)
  | stay _ hfired hleaves =>
      refine ⟨h.timed, fun handle el hmem => h.dwells_snoc hleaves hmem, ?_⟩
      rw [fired_quiet calls hfired]
      exact h.counted

theorem tracked_run [Fintype El] (hcard : Fintype.card El ≤ maxBatch) {elements : List El}
    {callbacks : List (Callback El)}
    (hrun : Runs.exec (step dataset sendBeacon) (start elements) callbacks = some page) :
    Tracked dataset (Runs.trace (step dataset sendBeacon) (start elements) callbacks) page := by
  have hend : Tracked dataset
      ([] ++ Runs.trace (step dataset sendBeacon) (start elements) callbacks) page :=
    Runs.exec_trace_invariant (fun _ _ _ _ _ h _ hstep => h.step hcard hstep)
      (tracked_start dataset elements) rfl hrun
  rwa [List.nil_append] at hend

end Page

/-! ## Cards -/

/-- A card of `feed.html`. -/
structure Card where
  id : Int
  position : Int

def Card.dataset (card : Card) : Dataset where
  item := toText card.id
  pos := toText card.position
  surface := bytes "feed"

/-- The attributes as they stand in a tag. -/
def Dataset.attributes (data : Dataset) : Text :=
  bytes "data-item=\"" ++ data.item ++ bytes "\" data-pos=\"" ++ data.pos ++
    bytes "\" data-surface=\"" ++ data.surface ++ bytes "\""

/-- The cards that `handle_feed` has rendered. -/
def feedCards (catalog : Catalog) (tag size : Text) : List Card :=
  (catalog.query tag size 0 120).zipIdx.map fun (item, i) => ⟨item.id, i⟩

theorem length_feedCards_le (catalog : Catalog) (tag size : Text) :
    (feedCards catalog tag size).length ≤ 120 := by
  rw [feedCards, List.length_map, List.length_zipIdx, Catalog.query_eq, List.length_take]
  exact min_le_left _ _

theorem attributes_card (cfg : Config) (item : Item) (position : Int) :
    (Card.mk item.id position).dataset.attributes <:+: card (itemToJson cfg item position) := by
  have hopening : bytes "    <article class=\"card\" data-item=\"" =
      bytes "    <article class=\"card\" " ++ bytes "data-item=\"" := by decide
  have hclosing : bytes "\" data-surface=\"feed\">\n      <a class=\"card-media\" href=\"" =
      bytes "\" data-surface=\"" ++ bytes "feed" ++ bytes "\"" ++
        bytes ">\n      <a class=\"card-media\" href=\"" := by decide
  have hid : ((itemToJson cfg item position).field "id").print = toText item.id := rfl
  have hposition : ((itemToJson cfg item position).field "position").print = toText position := by
    unfold itemToJson
    cases item.oldPriceKopek <;> rfl
  unfold card Dataset.attributes Card.dataset
  simp only [hopening, hclosing, hid, hposition, List.append_assoc]
  refine List.infix_append_of_infix_right (List.IsPrefix.isInfix ?_)
  simp only [List.prefix_append_right_inj]
  exact List.prefix_append _ _

/-- Every card of the feed is on the page. -/
theorem attributes_feedHtml {cfg : Config} {catalog : Catalog} {tag size : Text} {shown : Card}
    (h : shown ∈ feedCards catalog tag size) (query : Text) :
    shown.dataset.attributes <:+: feedHtml (feedData cfg catalog tag size query) := by
  obtain ⟨⟨item, i⟩, hmem, rfl⟩ := List.mem_map.1 h
  have hcard := List.mk_mem_zipIdx_iff_getElem?.1 hmem
  exact (attributes_card cfg item i).trans (card_feedHtml hcard)

theorem not_isSpace_of_isDigit {c : UInt8} (h : isDigit c = true) : isSpace c = false := by
  have hall : ∀ c : UInt8, isDigit c = true → isSpace c = false := by decide +kernel
  exact hall c h

/-- A positive id is read as the nearest number. -/
theorem parseInt_toText {id : Int} (h : 0 < id) : parseInt (toText id) = .ofRat id := by
  have habs : (id.natAbs : Int) = id := by omega
  have hdigits : ∀ c ∈ digitsOf id.natAbs, isDigit c = true :=
    fun c hc => isDigit_of_mem_digitsOf hc
  have hhead : ∀ c ∈ (digitsOf id.natAbs).head?, isDigit c = true :=
    fun c hc => hdigits c (List.mem_of_mem_head? hc)
  have hspace : (digitsOf id.natAbs).dropWhile isSpace = digitsOf id.natAbs :=
    @dropWhile_append_of_head _ isSpace [] _ (by simp) fun c hc =>
      not_isSpace_of_isDigit (hhead c hc)
  have hsign : takeSign (digitsOf id.natAbs) = (false, digitsOf id.natAbs) :=
    takeSign_append .none fun c hc => not_sign_of_isDigit (hhead c hc)
  have htake : (digitsOf id.natAbs).takeWhile isDigit = digitsOf id.natAbs :=
    List.takeWhile_eq_self_iff.2 hdigits
  rw [toText_of_nonneg h.le, parseInt, hspace, hsign]
  simp only [htake, (all_digitsOf id.natAbs).1, digitsValue_digitsOf, habs]
  rfl

section Cards

variable (cards : List Card)

/-- The elements of a page of cards. -/
abbrev Element := Fin cards.length

def cardDataset (el : Element cards) : Dataset := (cards.get el).dataset

/-- The page of the cards once the script has run. -/
def opened : Page (Element cards) := .start (List.finRange cards.length)

/-- The items whose dwell timers have fired. -/
def firedItems (calls : Calls (Element cards)) : List Int :=
  (fired calls).map fun el => (cards.get el).id

/-- In every run an item is reported once if its timer has fired and else never, and a
timer fires for a card that has not left since it set the timer. -/
def ReportsOnce (sendBeacon : Bool) : Prop :=
  ∀ callbacks page,
    Runs.exec (Page.step (cardDataset cards) sendBeacon) (opened cards) callbacks = some page →
    let calls := Runs.trace (Page.step (cardDataset cards) sendBeacon) (opened cards) callbacks
    (∀ id : Int, (page.reported.map Impression.item).count (.finite id) =
      if id ∈ firedItems cards calls then 1 else 0) ∧
    ∀ handle page', page.step (cardDataset cards) sendBeacon (.dwell handle) = some page' →
      ∃ el, firedBy (page, .dwell handle) = some el ∧ DwellsSince calls handle el

variable {cards} {sendBeacon : Bool}

/-- The numbers that have been reported are those of the fired cards. -/
theorem count_reported {callbacks : List (Callback (Element cards))} {page : Page (Element cards)}
    (hlength : cards.length ≤ 120)
    (hrun : Runs.exec (Page.step (cardDataset cards) sendBeacon) (opened cards) callbacks =
      some page) (v : Binary64) :
    (page.reported.map Impression.item).count v =
      if truthy v = true ∧ ∃ el ∈ fired (Runs.trace (Page.step (cardDataset cards) sendBeacon)
        (opened cards) callbacks), parseInt (cardDataset cards el).item = v then 1 else 0 := by
  have hcard : Fintype.card (Element cards) ≤ maxBatch := by
    rw [Fintype.card_fin, maxBatch]
    omega
  have hcounted := (Page.tracked_run hcard hrun).counted
  rw [hcounted.reported, hcounted.collected.nodup.count]
  simp only [hcounted.collected.mem_iff]
  rfl

theorem dwells_of_fires {callbacks : List (Callback (Element cards))}
    {page page' : Page (Element cards)} {handle : Nat} (hlength : cards.length ≤ 120)
    (hrun : Runs.exec (Page.step (cardDataset cards) sendBeacon) (opened cards) callbacks =
      some page)
    (hfires : page.step (cardDataset cards) sendBeacon (.dwell handle) = some page') :
    ∃ el, firedBy (page, .dwell handle) = some el ∧
      DwellsSince (Runs.trace (Page.step (cardDataset cards) sendBeacon) (opened cards) callbacks)
        handle el := by
  have hcard : Fintype.card (Element cards) ≤ maxBatch := by
    rw [Fintype.card_fin, maxBatch]
    omega
  obtain ⟨el, hrunning, -⟩ := Option.map_eq_some_iff.1 hfires
  exact ⟨el, hrunning,
    (Page.tracked_run hcard hrun).dwells handle el (Timed.mem_of_lookup hrunning)⟩

/-- The shortest run that reports a card. -/
theorem fires_alone (el : Element cards) :
    ∃ page, Runs.exec (Page.step (cardDataset cards) sendBeacon) (opened cards)
        [.intersection ⟨el, true, 1⟩ 1, .dwell 1] = some page ∧
      fired (Runs.trace (Page.step (cardDataset cards) sendBeacon) (opened cards)
        [.intersection ⟨el, true, 1⟩ 1, .dwell 1]) = [el] := by
  have hset : (opened cards).step (cardDataset cards) sendBeacon (.intersection ⟨el, true, 1⟩ 1) =
      some ((opened cards).setTimer el 1) := by
    have hvisible : (IntersectionEntry.mk el true 1).visible = true := by
      simp only [IntersectionEntry.visible, visibleRatio, Bool.true_and]
      norm_num
    have hfree : (opened cards).Free 1 := ⟨by omega, rfl⟩
    have hnone : (opened cards).timers el = none := rfl
    simp [Page.step, Page.observe, hvisible, hfree, hnone]
  have hfire : ((opened cards).setTimer el 1).step (cardDataset cards) sendBeacon (.dwell 1) =
      some (((opened cards).setTimer el 1).dwelled (cardDataset cards) 1 el) := rfl
  refine ⟨((opened cards).setTimer el 1).dwelled (cardDataset cards) 1 el, ?_, ?_⟩
  · exact Runs.exec_cons_eq_some.2 ⟨_, hset, Runs.exec_cons_eq_some.2 ⟨_, hfire, rfl⟩⟩
  · rw [Runs.trace_cons hset, Runs.trace_cons hfire]
    rfl

theorem item_eq_iff {el : Element cards} (hid : 0 < (cards.get el).id)
    (hfits : FitsInt64 (cards.get el).id) :
    parseInt (cardDataset cards el).item = .finite (cards.get el).id ↔
      IsExact (cards.get el).id := by
  have hbound : |(cards.get el).id| < 2 ^ 63 := by
    rw [abs_of_pos hid]
    exact hfits.2
  rw [← Binary64.ofRat_intCast_iff (by omega : 63 ≤ 970) hbound]
  exact Eq.congr_left (parseInt_toText hid)

theorem ReportsOnce.isExact (honce : ReportsOnce cards sendBeacon) (hlength : cards.length ≤ 120)
    (el : Element cards) (hid : 0 < (cards.get el).id) (hfits : FitsInt64 (cards.get el).id) :
    IsExact (cards.get el).id := by
  obtain ⟨page, hrun, hfired⟩ := @fires_alone cards sendBeacon el
  have hmem : (cards.get el).id ∈ firedItems cards (Runs.trace
      (Page.step (cardDataset cards) sendBeacon) (opened cards)
      [.intersection ⟨el, true, 1⟩ 1, .dwell 1]) := by
    rw [firedItems, hfired]
    exact List.mem_cons_self
  have hone := (honce _ page hrun).1 (cards.get el).id
  rw [count_reported hlength hrun, hfired, if_pos hmem] at hone
  apply (item_eq_iff hid hfits).1
  by_contra hother
  rw [if_neg fun h => ?_] at hone
  · omega
  · obtain ⟨-, el', hel', heq⟩ := h
    exact hother (List.mem_singleton.1 hel' ▸ heq)

end Cards

end SSize.App
