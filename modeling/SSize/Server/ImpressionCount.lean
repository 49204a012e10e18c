import SSize.Server.Beacons
import SSize.Server.ClickCount
import Mathlib.Algebra.GroupWithZero.Nat

/-!
# The impressions of a day

A beacon logs one impression for each element of its batch, stamped when it was read. So
once the day is settled, `impressions` is the number of elements that named the item in
the beacons of that day, bots apart.
-/

namespace SSize

open Lib

/-- The request is one of the pages' reports. -/
def asksBeacon (cfg : Config) (req : HttpRequest) : Prop :=
  req.method = .post ∧ pathOf cfg req = bytes "/api/ev"

instance (cfg : Config) (req : HttpRequest) : Decidable (asksBeacon cfg req) :=
  inferInstanceAs (Decidable (_ ∧ _))

/-- The element with this number names the item, and is read on that day. -/
def namesOn (clock : Nat → TsMs) (day item : Int) (e : Json × Nat) : Bool :=
  (e.1.integer? (bytes "item")).map castInt64 == some item && dayOf (clock e.2) == day

/-- The elements of a body that count. -/
def batchIn (lib : Library) (body : Text) : List Json :=
  match lib.parseJson body with
  | some (.array elements) => batchOf elements
  | _ => []

/-- How often the step reports the item on that day. -/
def Server.reporting (lib : Library) (day item : Int) (s : Server) : ServerAct → Nat
  | .request amb req _ =>
      if asksBeacon s.cfg req ∧ classifyUa req.userAgent ≠ bytes "bot" then
        (batchIn lib req.body).zipIdx.countP (namesOn amb.clock day item)
      else 0
  | _ => 0

/-! ## One beacon -/

variable (lib : Library) (cfg : Config) (amb : Ambient) (day item : Int)

theorem countP_logged_impression (visit : Visit) (accepted : Nat) {e : Json} {ev : Event}
    (h : impressionOf e = some ev) :
    (eventsOf [logEvent lib cfg visit (amb.clock accepted) ev]).countP
        (Event.countsFor .impression day item) =
      if classifyUa visit.userAgent ≠ bytes "bot" ∧
        namesOn amb.clock day item (e, accepted) = true then 1 else 0 := by
  have hlogged := loggedAs_of_impressionOf lib cfg visit h (amb.clock accepted) rfl
  obtain ⟨n, hn, hitem⟩ := hlogged.item
  have htype := (impressionOf_type h).1
  have hid : ev.itemId = some (castInt64 n) := hitem
  rw [countP_click lib cfg visit _ hid]
  congr 1
  simp only [namesOn, hn, Option.map_some, htype, true_and, Bool.and_eq_true, beq_iff_eq,
    Option.some.injEq, eq_iff_iff]
  exact ⟨fun h => ⟨h.2.2, h.1, h.2.1⟩, fun h => ⟨h.2.1, h.2.2, h.1⟩⟩

/-- The number of an element is how many were accepted before it. -/
theorem countP_logImpressions (visit : Visit) (accepted : Nat) (elements : List Json) :
    (eventsOf (logImpressions lib cfg amb visit accepted elements)).countP
        (Event.countsFor .impression day item) =
      if classifyUa visit.userAgent ≠ bytes "bot" then
        (((elements.filter Json.reports).take (kMaxBatch - accepted)).zipIdx accepted).countP
          (namesOn amb.clock day item)
      else 0 := by
  induction elements generalizing accepted with
  | nil => simp [logImpressions, eventsOf]
  | cons e rest ih =>
      rw [logImpressions]
      split
      · next hcap =>
          have hnone : kMaxBatch - accepted = 0 := by omega
          simp [hnone, eventsOf]
      · next hcap =>
          have hone : kMaxBatch - accepted = (kMaxBatch - (accepted + 1)) + 1 := by omega
          split
          · next hskip =>
              rw [List.filter_cons_of_neg (by simp [(impressionOf_eq_none_iff e).1 hskip])]
              exact ih accepted
          · next ev hev =>
              have hreports : e.reports = true := by
                rw [← Bool.not_eq_false, ← impressionOf_eq_none_iff, hev]
                simp
              have hsplit : eventsOf (logEvent lib cfg visit (amb.clock accepted) ev ::
                  logImpressions lib cfg amb visit (accepted + 1) rest) =
                  eventsOf [logEvent lib cfg visit (amb.clock accepted) ev] ++
                    eventsOf (logImpressions lib cfg amb visit (accepted + 1) rest) := rfl
              rw [List.filter_cons_of_pos hreports, hone, List.take_succ_cons, hsplit,
                List.countP_append, countP_logged_impression lib cfg amb day item visit accepted hev,
                ih (accepted + 1), List.zipIdx_cons, List.countP_cons]
              by_cases hbot : classifyUa visit.userAgent = bytes "bot"
              · simp [hbot]
              · simp only [ne_eq, hbot, not_false_eq_true, true_and, if_true]
                omega

/-- The body is read as a batch or not at all. -/
theorem handleBeacon_cases (visit : Visit) (body : Text) :
    (∃ elements, batchIn lib body = batchOf elements ∧
        (handleBeacon lib cfg amb visit body).effects =
          logImpressions lib cfg amb visit 0 elements) ∨
      (batchIn lib body = [] ∧ (handleBeacon lib cfg amb visit body).effects = []) := by
  unfold handleBeacon batchIn
  cases lib.parseJson body with
  | none => exact Or.inr ⟨rfl, rfl⟩
  | some value =>
      cases value with
      | array elements => exact Or.inl ⟨elements, rfl, rfl⟩
      | _ => exact Or.inr ⟨rfl, rfl⟩

theorem countP_handleBeacon (visit : Visit) (body : Text) :
    (eventsOf (handleBeacon lib cfg amb visit body).effects).countP
        (Event.countsFor .impression day item) =
      if classifyUa visit.userAgent ≠ bytes "bot" then
        (batchIn lib body).zipIdx.countP (namesOn amb.clock day item)
      else 0 := by
  obtain ⟨elements, hbatch, heffects⟩ | ⟨hbatch, heffects⟩ :=
    handleBeacon_cases lib cfg amb visit body
  · rw [hbatch, heffects]
    exact countP_logImpressions lib cfg amb day item visit 0 elements
  · simp [hbatch, heffects, eventsOf]

/-! ## Any request -/

variable {cfg} {catalog : Catalog} {req : HttpRequest} {clientIp : Text}

theorem routed_beacon (h : asksBeacon cfg req) :
    routed lib cfg amb catalog req clientIp =
      handleBeacon lib cfg amb (visitOf amb req clientIp) req.body := by
  simp [routed, route, h.1, h.2]

/-- No other request logs an impression. -/
theorem routed_not_impression (h : ¬ asksBeacon cfg req) :
    ∀ ev ∈ eventsOf (routed lib cfg amb catalog req clientIp).effects, ev.type ≠ .impression := by
  unfold routed route
  split
  · split
    · unfold handleItem
      split
      · simp [Outcome.answer, eventsOf]
      · simp [eventsOf, Effect.event?, logEvent]
    · simp [Outcome.answer, eventsOf]
  split
  · split
    · unfold handleRedirect
      split
      · simp [Outcome.answer, eventsOf]
      · simp [eventsOf, Effect.event?, logEvent]
    · simp [Outcome.answer, eventsOf]
  split
  · simp [Outcome.answer, eventsOf]
  split
  · simp [Outcome.answer, eventsOf]
  split
  · next hbeacon => exact absurd hbeacon h
  split
  · simp [eventsOf, Effect.event?]
  split <;> simp [Outcome.answer, eventsOf]

theorem countP_logging_impression (s : Server) (a : ServerAct) :
    (s.logging lib a).countP (Event.countsFor .impression day item) =
      s.reporting lib day item a := by
  cases a with
  | request amb req peer =>
      have heffects := dispatch_effects_eq lib s.cfg amb s.catalog s.cache req
        (clientAddress req peer)
      rw [Server.logging, Server.reply, heffects, Server.reporting]
      by_cases hbeacon : asksBeacon s.cfg req
      · have hfeed : ¬ (req.method = .get ∧ pathOf s.cfg req = bytes "/") := by
          simp [hbeacon.1]
        rw [if_neg hfeed, routed_beacon lib amb hbeacon, countP_handleBeacon]
        by_cases hbot : classifyUa req.userAgent = bytes "bot"
        · simp [hbot, visitOf]
        · simp [hbot, hbeacon, visitOf]
      · have hother : ¬ (asksBeacon s.cfg req ∧ classifyUa req.userAgent ≠ bytes "bot") :=
          fun hboth => hbeacon hboth.1
        rw [if_neg hother]
        apply countP_countsFor_eq_zero
        split
        · simp [eventsOf]
        · exact routed_not_impression lib amb hbeacon
  | _ => rfl

/-! ## The count -/

variable {lib day}

theorem countP_logged_sum (type : EventType) (tr : Steps) :
    (tr.logged lib).countP (Event.countsFor type day item) =
      (tr.map fun e => (e.1.logging lib e.2).countP (Event.countsFor type day item)).sum := by
  rw [Steps.logged, List.countP_flatMap]
  rfl

theorem Settled.impressions {tr : Steps} {t : Server} (hs : Settled lib day tr t) :
    (statsOn t.pipeline.db.dailyItemStats day item).impressions =
      (tr.map fun e => e.1.reporting lib day item e.2).sum := by
  rw [hs.final item, recount, hs.counts item .impression, countP_logged_sum]
  simp only [countP_logging_impression]

/-- A batch that names item 7, from a visitor and from a bot, both flushed on the next day. -/
def dayOfViews : List ServerAct :=
  [.request (visitorAt 1000)
      { method := .post, target := bytes "/api/ev", userAgent := bytes "Mozilla/5.0" }
      (bytes "10.0.0.1"),
    .push,
    .request (visitorAt 2000)
      { method := .post, target := bytes "/api/ev", userAgent := bytes "curl/8.5" }
      (bytes "10.0.0.2"),
    .push] ++
  List.replicate 6 (.worker firstTick)

/-- A worker's round up to the maintenance of the day after next. -/
def roundAfter : List ServerAct :=
  List.replicate 8 (.worker { steady := 7200000, now := 180000000 })

theorem visitors_dayOfViews {amb : Ambient} {req : HttpRequest} {peer : Text}
    (h : .request amb req peer ∈ dayOfViews ++ .worker firstTick :: roundAfter) :
    ∃ now, amb = visitorAt now := by
  simp only [dayOfViews, roundAfter, List.mem_append, List.mem_cons, List.not_mem_nil,
    List.mem_replicate, ServerAct.request.injEq, reduceCtorEq, false_or, or_false,
    and_false] at h
  rcases h with h | h
  · exact ⟨_, h.1⟩
  · exact ⟨_, h.1⟩

theorem ordinary_dayOfViews : Ordinary (dayOfViews ++ .worker firstTick :: roundAfter) := by
  constructor
  · intro cfg started hmem
    simp [dayOfViews, roundAfter] at hmem
  · intro amb req peer hmem cfg item position
    obtain ⟨now, rfl⟩ := visitors_dayOfViews hmem
    rfl
  · simp [dayOfViews, roundAfter, ServerAct.NotBack, firstTick, visitorAt, Ambient.bare]

end SSize
