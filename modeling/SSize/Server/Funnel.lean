import SSize.Db.Stats
import SSize.Server.ImpressionCount

/-!
# The funnel as a plain count of visits

What `ssize-admin stats` prints for a type of event, told from the requests that the server
answered: how many of them there were in the window, and how many visitors they came from.
The retention of the server reaches back at least as far as the window, so no maintenance
call of the run has deleted a row that is in it.
-/

namespace SSize

open Lib

/-- The row of the event is in the window. -/
def Event.recent (since : TsMs) (ev : Event) : Bool := (eventRow ev).inWindow since

theorem recent_eq_true {since : TsMs} {ev : Event} :
    ev.recent since = true ↔ since ≤ ev.ts ∧ ev.uaClass ≠ bytes "bot" := by
  have hrow : ev.recent since = (decide (since ≤ ev.ts) && ev.uaClass != bytes "bot") := rfl
  rw [hrow, Bool.and_eq_true, decide_eq_true_eq, bne_iff_ne]

/-! ## The visits -/

/-- Who was there, and at which item. -/
structure Hit where
  item : Option Int
  visitor : Text
deriving DecidableEq, Repr

def Event.hit (ev : Event) : Hit := ⟨ev.itemId, ev.anonId⟩

/-- The visits that a batch reports, `accepted` elements after its begin. -/
def hitsIn (since : TsMs) (clock : Nat → TsMs) (visitor : Text) (batch : List Json)
    (accepted : Nat) : List Hit :=
  ((batch.zipIdx accepted).filter fun e => decide (since ≤ clock e.2)).map fun e =>
    ⟨(e.1.integer? (bytes "item")).map castInt64, visitor⟩

/-- What this request is good for in the line of the type. -/
def Server.visitsOf (lib : Library) (since : TsMs) (s : Server) (amb : Ambient)
    (req : HttpRequest) (peer : Text) : EventType → List Hit
  | .impression =>
      if asksBeacon s.cfg req then
        hitsIn since amb.clock (identify amb req).anonId (batchIn lib req.body) 0
      else []
  | .cardClick =>
      match requestedItem (bytes "/item/") s.cfg req with
      | some id =>
          if (s.reply lib amb req peer).response.status = .ok ∧ since ≤ amb.clock 0 then
            [⟨some id, (identify amb req).anonId⟩]
          else []
      | none => []
  | .outbound =>
      match requestedItem (bytes "/r/") s.cfg req with
      | some id =>
          if (s.reply lib amb req peer).response.status = .found ∧ since ≤ amb.clock 0 then
            [⟨some id, (identify amb req).anonId⟩]
          else []
      | none => []
  | .search => []

/-- The same of a step, bots apart. -/
def Server.visits (lib : Library) (since : TsMs) (type : EventType) (s : Server) :
    ServerAct → List Hit
  | .request amb req peer =>
      if classifyUa req.userAgent = bytes "bot" then []
      else s.visitsOf lib since amb req peer type
  | _ => []

/-- The visits that events of a type record. -/
def hitsOf (since : TsMs) (type : EventType) (events : List Event) : List Hit :=
  (events.filter fun ev => ev.recent since && ev.type == type).map Event.hit

@[simp] theorem hitsOf_append (since : TsMs) (type : EventType) (events later : List Event) :
    hitsOf since type (events ++ later) =
      hitsOf since type events ++ hitsOf since type later := by
  simp [hitsOf]

theorem hitsOf_other {since : TsMs} {type : EventType} {events : List Event}
    (h : ∀ ev ∈ events, ev.type ≠ type) : hitsOf since type events = [] := by
  rw [hitsOf, List.map_eq_nil_iff, List.filter_eq_nil_iff]
  intro ev hev
  simp [h ev hev]

section Requests

variable (lib : Library) (amb : Ambient) (since : TsMs) (s : Server) (req : HttpRequest)
  (peer : Text)

/-- One logged event. -/
theorem hitsOf_logEvent (cfg : Config) (visit : Visit) (now : TsMs) (ev : Event)
    (type : EventType) :
    hitsOf since type (eventsOf [logEvent lib cfg visit now ev]) =
      if classifyUa visit.userAgent ≠ bytes "bot" ∧ since ≤ now ∧ ev.type = type then
        [⟨ev.itemId, visit.id.anonId⟩]
      else [] := by
  have hevents : eventsOf [logEvent lib cfg visit now ev] =
      [{ ev with
          ts := now
          anonId := visit.id.anonId
          sessionId := visit.id.sessionId
          uaClass := classifyUa visit.userAgent
          ipHash := lib.hashIp visit.clientIp cfg.ipHashSecret }] := rfl
  rw [hevents, hitsOf, List.filter_cons, List.filter_nil]
  simp only [Bool.and_eq_true, recent_eq_true, beq_iff_eq]
  by_cases hkept : classifyUa visit.userAgent ≠ bytes "bot" ∧ since ≤ now ∧ ev.type = type
  · rw [if_pos hkept, if_pos ⟨⟨hkept.2.1, hkept.1⟩, hkept.2.2⟩]
    rfl
  · rw [if_neg hkept, if_neg fun h => hkept ⟨h.1.2, h.1.1, h.2⟩]
    rfl

theorem hitsIn_cons (clock : Nat → TsMs) (visitor : Text) (e : Json) (batch : List Json)
    (accepted : Nat) :
    hitsIn since clock visitor (e :: batch) accepted =
      (if since ≤ clock accepted then [⟨(e.integer? (bytes "item")).map castInt64, visitor⟩]
        else []) ++ hitsIn since clock visitor batch (accepted + 1) := by
  rw [hitsIn, List.zipIdx_cons, List.filter_cons]
  by_cases hstamp : since ≤ clock accepted
  · simp only [hstamp, decide_true, if_true, List.map_cons]
    rfl
  · simp only [hstamp, decide_false, if_false, Bool.false_eq_true, List.nil_append]
    rfl

/-- The number of an element is how many were accepted before it. -/
theorem hitsOf_logImpressions (cfg : Config) (visit : Visit) (accepted : Nat)
    (elements : List Json) :
    hitsOf since .impression (eventsOf (logImpressions lib cfg amb visit accepted elements)) =
      if classifyUa visit.userAgent = bytes "bot" then []
      else
        hitsIn since amb.clock visit.id.anonId
          ((elements.filter Json.reports).take (kMaxBatch - accepted)) accepted := by
  induction elements generalizing accepted with
  | nil => simp [logImpressions, eventsOf, hitsOf, hitsIn]
  | cons e rest ih =>
      rw [logImpressions]
      split
      · next hcap =>
          have hnone : kMaxBatch - accepted = 0 := by omega
          simp [hnone, eventsOf, hitsOf, hitsIn]
      · next hcap =>
          have hone : kMaxBatch - accepted = (kMaxBatch - (accepted + 1)) + 1 := by omega
          split
          · next hskip =>
              rw [List.filter_cons_of_neg (by simp [(impressionOf_eq_none_iff e).1 hskip])]
              exact ih accepted
          · next ev hev =>
              have hreports : e.reports = true := by
                rw [← Bool.not_eq_false, ← impressionOf_eq_none_iff, hev]
                simp
              have hitem : ev.itemId = (e.integer? (bytes "item")).map castInt64 := by
                obtain ⟨n, hn, hitem⟩ :=
                  (loggedAs_of_impressionOf lib cfg visit hev (amb.clock accepted) rfl).item
                rw [hn]
                exact hitem
              have hsplit : eventsOf (logEvent lib cfg visit (amb.clock accepted) ev ::
                  logImpressions lib cfg amb visit (accepted + 1) rest) =
                  eventsOf [logEvent lib cfg visit (amb.clock accepted) ev] ++
                    eventsOf (logImpressions lib cfg amb visit (accepted + 1) rest) := rfl
              rw [List.filter_cons_of_pos hreports, hone, List.take_succ_cons, hsplit,
                hitsOf_append, hitsOf_logEvent, ih (accepted + 1), hitsIn_cons,
                (impressionOf_type hev).1, hitem]
              by_cases hbot : classifyUa visit.userAgent = bytes "bot"
              · simp [hbot]
              · simp [hbot]

/-- The body of a beacon is read to the end or not at all. -/
theorem hitsOf_handleBeacon (cfg : Config) (visit : Visit) (body : Text) :
    hitsOf since .impression (eventsOf (handleBeacon lib cfg amb visit body).effects) =
      if classifyUa visit.userAgent = bytes "bot" then []
      else hitsIn since amb.clock visit.id.anonId (batchIn lib body) 0 := by
  obtain ⟨elements, hbatch, heffects⟩ | ⟨hbatch, heffects⟩ :=
    handleBeacon_cases lib cfg amb visit body
  · rw [hbatch, heffects]
    exact hitsOf_logImpressions lib amb since cfg visit 0 elements
  · simp [hbatch, heffects, eventsOf, hitsOf, hitsIn]

theorem visits_impression :
    hitsOf since .impression (eventsOf (s.reply lib amb req peer).effects) =
      s.visits lib since .impression (.request amb req peer) := by
  have heffects := dispatch_effects_eq lib s.cfg amb s.catalog s.cache req (clientAddress req peer)
  rw [Server.reply, heffects, Server.visits, Server.visitsOf]
  by_cases hbeacon : asksBeacon s.cfg req
  · have hfeed : ¬ (req.method = .get ∧ pathOf s.cfg req = bytes "/") := by simp [hbeacon.1]
    rw [if_neg hfeed, routed_beacon lib amb hbeacon, hitsOf_handleBeacon, if_pos hbeacon]
    rfl
  · rw [if_neg hbeacon, ite_self]
    apply hitsOf_other
    split
    · simp [eventsOf]
    · exact routed_not_impression lib amb hbeacon

/-- A handler that logs a click, or an event of another type, or none. -/
theorem handleItem_type {cfg : Config} {catalog : Catalog} {visit : Visit} {id : Int} {q : Query} :
    ∀ ev ∈ eventsOf (handleItem lib cfg amb catalog visit id q).effects, ev.type = .cardClick := by
  unfold handleItem
  split
  · simp [Outcome.answer, eventsOf]
  · simp [eventsOf, Effect.event?, logEvent]

theorem handleRedirect_type {cfg : Config} {catalog : Catalog} {visit : Visit} {id : Int}
    {q : Query} :
    ∀ ev ∈ eventsOf (handleRedirect lib cfg amb catalog visit id q).effects,
      ev.type = .outbound := by
  unfold handleRedirect
  split
  · simp [Outcome.answer, eventsOf]
  · simp [eventsOf, Effect.event?, logEvent]

theorem visits_cardClick (hrenders : RendersItems amb) :
    hitsOf since .cardClick (eventsOf (s.reply lib amb req peer).effects) =
      s.visits lib since .cardClick (.request amb req peer) := by
  rw [Server.visits, Server.visitsOf]
  cases reply_clickCases lib amb s req peer with
  | @item id hitem hredirect heffects hstatus =>
      rw [heffects, hstatus, hitem]
      unfold handleItem
      split
      · simp [Outcome.answer, Outcome.status, eventsOf, hitsOf]
      · next found _ =>
          obtain ⟨html, hhtml⟩ := Option.isSome_iff_exists.1
            (hrenders s.cfg found (positionOf (parseQuery (splitTarget req.target).2)))
          rw [hitsOf_logEvent]
          have hok : (htmlPage html).status = .ok := rfl
          by_cases hbot : classifyUa req.userAgent = bytes "bot"
          · simp [visitOf, hbot]
          · by_cases hstamp : since ≤ amb.clock 0 <;>
              simp [visitOf, hbot, hhtml, Outcome.status, hok, hstamp]
  | redirect hitem hredirect heffects hstatus =>
      rw [heffects, hitem, hitsOf_other fun ev hev => by
        simp [handleRedirect_type lib amb ev hev]]
      simp
  | other hitem hredirect himpressions =>
      rw [hitem, hitsOf_other fun ev hev => by simp [himpressions ev hev]]
      simp

theorem visits_outbound :
    hitsOf since .outbound (eventsOf (s.reply lib amb req peer).effects) =
      s.visits lib since .outbound (.request amb req peer) := by
  rw [Server.visits, Server.visitsOf]
  cases reply_clickCases lib amb s req peer with
  | item hitem hredirect heffects hstatus =>
      rw [heffects, hredirect, hitsOf_other fun ev hev => by
        simp [handleItem_type lib amb ev hev]]
      simp
  | @redirect id hitem hredirect heffects hstatus =>
      rw [heffects, hstatus, hredirect]
      unfold handleRedirect
      split
      · simp [Outcome.answer, Outcome.status, eventsOf, hitsOf]
      · rw [hitsOf_logEvent]
        by_cases hbot : classifyUa req.userAgent = bytes "bot"
        · simp [visitOf, hbot]
        · by_cases hstamp : since ≤ amb.clock 0 <;>
            simp [visitOf, hbot, Outcome.status, foundResponse, Response.set, hstamp]
  | other hitem hredirect himpressions =>
      rw [hredirect, hitsOf_other fun ev hev => by simp [himpressions ev hev]]
      simp

/-- Nothing logs a search. -/
theorem visits_search :
    hitsOf since .search (eventsOf (s.reply lib amb req peer).effects) =
      s.visits lib since .search (.request amb req peer) := by
  rw [Server.visits, Server.visitsOf, ite_self]
  apply hitsOf_other
  cases reply_clickCases lib amb s req peer with
  | item hitem hredirect heffects hstatus =>
      rw [heffects]
      intro ev hev
      simp [handleItem_type lib amb ev hev]
  | redirect hitem hredirect heffects hstatus =>
      rw [heffects]
      intro ev hev
      simp [handleRedirect_type lib amb ev hev]
  | other hitem hredirect himpressions =>
      intro ev hev
      simp [himpressions ev hev]

theorem hitsOf_logging {a : ServerAct}
    (hrenders : ∀ amb req peer, a = .request amb req peer → RendersItems amb) (type : EventType) :
    hitsOf since type (s.logging lib a) = s.visits lib since type a := by
  cases a with
  | request amb req peer =>
      cases type with
      | impression => exact visits_impression lib amb since s req peer
      | cardClick => exact visits_cardClick lib amb since s req peer (hrenders amb req peer rfl)
      | outbound => exact visits_outbound lib amb since s req peer
      | search => exact visits_search lib amb since s req peer
  | _ => rfl

end Requests

/-! ## The window over a run -/

def Steps.visits (lib : Library) (since : TsMs) (type : EventType) (tr : Steps) : List Hit :=
  tr.flatMap fun e => e.1.visits lib since type e.2

variable {lib : Library} {since : TsMs} {tr : Steps} {s t : Server} {a : ServerAct}

theorem hitsOf_logged
    (hrenders : ∀ e ∈ tr, ∀ amb req peer, e.2 = .request amb req peer → RendersItems amb)
    (type : EventType) : hitsOf since type (tr.logged lib) = tr.visits lib since type := by
  induction tr with
  | nil => rfl
  | cons e tr ih =>
      have hfirst := hitsOf_logging lib since e.1 (hrenders e List.mem_cons_self) type
      have hrest := ih fun e' he' => hrenders e' (List.mem_cons_of_mem e he')
      rw [Steps.logged, List.flatMap_cons, hitsOf_append, hfirst, Steps.visits,
        List.flatMap_cons]
      exact congrArg _ hrest

/-- What the database keeps of the window, while no maintenance call reaches into it. -/
structure Windowed (lib : Library) (since : TsMs) (tr : Steps) (s : Server) : Prop where
  accounted : (tr.flushed ++ s.inFlight).Subperm (tr.logged lib)
  rows : s.pipeline.db.events.rows.filter (EventRow.inWindow since) =
    (tr.flushed.filter (Event.recent since)).map eventRow

theorem Windowed.init (lib : Library) (since : TsMs) (cfg : Config) (started : Int) :
    Windowed lib since [] (.init cfg started) where
  accounted := List.nil_subperm
  rows := rfl

theorem filter_map_eventRow (events : List Event) :
    (events.map eventRow).filter (EventRow.inWindow since) =
      (events.filter (Event.recent since)).map eventRow := by
  rw [List.filter_map]
  rfl

/-- A row in the window has not expired. -/
theorem filter_inWindow_unexpired {now : TsMs} {days : Int} (h : windowStart now days ≤ since)
    (rows : List EventRow) :
    (rows.filter fun r => !expired days now r).filter (EventRow.inWindow since) =
      rows.filter (EventRow.inWindow since) := by
  rw [List.filter_filter]
  apply List.filter_congr
  intro r _
  cases hwindow : r.inWindow since with
  | false => rfl
  | true =>
      have hsince : since ≤ r.ts := by
        rw [EventRow.inWindow, Bool.and_eq_true, decide_eq_true_eq] at hwindow
        exact hwindow.1
      have hstays : expired days now r = false :=
        decide_eq_false (Int.not_lt.2 (Int.le_trans h hsince))
      rw [hstays]
      rfl

/-- A maintenance call of this step deletes no row of the window. -/
def KeepsWindow (since : TsMs) (s : Server) (a : ServerAct) : Prop :=
  ∀ now, s.maintaining a = some now → windowStart now s.cfg.eventRetentionDays ≤ since

theorem Windowed.step (h : Windowed lib since tr s) (hflow : Flow lib s a t)
    (hkept : KeepsWindow since s a) :
    Windowed lib since (tr ++ [(s, a)]) t where
  accounted := by
    obtain ⟨lost, hlost⟩ := hflow.conserved
    have hstays : (s.flushing a ++ t.inFlight).Subperm (s.inFlight ++ s.logging lib a) := by
      rw [hlost, ← List.append_assoc]
      exact (List.sublist_append_left _ lost).subperm
    have hmoved : (tr.flushed ++ (s.flushing a ++ t.inFlight)).Subperm
        (tr.flushed ++ (s.inFlight ++ s.logging lib a)) :=
      (List.subperm_append_left _).2 hstays
    have hadded : (tr.flushed ++ s.inFlight ++ s.logging lib a).Subperm
        (tr.logged lib ++ s.logging lib a) := (List.subperm_append_right _).2 h.accounted
    rw [Steps.flushed_concat, Steps.logged_concat, List.append_assoc]
    rw [List.append_assoc] at hadded
    exact hmoved.trans hadded
  rows := by
    rw [Steps.flushed_concat, List.filter_append, List.map_append, ← h.rows]
    rcases hflow.log with ⟨-, hwritten, -⟩ | ⟨now, hnow, hflushing, hdb⟩
    · rw [hwritten, List.filter_append, filter_map_eventRow]
    · rw [hdb, hflushing, maintenance_ok (congrArg Prod.snd (maintenance_clean now _ _)),
        filter_inWindow_unexpired (hkept now hnow)]
      exact (List.append_nil _).symm

/-- Once all that was logged in the window is flushed, its rows are those. -/
theorem Windowed.complete (h : Windowed lib since tr s)
    (hflushed : ((tr.logged lib).filter (Event.recent since)).Subperm tr.flushed) :
    (s.pipeline.db.events.rows.filter (EventRow.inWindow since)).Perm
      (((tr.logged lib).filter (Event.recent since)).map eventRow) := by
  have hflush : tr.flushed.Subperm (tr.logged lib) :=
    (List.sublist_append_left _ _).subperm.trans h.accounted
  have hwithin := hflushed.filter (Event.recent since)
  simp only [List.filter_filter, Bool.and_self] at hwithin
  have hsame := hwithin.antisymm (hflush.filter _)
  rw [h.rows]
  exact hsame.symm.map _

theorem windowed_of_run {cfg : Config} {started : Int} {acts : List ServerAct}
    (hkept : ∀ e ∈ Runs.trace (calmStep lib) (.init cfg started) acts, KeepsWindow since e.1 e.2)
    (hrun : Runs.exec (calmStep lib) (.init cfg started) acts = some t) :
    Windowed lib since (Runs.trace (calmStep lib) (.init cfg started) acts) t := by
  rw [← List.nil_append (Runs.trace _ _ _)]
  apply Runs.exec_trace_invariant_of ?_ (.init lib since cfg started) hkept hrun
  intro tr s a u hs hkeeps hu
  exact hs.step (calmStep_flow hu) hkeeps

/-- The run that took these steps has flushed all of the window that ends at `now`, its
maintenance left the rows of the window alone, and its item pages rendered. -/
structure Complete (lib : Library) (now : TsMs) (days : Int) (tr : Steps) (t : Server) : Prop where
  run : ∃ cfg started acts, Runs.exec (calmStep lib) (.init cfg started) acts = some t ∧
    Runs.trace (calmStep lib) (.init cfg started) acts = tr
  renders : ∀ e ∈ tr, ∀ amb req peer, e.2 = .request amb req peer → RendersItems amb
  retains : ∀ e ∈ tr, days ≤ e.1.cfg.eventRetentionDays
  clock : ∀ earlier ∈ tr.readings, earlier ≤ now
  flushed : ((tr.logged lib).filter (Event.recent (windowStart now days))).Subperm tr.flushed

namespace Complete

variable {now : TsMs} {days : Int} (h : Complete lib now days tr t)
include h

theorem keepsWindow : ∀ e ∈ tr, KeepsWindow (windowStart now days) e.1 e.2 := by
  intro e he earlier hearlier
  have hle := h.clock earlier (List.mem_filterMap.2 ⟨e, he, hearlier⟩)
  have hdays : days * dayMs ≤ e.1.cfg.eventRetentionDays * dayMs :=
    Int.mul_le_mul_of_nonneg_right (h.retains e he) (by decide)
  exact Int.sub_le_sub hle hdays

theorem rows :
    (t.pipeline.db.events.rows.filter (EventRow.inWindow (windowStart now days))).Perm
      (((tr.logged lib).filter (Event.recent (windowStart now days))).map eventRow) := by
  obtain ⟨cfg, started, acts, hrun, rfl⟩ := h.run
  exact (windowed_of_run h.keepsWindow hrun).complete h.flushed

theorem visits (type : EventType) :
    hitsOf (windowStart now days) type (tr.logged lib) =
      tr.visits lib (windowStart now days) type :=
  hitsOf_logged h.renders type

end Complete

/-! ## The lines -/

def EventType.all : List EventType := [.impression, .cardClick, .outbound, .search]

theorem EventType.mem_all (type : EventType) : type ∈ EventType.all := by
  cases type <;> decide

/-- The line of a type in terms of the visits. -/
def visitLine (type : EventType) (hits : List Hit) : FunnelLine where
  type := type.toString
  events := hits.length
  users := (hits.map Hit.visitor).dedup.length

theorem groupOf_eventRow (type : EventType) (events : List Event) :
    groupOf EventRow.type ((events.filter (Event.recent since)).map eventRow) type.toString =
      (events.filter fun ev => ev.recent since && ev.type == type).map eventRow := by
  rw [groupOf, List.filter_map, List.filter_filter]
  apply congrArg
  apply List.filter_congr
  intro ev _
  have htype : (decide ((eventRow ev).type = type.toString)) = (ev.type == type) := by
    rw [Bool.eq_iff_iff, decide_eq_true_eq, beq_iff_eq]
    exact ⟨EventType.toString_injective, congrArg EventType.toString⟩
  rw [Function.comp_apply, htype, Bool.and_comm]

theorem funnelLine_eventRow (type : EventType) (events : List Event) :
    funnelLine type.toString
        (groupOf EventRow.type ((events.filter (Event.recent since)).map eventRow)
          type.toString) =
      visitLine type (hitsOf since type events) := by
  rw [groupOf_eventRow, funnelLine, visitLine, hitsOf, List.map_map, List.map_map,
    List.length_map, List.length_map]
  rfl

theorem hitsOf_eq_nil (type : EventType) (events : List Event) :
    hitsOf since type events = [] ↔
      groupOf EventRow.type ((events.filter (Event.recent since)).map eventRow)
        type.toString = [] := by
  rw [groupOf_eventRow, hitsOf, List.map_eq_nil_iff, List.map_eq_nil_iff]

/-- The lines over what was logged in the window. -/
theorem funnel_logged (events : List Event) :
    (groupBy EventRow.type funnelLine ((events.filter (Event.recent since)).map eventRow)).Perm
      ((EventType.all.filter fun type => hitsOf since type events ≠ []).map fun type =>
        visitLine type (hitsOf since type events)) := by
  have hlines : ((EventType.all.filter fun type => hitsOf since type events ≠ []).map fun type =>
        visitLine type (hitsOf since type events)) =
      ((EventType.all.filter fun type => hitsOf since type events ≠ []).map
        EventType.toString).map fun text => funnelLine text
          (groupOf EventRow.type ((events.filter (Event.recent since)).map eventRow) text) := by
    rw [List.map_map]
    apply List.map_congr_left
    intro type _
    exact (funnelLine_eventRow type events).symm
  rw [hlines]
  apply groupBy_perm_keys
  · apply List.Nodup.map fun s t => EventType.toString_injective
    exact List.Nodup.filter _ (by decide)
  · intro text
    rw [List.mem_map]
    constructor
    · rintro ⟨type, htype, rfl⟩
      rw [List.mem_filter, decide_eq_true_eq, ne_eq, hitsOf_eq_nil] at htype
      exact htype.2
    · intro hsome
      obtain ⟨r, hr, rfl⟩ := List.mem_map.1 (groupOf_ne_nil.1 hsome)
      obtain ⟨ev, -, rfl⟩ := List.mem_map.1 hr
      refine ⟨ev.type, ?_, rfl⟩
      rw [List.mem_filter, decide_eq_true_eq, ne_eq, hitsOf_eq_nil]
      exact ⟨EventType.mem_all ev.type, hsome⟩

/-- The lines are those of the types that had visits: how many there were, and how many
visitors they came from. -/
theorem funnel_exact {now : TsMs} {days : Int} (h : Complete lib now days tr t) :
    (funnel (windowStart now days) t.pipeline.db.events.rows).Perm
      ((EventType.all.filter fun type => tr.visits lib (windowStart now days) type ≠ []).map
        fun type => visitLine type (tr.visits lib (windowStart now days) type)) := by
  simp only [← h.visits]
  exact (groupBy_perm funnelLine_perm h.rows).trans (funnel_logged _)

theorem funnel_dayOfClicks :
    ∃ t, Runs.exec (calmStep .bare) (.init {} 0) (dayOfClicks ++ .worker firstTick :: dayAfter) =
        some t ∧
      (funnel (windowStart 180000000 7) t.pipeline.db.events.rows).Perm
        [{ type := bytes "card_click", events := 1, users := 1 },
          { type := bytes "outbound", events := 2, users := 1 }] := by
  have hsome : (Runs.exec (calmStep .bare) (.init {} 0)
      (dayOfClicks ++ .worker firstTick :: dayAfter)).isSome = true := by decide +kernel
  obtain ⟨t, ht⟩ := Option.isSome_iff_exists.1 hsome
  refine ⟨t, ht, ?_⟩
  have hcomplete : Complete .bare 180000000 7 (Runs.trace (calmStep .bare) (.init {} 0)
      (dayOfClicks ++ .worker firstTick :: dayAfter)) t := by
    refine ⟨⟨{}, 0, _, ht, rfl⟩, ?_, by decide +kernel, by decide +kernel, by decide +kernel⟩
    intro e he amb req peer hrequest cfg item position
    have hmem : ServerAct.request amb req peer ∈
        dayOfClicks ++ .worker firstTick :: dayAfter := by
      rw [← Runs.map_snd_trace ht, ← hrequest]
      exact List.mem_map_of_mem he
    simp only [dayOfClicks, dayAfter, List.mem_append, List.mem_cons, List.not_mem_nil,
      List.mem_replicate, ServerAct.request.injEq, reduceCtorEq, false_or, or_false,
      and_false] at hmem
    rcases hmem with (h | h | h) | h <;> rw [h.1] <;> rfl
  apply (funnel_exact hcomplete).trans
  decide +kernel

end SSize
