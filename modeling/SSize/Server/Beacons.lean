import Mathlib.Data.List.Forall2
import SSize.Server.Positions
import SSize.Server.Redirects

/-!
# Batches of impressions

The loop of `handle_beacon` queues one impression for each of the first 200 elements
that are objects with an integer `item`. The numbers are cast to the types of the
fields, so a batch is recorded as it was sent exactly when its numbers fit.
-/

namespace SSize

variable (lib : Library) (cfg : Config) (amb : Ambient) (visit : Visit)

/-! ## What a batch asks for -/

/-- An object with an integer `item`. -/
def Json.reports (e : Json) : Bool := e.isObject && (e.integer? (bytes "item")).isSome

/-- The elements that count: at most `kMaxBatch`, in their order. -/
def batchOf (elements : List Json) : List Json := (elements.filter Json.reports).take kMaxBatch

def Json.FitsEvent (e : Json) : Prop :=
  (∀ n, e.integer? (bytes "item") = some n → FitsInt64 n) ∧
    ∀ n, e.integer? (bytes "p") = some n → FitsInt n

/-- The impression has the numbers of the element. A number that does not fit its
field is left out. -/
structure Json.RecordedBy (e : Json) (ev : Event) : Prop where
  type : ev.type = .impression
  item : ∀ n, ev.itemId = some n ↔ e.integer? (bytes "item") = some n ∧ FitsInt64 n
  position : ∀ n, ev.position = some n ↔ e.integer? (bytes "p") = some n ∧ FitsInt n

/-- One impression for each element of the batch, in their order, and no other. An
element with a number that does not fit may be skipped. -/
def RecordsBatch (elements : List Json) (events : List Event) : Prop :=
  ∃ keep : Json → Bool, (∀ e ∈ batchOf elements, e.FitsEvent → keep e = true) ∧
    List.Forall₂ Json.RecordedBy ((batchOf elements).filter keep) events

/-! ## What the loop does -/

/-- The event is the impression that `handle_beacon` makes of the element. -/
structure Json.LoggedAs (e : Json) (ev : Event) : Prop where
  type : ev.type = .impression
  item : ∃ n, e.integer? (bytes "item") = some n ∧ ev.itemId = some (castInt64 n)
  position : ev.position = (e.integer? (bytes "p")).map castInt

theorem impressionOf_eq_none_iff (e : Json) : impressionOf e = none ↔ e.reports = false := by
  unfold impressionOf Json.reports
  cases e.isObject with
  | false => simp
  | true => cases e.integer? (bytes "item") <;> simp

theorem loggedAs_of_impressionOf {e : Json} {ev₀ : Event} (h : impressionOf e = some ev₀)
    (now : TsMs) {ev : Event} (hlog : logEvent lib cfg visit now ev₀ = .event ev) :
    e.LoggedAs ev := by
  unfold impressionOf at h
  split at h
  · simp at h
  split at h
  · simp at h
  · next item hitem =>
      rw [Option.some.injEq] at h
      rw [logEvent, Effect.event.injEq] at hlog
      subst h
      subst hlog
      exact ⟨rfl, ⟨item, hitem, rfl⟩, rfl⟩

/-- After `accepted` impressions there is room for the rest of the batch. -/
theorem logImpressions_loggedAs (accepted : Nat) (elements : List Json) :
    List.Forall₂ Json.LoggedAs ((elements.filter Json.reports).take (kMaxBatch - accepted))
      (eventsOf (logImpressions lib cfg amb visit accepted elements)) := by
  induction elements generalizing accepted with
  | nil => simp [logImpressions, eventsOf]
  | cons e rest ih =>
      rw [logImpressions]
      split
      · next hcap =>
          have hnone : kMaxBatch - accepted = 0 := by omega
          rw [hnone, List.take_zero]
          exact .nil
      · next hcap =>
          have hone : kMaxBatch - accepted = (kMaxBatch - (accepted + 1)) + 1 := by omega
          split
          · next hskip =>
              rw [List.filter_cons_of_neg (by simp [(impressionOf_eq_none_iff e).1 hskip])]
              exact ih accepted
          · next ev₀ hev₀ =>
              have hreports : e.reports = true := by
                rw [← Bool.not_eq_false, ← impressionOf_eq_none_iff, hev₀]
                simp
              rw [List.filter_cons_of_pos hreports, hone, List.take_succ_cons]
              exact .cons (loggedAs_of_impressionOf lib cfg visit hev₀ _ rfl) (ih (accepted + 1))

/-- The two records of one element agree exactly when its numbers fit. -/
theorem Json.LoggedAs.recordedBy_iff {e : Json} {ev : Event} (h : e.LoggedAs ev) :
    e.RecordedBy ev ↔ e.FitsEvent := by
  obtain ⟨n, hn, hitem⟩ := h.item
  constructor
  · intro hrecorded
    constructor
    · intro m hm
      obtain ⟨hsame, hfits⟩ := (hrecorded.item _).1 hitem
      rw [hm, Option.some.injEq] at hsame
      exact hsame ▸ hfits
    · intro p hp
      have hposition : ev.position = some (castInt p) := by rw [h.position, hp, Option.map_some]
      obtain ⟨hsame, hfits⟩ := (hrecorded.position _).1 hposition
      rw [hp, Option.some.injEq] at hsame
      exact hsame ▸ hfits
  · rintro ⟨hitems, hpositions⟩
    refine ⟨h.type, fun m => ?_, fun m => ?_⟩
    · have hwide := hitems n hn
      rw [hitem, hn, castInt64_eq_self_iff.2 hwide, Option.some.injEq]
      constructor
      · exact fun hm => ⟨hm, hm ▸ hwide⟩
      · exact fun hm => hm.1
    · rw [h.position]
      cases hp : e.integer? (bytes "p") with
      | none => simp
      | some p =>
          have hfits := hpositions p hp
          rw [Option.map_some, castInt_eq_self_iff.2 hfits, Option.some.injEq]
          constructor
          · exact fun hm => ⟨hm, hm ▸ hfits⟩
          · exact fun hm => hm.1

/-! ## The batch as a whole -/

theorem forall₂_common {α β : Type*} {R S : α → β → Prop} {l : List α} {m : List β}
    (hR : List.Forall₂ R l m) (hS : List.Forall₂ S l m) :
    ∀ a ∈ l, ∃ b, R a b ∧ S a b := by
  induction hR with
  | nil => simp
  | @cons a b l m hab _ ih =>
      cases hS with
      | cons hab' htail =>
          intro x hx
          rcases List.mem_cons.1 hx with hfirst | hlater
          · exact hfirst ▸ ⟨b, hab, hab'⟩
          · exact ih htail x hlater

/-- Every element got its event, so none was skipped: the batch is recorded only when
all its numbers fit. -/
theorem recordsBatch_iff (elements : List Json) :
    RecordsBatch elements (eventsOf (logImpressions lib cfg amb visit 0 elements)) ↔
      ∀ e ∈ batchOf elements, e.FitsEvent := by
  have hlogged : List.Forall₂ Json.LoggedAs (batchOf elements)
      (eventsOf (logImpressions lib cfg amb visit 0 elements)) :=
    logImpressions_loggedAs lib cfg amb visit 0 elements
  constructor
  · rintro ⟨keep, -, hrecorded⟩
    have hlength : ((batchOf elements).filter keep).length = (batchOf elements).length := by
      rw [hrecorded.length_eq, hlogged.length_eq]
    have hall : (batchOf elements).filter keep = batchOf elements :=
      List.filter_sublist.eq_of_length hlength
    rw [hall] at hrecorded
    intro e he
    obtain ⟨ev, hlog, hrecord⟩ := forall₂_common hlogged hrecorded e he
    exact hlog.recordedBy_iff.1 hrecord
  · intro hfits
    refine ⟨fun _ => true, fun _ _ _ => rfl, ?_⟩
    have hboth := (List.forall₂_and_left (batchOf elements) _).2 ⟨hfits, hlogged⟩
    rw [List.filter_true]
    exact hboth.imp fun e ev h => h.2.recordedBy_iff.2 h.1

theorem EventQueue.pushAll_room {q : EventQueue} {effects : List Effect}
    (hroom : q.pending.length + (eventsOf effects).length ≤ q.maxPending) :
    (q.pushAll effects).pending = q.pending ++ eventsOf effects := by
  unfold pushAll
  generalize eventsOf effects = events at hroom ⊢
  induction events generalizing q with
  | nil => simp
  | cons ev events ih =>
      rw [List.length_cons] at hroom
      have haccepted : q.push ev = ((q.push ev).1, true) :=
        Prod.ext rfl ((push_accepts_iff q ev).2 (by omega))
      have hpush := push_accepted haccepted
      rw [List.foldl_cons, ih]
      · rw [hpush.1, List.append_assoc, List.singleton_append]
      · rw [hpush.1, hpush.2.2, List.length_append, List.length_singleton]
        omega

/-- A batch that the queue has room for is appended as it was sent if and only if every
number in it fits its field. A body that is no array appends nothing. -/
theorem beacon_recorded_iff (body : Text) (queue : EventQueue)
    (hroom : queue.pending.length +
      (eventsOf (handleBeacon lib cfg amb visit body).effects).length ≤ queue.maxPending) :
    let queue' := queue.pushAll (handleBeacon lib cfg amb visit body).effects
    (∀ elements, lib.parseJson body = some (.array elements) →
      ((∃ events, queue'.pending = queue.pending ++ events ∧ RecordsBatch elements events) ↔
        ∀ e ∈ batchOf elements, e.FitsEvent)) ∧
    ((∀ elements, lib.parseJson body ≠ some (.array elements)) → queue' = queue) := by
  intro queue'
  have hqueue : queue'.pending =
      queue.pending ++ eventsOf (handleBeacon lib cfg amb visit body).effects :=
    EventQueue.pushAll_room hroom
  constructor
  · intro elements hbody
    have heffects : (handleBeacon lib cfg amb visit body).effects =
        logImpressions lib cfg amb visit 0 elements := by
      rw [handleBeacon, hbody]
    rw [← recordsBatch_iff lib cfg amb visit elements, hqueue, heffects]
    constructor
    · rintro ⟨events, hevents, hrecords⟩
      exact List.append_cancel_left hevents ▸ hrecords
    · exact fun hrecords => ⟨_, rfl, hrecords⟩
  · intro hbody
    have heffects : (handleBeacon lib cfg amb visit body).effects = [] := by
      unfold handleBeacon
      split
      · rfl
      · next elements harray => exact absurd harray (hbody elements)
      · rfl
    change queue.pushAll (handleBeacon lib cfg amb visit body).effects = queue
    rw [heffects]
    rfl

/-- A library that reads this body as a batch of one element. -/
def Library.reading (fields : List (Text × Json)) : Library where
  kopeksOf _ := none
  parseJson _ := some (.array [.object fields])
  hashIp _ _ := []

/-- A batch of one card in the fifth place. -/
theorem beacon_recorded_one :
    ∃ events, ((EventQueue.empty 1).pushAll
        (handleBeacon (.reading [(bytes "item", .integer 7), (bytes "p", .integer 4)]) {} (.bare 0)
          (visitOf (.bare 0) {} []) (bytes "[\x7b\"item\":7,\"p\":4\x7d]")).effects).pending =
        [] ++ events ∧
      RecordsBatch [.object [(bytes "item", .integer 7), (bytes "p", .integer 4)]] events := by
  have hroom : (EventQueue.empty 1).pending.length + (eventsOf (handleBeacon
      (.reading [(bytes "item", .integer 7), (bytes "p", .integer 4)]) {} (.bare 0)
      (visitOf (.bare 0) {} []) (bytes "[\x7b\"item\":7,\"p\":4\x7d]")).effects).length ≤
      (EventQueue.empty 1).maxPending := by decide
  refine ((beacon_recorded_iff _ _ _ _ _ _ hroom).1 _ rfl).2 ?_
  intro e he
  have hone : batchOf [.object [(bytes "item", .integer 7), (bytes "p", .integer 4)]] =
      [.object [(bytes "item", .integer 7), (bytes "p", .integer 4)]] := rfl
  rw [hone, List.mem_singleton] at he
  have hitem : e.integer? (bytes "item") = some 7 := by rw [he]; rfl
  have hposition : e.integer? (bytes "p") = some 4 := by rw [he]; rfl
  constructor
  · intro n hn
    rw [hitem, Option.some.injEq] at hn
    unfold FitsInt64
    omega
  · intro n hn
    rw [hposition, Option.some.injEq] at hn
    unfold FitsInt
    omega

/-- `2^63` is an integer for the library and becomes the item `-2^63`. -/
theorem beacon_not_recorded :
    ¬ ∃ events, ((EventQueue.empty 1).pushAll
        (handleBeacon (.reading [(bytes "item", .integer (2 ^ 63))]) {} (.bare 0)
          (visitOf (.bare 0) {} [])
          (bytes "[\x7b\"item\":9223372036854775808\x7d]")).effects).pending = [] ++ events ∧
      RecordsBatch [.object [(bytes "item", .integer (2 ^ 63))]] events := by
  rintro ⟨events, hevents, hrecords⟩
  have hlogged : events = eventsOf (logImpressions
      (.reading [(bytes "item", .integer (2 ^ 63))]) {} (.bare 0) (visitOf (.bare 0) {} []) 0
      [.object [(bytes "item", .integer (2 ^ 63))]]) := by
    rw [List.nil_append] at hevents
    exact hevents.symm
  rw [hlogged] at hrecords
  have hfits := (recordsBatch_iff _ _ _ _ _).1 hrecords
    (.object [(bytes "item", .integer (2 ^ 63))]) (List.mem_singleton.2 rfl)
  have hitem := hfits.1 (2 ^ 63) rfl
  unfold FitsInt64 at hitem
  omega

end SSize
