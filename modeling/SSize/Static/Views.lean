import SSize.Server.ImpressionCount
import SSize.Static.Impressions

/-!
# From the viewport to the statistics

A page that is left hands its last batch over, so what it sends in all are the items of
the cards that were seen, each once. If every batch arrives as one beacon, the impressions
of a day are the numbers of pages on which an item was seen.
-/

namespace SSize.App

open Lib

/-- An object of the batch as it is read on the server. `JSON.stringify` prints integers
below `2^53` in full. -/
structure Impression.SentAs (imp : Impression) (e : Json) : Prop where
  object : e.isObject = true
  item : ∀ n : Int, |n| < 2 ^ 53 → imp.item = .finite n →
    e.integer? (bytes "item") = some n

/-- The item is a small positive integer. -/
def Impression.Small (imp : Impression) : Prop :=
  ∃ n : Int, imp.item = .finite n ∧ 0 < n ∧ n < 2 ^ 53

/-- A page of the feed that was opened, looked at and left. -/
structure Viewing where
  cards : List Card
  sendBeacon : Bool
  callbacks : List (Callback (Element cards))
  page : Page (Element cards)
  few : cards.length ≤ 120
  small : ∀ card ∈ cards, 0 < card.id ∧ card.id < 2 ^ 53
  ran : Runs.exec (Page.step (cardDataset cards) sendBeacon) (opened cards) callbacks = some page
  left : page.queue = []

namespace Viewing

def calls (v : Viewing) : Calls (Element v.cards) :=
  Runs.trace (Page.step (cardDataset v.cards) v.sendBeacon) (opened v.cards) v.callbacks

/-- The dwell timer of a card of this item fired. -/
def saw (v : Viewing) (item : Int) : Bool := decide (item ∈ firedItems v.cards v.calls)

def batches (v : Viewing) : List (List Impression) := v.page.sent.map Prod.snd

variable (v : Viewing)

theorem reported_eq : v.page.reported = v.batches.flatten := by
  rw [Page.reported, v.left, List.append_nil, batches]

theorem counted : Page.Counted (cardDataset v.cards) (fired v.calls) v.page := by
  apply (Page.tracked_run ?_ v.ran).counted
  rw [Fintype.card_fin, maxBatch]
  exact v.few.trans (by decide)

theorem reads (el : Element v.cards) :
    parseInt (cardDataset v.cards el).item = .finite (v.cards.get el).id := by
  obtain ⟨hpos, hlt⟩ := v.small _ (List.get_mem v.cards el)
  have hexact : IsExact (v.cards.get el).id := by
    apply isExact_of_lt
    rw [abs_of_pos hpos]
    exact hlt
  have hfits : FitsInt64 (v.cards.get el).id := by
    unfold FitsInt64
    omega
  exact (item_eq_iff hpos hfits).2 hexact

theorem small_of_mem {imp : Impression} (h : imp ∈ v.page.reported) : imp.Small := by
  have hseen : imp.item ∈ v.page.seen := by
    rw [← v.counted.reported]
    exact List.mem_map_of_mem h
  obtain ⟨-, el, -, hel⟩ := (v.counted.collected.mem_iff _).1 hseen
  exact ⟨_, hel.symm.trans (v.reads el), v.small _ (List.get_mem v.cards el)⟩

/-- An item is reported once if it was seen and else never. -/
theorem count_item {item : Int} (hitem : 0 < item) :
    v.page.reported.countP (fun imp => imp.item == .finite item) =
      if v.saw item then 1 else 0 := by
  have hcount := count_reported v.few v.ran (.finite item)
  have htruthy : truthy (.finite item) = true := by
    have hne : (item : ℚ) ≠ 0 := by exact_mod_cast hitem.ne'
    simpa [truthy] using hne
  rw [List.count, List.countP_map] at hcount
  refine hcount.trans ?_
  congr 1
  rw [Viewing.saw, decide_eq_true_eq, eq_iff_iff]
  constructor
  · rintro ⟨-, el, hel, heq⟩
    rw [v.reads, Binary64.finite.injEq] at heq
    exact List.mem_map.2 ⟨el, hel, by exact_mod_cast heq⟩
  · intro hmem
    obtain ⟨el, hel, heq⟩ := List.mem_map.1 hmem
    exact ⟨htruthy, el, hel, by rw [v.reads, heq]⟩

/-- No batch is longer than `handle_beacon` reads. -/
theorem length_batch_le {batch : List Impression} (h : batch ∈ v.batches) :
    batch.length ≤ kMaxBatch := by
  have hpart : batch.Sublist v.page.reported := by
    rw [v.reported_eq]
    exact List.sublist_flatten_of_mem h
  calc batch.length ≤ v.page.reported.length := hpart.length_le
    _ = v.page.seen.length := by rw [← v.counted.reported, List.length_map]
    _ ≤ Fintype.card (Element v.cards) := v.counted.collected.length_le
    _ ≤ kMaxBatch := by
        rw [Fintype.card_fin]
        exact v.few.trans (by decide)

end Viewing

/-! ## What arrives -/

/-- The body is the batch. -/
def Carries (lib : Library) (body : Text) (batch : List Impression) : Prop :=
  ∃ elements, lib.parseJson body = some (.array elements) ∧
    List.Forall₂ Impression.SentAs batch elements

/-- The body of the beacon that this step answers on that day, bots apart. -/
def beaconOn (day : Int) (e : Server × ServerAct) : Option Text :=
  match e.2 with
  | .request amb req _ =>
      if asksBeacon e.1.cfg req ∧ classifyUa req.userAgent ≠ bytes "bot" ∧
        dayOf (amb.clock 0) = day then some req.body
      else none
  | _ => none

/-- No beacon is read over midnight. -/
def WithinDays (tr : Steps) : Prop :=
  ∀ e ∈ tr, ∀ amb req peer, e.2 = .request amb req peer → asksBeacon e.1.cfg req →
    ∀ k, dayOf (amb.clock k) = dayOf (amb.clock 0)

/-- How often a body names the item. -/
def naming (lib : Library) (item : Int) (body : Text) : Nat :=
  (batchIn lib body).countP fun e => (e.integer? (bytes "item")).map castInt64 == some item

theorem countP_namesOn (lib : Library) (clock : Nat → TsMs) (day item : Int)
    (hclock : ∀ k, dayOf (clock k) = dayOf (clock 0)) (body : Text) :
    (batchIn lib body).zipIdx.countP (namesOn clock day item) =
      if dayOf (clock 0) = day then naming lib item body else 0 := by
  split
  · next hday =>
      have hnames : namesOn clock day item =
          (fun e : Json => (e.integer? (bytes "item")).map castInt64 == some item) ∘ Prod.fst := by
        funext e
        simp [namesOn, hclock e.2, hday]
      rw [hnames, ← List.countP_map, List.zipIdx_map_fst, naming]
  · next hday =>
      rw [List.countP_eq_zero]
      intro e _
      simp [namesOn, hclock e.2, hday]

theorem reporting_eq {lib : Library} {day : Int} {e : Server × ServerAct}
    (hdays : ∀ amb req peer, e.2 = .request amb req peer → asksBeacon e.1.cfg req →
      ∀ k, dayOf (amb.clock k) = dayOf (amb.clock 0)) (item : Int) :
    e.1.reporting lib day item e.2 = ((beaconOn day e).map (naming lib item)).getD 0 := by
  obtain ⟨s, a⟩ := e
  cases a with
  | request amb req peer =>
      by_cases hbeacon : asksBeacon s.cfg req
      · have hclock := hdays amb req peer rfl hbeacon
        have hcount := countP_namesOn lib amb.clock day item hclock req.body
        by_cases hbot : classifyUa req.userAgent = bytes "bot"
        · simp [Server.reporting, beaconOn, hbot]
        · by_cases hday : dayOf (amb.clock 0) = day
          · simp [Server.reporting, beaconOn, hbot, hbeacon, hcount, hday]
          · simp [Server.reporting, beaconOn, hbot, hbeacon, hcount, hday]
      · simp [Server.reporting, beaconOn, hbeacon]
  | _ => rfl

theorem reporting_sum {lib : Library} {day : Int} {tr : Steps} (hdays : WithinDays tr)
    (item : Int) :
    (tr.map fun e => e.1.reporting lib day item e.2).sum =
      ((tr.filterMap (beaconOn day)).map (naming lib item)).sum := by
  induction tr with
  | nil => rfl
  | cons e tr ih =>
      have hrest := ih fun e' he' => hdays e' (List.mem_cons_of_mem e he')
      rw [List.map_cons, List.sum_cons, hrest, reporting_eq (hdays e List.mem_cons_self)]
      cases hbeacon : beaconOn day e with
      | none => simp [hbeacon]
      | some body => simp [hbeacon]

theorem countP_forall₂ {α β : Type*} {R : α → β → Prop} {l : List α} {m : List β} {p : α → Bool}
    {q : β → Bool} (h : List.Forall₂ R l m) (hpq : ∀ a ∈ l, ∀ b, R a b → p a = q b) :
    l.countP p = m.countP q := by
  induction h with
  | nil => rfl
  | @cons a b l m hab _ ih =>
      have hrest := ih fun a' ha' => hpq a' (List.mem_cons_of_mem a ha')
      rw [List.countP_cons, List.countP_cons, hrest, hpq a List.mem_cons_self b hab]

theorem forall_mem_of_forall₂ {α β : Type*} {R : α → β → Prop} {P : β → Prop} {l : List α}
    {m : List β} (h : List.Forall₂ R l m) (hP : ∀ a b, R a b → P b) : ∀ b ∈ m, P b := by
  induction h with
  | nil => exact fun b hb => absurd hb List.not_mem_nil
  | cons hab _ ih => exact List.forall_mem_cons.2 ⟨hP _ _ hab, ih⟩

theorem Impression.SentAs.integer {imp : Impression} {e : Json} (h : imp.SentAs e) {n : Int}
    (hn : imp.item = .finite n) (hpos : 0 < n) (hlt : n < 2 ^ 53) :
    e.integer? (bytes "item") = some n := by
  apply h.item n _ hn
  rw [abs_of_pos hpos]
  exact hlt

/-- Every element of a batch counts. -/
theorem batchIn_carried {lib : Library} {body : Text} {batch : List Impression}
    (hcarries : Carries lib body batch) (hlength : batch.length ≤ kMaxBatch)
    (hsmall : ∀ imp ∈ batch, imp.Small) :
    List.Forall₂ Impression.SentAs batch (batchIn lib body) := by
  obtain ⟨elements, hparse, hsent⟩ := hcarries
  have hboth := (List.forall₂_and_left batch elements).2 ⟨hsmall, hsent⟩
  have hall : ∀ e ∈ elements, e.reports = true := by
    have hone : ∀ (imp : Impression) (e : Json), imp.Small ∧ imp.SentAs e → e.reports = true := by
      rintro imp e ⟨⟨n, hn, hpos, hlt⟩, himp⟩
      simp [Json.reports, himp.object, himp.integer hn hpos hlt]
    exact forall_mem_of_forall₂ hboth hone
  have hbatch : batchIn lib body = elements := by
    simp only [batchIn, hparse]
    rw [batchOf, List.filter_eq_self.2 hall, List.take_of_length_le]
    rwa [← hsent.length_eq]
  rwa [hbatch]

/-- A body names the items of its batch. -/
theorem naming_carried {lib : Library} {body : Text} {batch : List Impression}
    (hcarries : Carries lib body batch) (hlength : batch.length ≤ kMaxBatch)
    (hsmall : ∀ imp ∈ batch, imp.Small) (item : Int) :
    naming lib item body = batch.countP fun imp => imp.item == .finite item := by
  symm
  apply countP_forall₂ (batchIn_carried hcarries hlength hsmall)
  intro imp himp e hsent
  obtain ⟨n, hn, hpos, hlt⟩ := hsmall imp himp
  have hfits : castInt64 n = n := by
    rw [castInt64_eq_self_iff]
    unfold FitsInt64
    omega
  rw [hsent.integer hn hpos hlt, hn, Option.map_some, hfits, Bool.eq_iff_iff, beq_iff_eq,
    beq_iff_eq, Binary64.finite.injEq, Option.some.injEq]
  exact_mod_cast Iff.rfl

/-! ## The day -/

/-- The beacons of the day are the batches of these pages, in any order. -/
def AllArrive (lib : Library) (day : Int) (tr : Steps) (views : List Viewing) : Prop :=
  ∃ batches : List (List Impression), batches.Perm (views.flatMap Viewing.batches) ∧
    List.Forall₂ (Carries lib) (tr.filterMap (beaconOn day)) batches

theorem naming_sum {lib : Library} {bodies : List Text} {batches : List (List Impression)}
    (h : List.Forall₂ (Carries lib) bodies batches)
    (hbatches : ∀ batch ∈ batches, batch.length ≤ kMaxBatch ∧ ∀ imp ∈ batch, imp.Small)
    (item : Int) :
    (bodies.map (naming lib item)).sum =
      batches.flatten.countP fun imp => imp.item == .finite item := by
  induction h with
  | nil => rfl
  | @cons body batch bodies batches hcarries _ ih =>
      obtain ⟨hlength, hsmall⟩ := hbatches batch List.mem_cons_self
      have hrest := ih fun batch' hbatch' => hbatches batch' (List.mem_cons_of_mem batch hbatch')
      rw [List.map_cons, List.sum_cons, hrest, naming_carried hcarries hlength hsmall,
        List.flatten_cons, List.countP_append]

theorem countP_views {views : List Viewing} {item : Int} (hitem : 0 < item) :
    ((views.flatMap Viewing.batches).flatten.countP fun imp => imp.item == .finite item) =
      views.countP fun v => v.saw item := by
  induction views with
  | nil => rfl
  | cons v views ih =>
      rw [List.flatMap_cons, List.flatten_append, List.countP_append, ih, ← v.reported_eq,
        v.count_item hitem, List.countP_cons, Nat.add_comm]

theorem AllArrive.reporting_sum {lib : Library} {day : Int} {tr : Steps} {views : List Viewing}
    (h : AllArrive lib day tr views) (hdays : WithinDays tr) {item : Int} (hitem : 0 < item) :
    (tr.map fun e => e.1.reporting lib day item e.2).sum = views.countP fun v => v.saw item := by
  obtain ⟨batches, hperm, hcarries⟩ := h
  have hbatches : ∀ batch ∈ batches, batch.length ≤ kMaxBatch ∧ ∀ imp ∈ batch, imp.Small := by
    intro batch hbatch
    obtain ⟨v, -, hv⟩ := List.mem_flatMap.1 (hperm.mem_iff.1 hbatch)
    refine ⟨v.length_batch_le hv, fun imp himp => v.small_of_mem ?_⟩
    rw [v.reported_eq]
    exact List.mem_flatten_of_mem hv himp
  rw [App.reporting_sum hdays, naming_sum hcarries hbatches, ← countP_views hitem]
  exact hperm.flatten.countP_eq _

/-- The card is seen, and the page is left. -/
def oneView (page : Page (Element [⟨7, 0⟩])) (hleft : page.queue = [])
    (hran : Runs.exec (Page.step (cardDataset [⟨7, 0⟩]) true) (opened [⟨7, 0⟩])
      [.intersection ⟨⟨0, by decide⟩, true, 1⟩ 1, .dwell 1, .pagehide] = some page) : Viewing where
  cards := [⟨7, 0⟩]
  sendBeacon := true
  callbacks := [.intersection ⟨⟨0, by decide⟩, true, 1⟩ 1, .dwell 1, .pagehide]
  page := page
  few := by decide
  small := by simp
  ran := hran
  left := hleft

end SSize.App
