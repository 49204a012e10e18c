import SSize.Server.Funnel

/-!
# The top items over a run

`ssize-admin stats` divides doubles to rank the items. While the counts are small enough the
list it prints is the one that the requests themselves call for, and in the order of the exact
quotients.
-/

namespace SSize

open Lib

variable {lib : Library} {tr : Steps} {t : Server}

/-- The line of an item in terms of the visits. -/
def visitedLine (lib : Library) (since : TsMs) (tr : Steps) (i : ItemRow) : TopLine where
  id := i.id
  title := i.title
  imp := (tr.visits lib since .impression).countP fun hit => hit.item == some i.id
  out := (tr.visits lib since .outbound).countP fun hit => hit.item == some i.id

theorem itemLine_logged (since : TsMs) (events : List Event) (i : ItemRow) :
    itemLine ((events.filter (Event.recent since)).map eventRow) i =
      { id := i.id
        title := i.title
        imp := (hitsOf since .impression events).countP fun hit => hit.item == some i.id
        out := (hitsOf since .outbound events).countP fun hit => hit.item == some i.id } := by
  have hcount : ∀ type : EventType,
      ((events.filter (Event.recent since)).map eventRow).countP
          (fun r => r.itemId == some i.id && r.type == type.toString) =
        (hitsOf since type events).countP fun hit => hit.item == some i.id := by
    intro type
    rw [hitsOf, List.countP_map, List.countP_map, List.countP_filter, List.countP_filter]
    apply List.countP_congr
    intro ev _
    have htype : ((eventRow ev).type == type.toString) = (ev.type == type) := by
      rw [Bool.eq_iff_iff, beq_iff_eq, beq_iff_eq]
      exact ⟨EventType.toString_injective, congrArg EventType.toString⟩
    have hitem : (eventRow ev).itemId = ev.hit.item := rfl
    rw [Function.comp_apply, Function.comp_apply, htype, hitem, Bool.and_assoc,
      Bool.and_comm (ev.type == type)]
  rw [itemLine, hcount, hcount]

theorem Complete.itemLine {now : TsMs} {days : Int} (h : Complete lib now days tr t)
    (i : ItemRow) :
    itemLine (((tr.logged lib).filter (Event.recent (windowStart now days))).map eventRow) i =
      visitedLine lib (windowStart now days) tr i := by
  rw [itemLine_logged, h.visits, h.visits]
  rfl

theorem small_visitedLine {since : TsMs} {i : ItemRow}
    (hsmall : ∀ type, (tr.visits lib since type).length < 2 ^ 26)
    (himp : 20 ≤ (visitedLine lib since tr i).imp) : (visitedLine lib since tr i).Small := by
  refine ⟨by omega, ?_, ?_⟩
  · exact Nat.lt_of_le_of_lt List.countP_le_length (hsmall .impression)
  · exact Nat.lt_of_le_of_lt List.countP_le_length (hsmall .outbound)

/-- While the counts are small enough, the list is of items that had 20 impressions or more,
with the numbers of the visits. It falls, and an item that is not on it has no better quotient
than any of the ten that are. -/
theorem topItems_exact {now : TsMs} {days : Int} {items : ItemsTable} {lines : List TopLine}
    (h : Complete lib now days tr t)
    (hsmall : ∀ type, (tr.visits lib (windowStart now days) type).length < 2 ^ 26)
    (htop : TopItems (windowStart now days) items t.pipeline.db.events.rows lines) :
    (∀ line ∈ lines, 20 ≤ line.imp ∧
        ∃ i ∈ items.rows, visitedLine lib (windowStart now days) tr i = line) ∧
      lines.Nodup ∧ lines.Pairwise TopLine.AtLeast ∧
      ∀ i ∈ items.rows, 20 ≤ (visitedLine lib (windowStart now days) tr i).imp →
        visitedLine lib (windowStart now days) tr i ∉ lines →
        lines.length = 10 ∧
          ∀ line ∈ lines, line.AtLeast (visitedLine lib (windowStart now days) tr i) := by
  have hranked : IsTop TopLine.rate 10
      ((items.rows.map (visitedLine lib (windowStart now days) tr)).filter fun line =>
        20 ≤ line.imp) lines := by
    apply htop.perm
    rw [← funext h.itemLine, ← itemLine_perm h.rows]
    exact topGroups_perm _ items _
  have hmem : ∀ line ∈ lines, 20 ≤ line.imp ∧
      ∃ i ∈ items.rows, visitedLine lib (windowStart now days) tr i = line := by
    intro line hline
    have hall := hranked.mem hline
    rw [List.mem_filter, decide_eq_true_eq] at hall
    exact ⟨hall.2, List.mem_map.1 hall.1⟩
  have hlines : ∀ line ∈ lines, line.Small := by
    intro line hline
    obtain ⟨himp, i, -, rfl⟩ := hmem line hline
    exact small_visitedLine hsmall himp
  refine ⟨hmem, hranked.nodup ?_, ?_, ?_⟩
  · apply List.Nodup.filter
    apply List.Nodup.of_map TopLine.id
    rw [List.map_map]
    exact items.nodup_map_rows fun _ => rfl
  · exact hranked.falls.imp_of_mem fun ha hb hrate =>
      TopLine.atLeast_of_rate_le (hlines _ ha) (hlines _ hb) hrate
  · intro i hi himp hout
    have hall : visitedLine lib (windowStart now days) tr i ∈
        (items.rows.map (visitedLine lib (windowStart now days) tr)).filter fun line =>
          20 ≤ line.imp :=
      List.mem_filter.2 ⟨List.mem_map_of_mem hi, decide_eq_true himp⟩
    obtain ⟨hfull, hbelow⟩ := hranked.outranks hall hout
    exact ⟨hfull, fun line hline => TopLine.atLeast_of_rate_le (hlines line hline)
      (small_visitedLine hsmall himp) (hbelow line hline)⟩

/-- Every body is a batch of 20 that names item 7. -/
def Library.crowded : Library :=
  { Library.bare with
    parseJson := fun _ => some (.array (List.replicate 20 (.object [(bytes "item", .integer 7)]))) }

def hoodie : ItemRow where
  id := 7
  title := bytes "hoodie"
  description := []
  priceKopek := 100
  currency := bytes "RUB"
  productUrl := bytes "https://p/7"
  status := .published
  score := 0
  createdAt := 0
  updatedAt := 0

/-- A batch of impressions and a click, flushed in one round. -/
def dayOfHoodie : List ServerAct :=
  [.setCatalog (.ofRows [{ id := 7, productUrl := bytes "https://p/7" }] []),
    .request (visitorAt 1000)
      { method := .post, target := bytes "/api/ev", userAgent := bytes "Mozilla/5.0" }
      (bytes "10.0.0.1")] ++
  List.replicate 20 .push ++
  [.request (visitorAt 2000) { target := bytes "/r/7", userAgent := bytes "Mozilla/5.0" }
      (bytes "10.0.0.1"),
    .push] ++
  List.replicate 8 (.worker firstTick)

theorem topItems_dayOfHoodie :
    ∃ t, Runs.exec (calmStep .crowded) (.init {} 0) dayOfHoodie = some t ∧
      ∀ lines, TopItems (windowStart 90000000 7) ⟨[hoodie], by decide⟩ t.pipeline.db.events.rows
        lines → lines = [{ id := 7, title := bytes "hoodie", imp := 20, out := 1 }] := by
  have hsome : (Runs.exec (calmStep .crowded) (.init {} 0) dayOfHoodie).isSome = true := by
    decide +kernel
  obtain ⟨t, ht⟩ := Option.isSome_iff_exists.1 hsome
  refine ⟨t, ht, ?_⟩
  intro lines htop
  have hcomplete : Complete .crowded 90000000 7
      (Runs.trace (calmStep .crowded) (.init {} 0) dayOfHoodie) t := by
    refine ⟨⟨{}, 0, _, ht, rfl⟩, ?_, by decide +kernel, by decide +kernel, by decide +kernel⟩
    intro e he amb req peer hrequest cfg item position
    have hmem : ServerAct.request amb req peer ∈ dayOfHoodie := by
      rw [← Runs.map_snd_trace ht, ← hrequest]
      exact List.mem_map_of_mem he
    simp only [dayOfHoodie, List.mem_append, List.mem_cons, List.not_mem_nil,
      List.mem_replicate, ServerAct.request.injEq, reduceCtorEq, false_or, or_false,
      and_false] at hmem
    rcases hmem with h | h <;> rw [h.1] <;> rfl
  have hsmall : ∀ type, (Steps.visits .crowded (windowStart 90000000 7) type
      (Runs.trace (calmStep .crowded) (.init {} 0) dayOfHoodie)).length < 2 ^ 26 := by
    intro type
    cases type <;> decide +kernel
  obtain ⟨hmem, hnodup, -, hout⟩ := topItems_exact hcomplete hsmall htop
  have hline : visitedLine .crowded (windowStart 90000000 7)
      (Runs.trace (calmStep .crowded) (.init {} 0) dayOfHoodie) hoodie =
        { id := 7, title := bytes "hoodie", imp := 20, out := 1 } := by
    decide +kernel
  have honly : ∀ line ∈ lines, line = { id := 7, title := bytes "hoodie", imp := 20, out := 1 } := by
    intro line hmemLine
    obtain ⟨-, i, hi, rfl⟩ := hmem line hmemLine
    rw [List.mem_singleton.1 hi, hline]
  cases lines with
  | nil =>
      have hfull := (hout hoodie List.mem_cons_self (by rw [hline]) List.not_mem_nil).1
      simp at hfull
  | cons line rest =>
      cases rest with
      | nil => rw [honly line List.mem_cons_self]
      | cons next rest =>
          have hsame : next = line := by
            rw [honly line List.mem_cons_self, honly next (by simp)]
          simp [hsame] at hnodup

end SSize
