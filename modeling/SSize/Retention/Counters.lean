import SSize.Retention.Archive

/-!
# Whether a recount can lower a counter

The rollup overwrites a row with a recount of the events that are left, so it is
harmless as long as no event of a day that is still recounted has been pruned.
With three days of retention or more the cutoff is behind yesterday's first
millisecond whatever the hour; with two days it is too, except around 1970, where
the truncating division makes one day out of two; with less, yesterday's events
go before yesterday's last recount.
-/

namespace SSize

open Lib

structure DailyRow.NoMore (old new : DailyRow) : Prop where
  impressions : old.impressions ≤ new.impressions
  cardClicks : old.cardClicks ≤ new.cardClicks
  outbounds : old.outbounds ≤ new.outbounds

theorem DailyRow.NoMore.refl (row : DailyRow) : row.NoMore row :=
  ⟨Int.le_refl _, Int.le_refl _, Int.le_refl _⟩

theorem DailyRow.NoMore.trans {a b c : DailyRow} (hab : a.NoMore b) (hbc : b.NoMore c) :
    a.NoMore c :=
  ⟨Int.le_trans hab.impressions hbc.impressions, Int.le_trans hab.cardClicks hbc.cardClicks,
    Int.le_trans hab.outbounds hbc.outbounds⟩

/-- Every row is still there and no counter of it went down. -/
def NotLowered (before after : DailyTable) : Prop :=
  ∀ key old, before.find? key = some old → ∃ new, after.find? key = some new ∧ old.NoMore new

/-! ## Days and cutoffs -/

theorem lt_of_tdiv_day (ts : Int) : (ts.tdiv dayMs - 1) * dayMs < ts := by
  have hsplit := Int.mul_tdiv_add_tmod ts dayMs
  have hlow := Int.lt_tmod_of_pos ts (b := dayMs) (by decide)
  unfold dayMs at *
  omega

theorem le_of_tdiv_day_pos {ts : Int} (h : 1 ≤ ts.tdiv dayMs) : ts.tdiv dayMs * dayMs ≤ ts := by
  have hsplit := Int.mul_tdiv_add_tmod ts dayMs
  have hlow := lt_of_tdiv_day ts
  unfold dayMs at *
  have hnonneg : 0 ≤ ts := by omega
  have hmod := Int.tmod_nonneg 86400000 hnonneg
  omega

theorem lt_next_day (now : Int) : now < (now.tdiv dayMs + 1) * dayMs := by
  have hsplit := Int.mul_tdiv_add_tmod now dayMs
  have hlt := Int.tmod_lt_of_pos now (b := dayMs) (by decide)
  unfold dayMs at *
  omega

/-- Enough retention for the two days that are rolled up again. -/
def Retains (days : Nat) (now : TsMs) : Prop := 3 ≤ days ∨ (days = 2 ∧ 2 * dayMs ≤ now)

theorem Retains.mono {days : Nat} {now now' : TsMs} (h : Retains days now) (hle : now ≤ now') :
    Retains days now' := by
  rcases h with h | ⟨h, hclock⟩
  · exact Or.inl h
  · exact Or.inr ⟨h, Int.le_trans hclock hle⟩

theorem cutoff_le {days : Nat} {now ts : Int} (hdays : Retains days now)
    (hday : now.tdiv dayMs - 1 ≤ ts.tdiv dayMs) : now - days * dayMs ≤ ts := by
  have hnow := lt_next_day now
  have hts := lt_of_tdiv_day ts
  rcases hdays with hdays | ⟨rfl, hclock⟩
  · have hcutoff : 3 * dayMs ≤ days * dayMs :=
      Int.mul_le_mul_of_nonneg_right (by omega) (by decide)
    unfold dayMs at *
    omega
  · have hclock' : 2 * 86400000 ≤ now := hclock
    have htoday : 1 ≤ ts.tdiv dayMs := by
      unfold dayMs at *
      omega
    have hpos := le_of_tdiv_day_pos htoday
    unfold dayMs at *
    omega

theorem not_expired {days : Nat} {now : TsMs} {r : EventRow} (hdays : Retains days now)
    (hday : now.tdiv dayMs - 1 ≤ dayOf r.ts) : expired days now r = false := by
  have hcutoff : now - days * dayMs ≤ r.ts := cutoff_le hdays hday
  simpa [expired] using hcutoff

/-! ## Recounts -/

theorem sumType_append (type : EventType) (group group' : List EventRow) :
    sumType type group ≤ sumType type (group ++ group') := by
  unfold sumType
  rw [List.countP_append]
  omega

theorem countedOn_append (rows rows' : List EventRow) (day item : Int) :
    countedOn (rows ++ rows') day item = countedOn rows day item ++ countedOn rows' day item :=
  List.filter_append ..

theorem recount_append (rows rows' : List EventRow) (day item : Int) :
    (recount rows day item).NoMore (recount (rows ++ rows') day item) := by
  constructor <;> simp only [recount, countedOn_append] <;> exact sumType_append _ _ _

/-- The prune does not touch the days that are rolled up. -/
theorem countedOn_prune {days : Nat} {now : TsMs} (hdays : Retains days now)
    (rows : List EventRow) {day : Int} (item : Int) (hday : now.tdiv dayMs - 1 ≤ day) :
    countedOn (rows.filter fun r => !expired days now r) day item = countedOn rows day item := by
  unfold countedOn
  rw [List.filter_filter]
  apply List.filter_congr
  intro r _
  by_cases hr : dayOf r.ts = day
  · have hstays := not_expired hdays (hr ▸ hday)
    simp [hstays]
  · simp [hr]

theorem recount_prune {days : Nat} {now : TsMs} (hdays : Retains days now)
    (rows : List EventRow) {day : Int} (item : Int) (hday : now.tdiv dayMs - 1 ≤ day) :
    recount (rows.filter fun r => !expired days now r) day item = recount rows day item := by
  simp only [recount, countedOn_prune hdays rows item hday]

theorem find?_maintenance {days : Int} {now : TsMs} {db : Db} {day item : Int} :
    (maintenance { now := now } days db).1.dailyItemStats.find? (day, item) =
      if now.tdiv dayMs - 1 ≤ day ∧ day ≤ now.tdiv dayMs ∧
          countedOn db.events.rows day item ≠ [] then
        some (recount db.events.rows day item)
      else db.dailyItemStats.find? (day, item) := by
  rw [maintenance_clean, pruneEvents_dailyItemStats, find?_rollupDaily]

/-! ## Enough retention -/

/-- A counter is covered by the events that are left, or its day is over for
good. -/
structure Recountable (days : Nat) (s : Archive) : Prop where
  retains : Retains days s.clock
  covered : ∀ day item old, s.db.dailyItemStats.find? (day, item) = some old →
    old.NoMore (recount s.db.events.rows day item) ∨ day < s.clock.tdiv dayMs - 1

variable {days : Nat} {s t : Archive}

theorem Recountable.later {now : TsMs} (hs : Recountable days s) (hle : s.clock ≤ now)
    {day item : Int} {old : DailyRow}
    (hold : s.db.dailyItemStats.find? (day, item) = some old) :
    old.NoMore (recount s.db.events.rows day item) ∨ day < now.tdiv dayMs - 1 := by
  have hday : s.clock.tdiv dayMs ≤ now.tdiv dayMs := dayOf_mono hle
  rcases hs.covered day item old hold with hmore | hover
  · exact Or.inl hmore
  · exact Or.inr (by omega)

theorem Recountable.maintain {now : TsMs} (hs : Recountable days s) (hle : s.clock ≤ now)
    {day item : Int} {old : DailyRow}
    (hold : s.db.dailyItemStats.find? (day, item) = some old) :
    ∃ new, (maintenance { now := now } days s.db).1.dailyItemStats.find? (day, item) = some new ∧
      old.NoMore new := by
  rw [find?_maintenance]
  split
  · next hrange =>
      refine ⟨_, rfl, ?_⟩
      rcases hs.later hle hold with hmore | hover
      · exact hmore
      · omega
  · exact ⟨old, hold, .refl old⟩

theorem Recountable.step {a : ArchiveAct} (hs : Recountable days s)
    (h : archiveStep days s a = some t) : Recountable days t := by
  obtain ⟨hle, hclock, hcases⟩ := archiveStep_cases h
  refine ⟨hclock ▸ hs.retains.mono hle, fun day item old hold => ?_⟩
  rw [hclock]
  obtain ⟨-, hdb, -⟩ | ⟨now, batch, -, hcall, -⟩ | ⟨now, rfl, hdb, -⟩ := hcases
  · rw [hdb] at hold ⊢
    exact hs.later hle hold
  · obtain ⟨hrows, -, hdaily⟩ := insertEvents_ok hcall
    rw [hdaily] at hold
    rw [hrows]
    rcases hs.later hle hold with hmore | hover
    · exact Or.inl (hmore.trans (recount_append _ _ _ _))
    · exact Or.inr hover
  · have hle : s.clock ≤ now := hle
    have hretains : Retains days now := hs.retains.mono hle
    have hrows : t.db.events.rows = s.db.events.rows.filter fun r => !expired days now r := by
      rw [hdb]
      exact maintenance_ok (congrArg Prod.snd (maintenance_clean now days s.db))
    show _ ∨ day < now.tdiv dayMs - 1
    by_cases hday : now.tdiv dayMs - 1 ≤ day
    · left
      rw [hrows, recount_prune hretains _ _ hday]
      rw [hdb, find?_maintenance] at hold
      split at hold
      · cases hold
        exact .refl _
      · rcases hs.later hle hold with hmore | hover
        · exact hmore
        · omega
    · exact Or.inr (by omega)

theorem Recountable.init {clock : TsMs} (hdays : Retains days clock) :
    Recountable days (Archive.init clock) where
  retains := hdays
  covered day item old hold := by
    simp [Archive.init, Table.find?] at hold

/-! ## Too little retention -/

def impressionAt (ts : TsMs) : Event where
  ts := ts
  itemId := some 1
  uaClass := bytes "desktop"

theorem insertEvents_impressions (db : Db) (ts : TsMs) (n : Nat) :
    ∃ db', insertEvents {} db (List.replicate n (impressionAt ts)) = (db', .ok ()) := by
  have htokens : batchTokens (List.replicate n (impressionAt ts)) = [] := by
    simp [batchTokens, eventRow, impressionAt]
  have hclean : InsertsCleanly {} db (List.replicate n (impressionAt ts)) := by
    refine ⟨rfl, fun _ _ => rfl, rfl, ?_⟩
    rw [htokens, List.append_nil]
    exact db.events.unique
  have hok := (insertEvents_isOk_iff {} db _).2 (Or.inr hclean)
  exact ⟨_, Prod.ext rfl hok⟩

theorem exists_insert (days : Int) {s : Archive} {now : TsMs} (hle : s.clock ≤ now) (ts : TsMs)
    (n : Nat) : ∃ t, archiveStep days s (.insert now (List.replicate n (impressionAt ts))) =
        some t ∧ t.clock = now ∧
      t.db.events.rows = s.db.events.rows ++ List.replicate n (eventRow (impressionAt ts)) ∧
      t.db.dailyItemStats = s.db.dailyItemStats := by
  obtain ⟨db', hcall⟩ := insertEvents_impressions s.db ts n
  obtain ⟨hrows, -, hdaily⟩ := insertEvents_ok hcall
  have htime : ¬ (ArchiveAct.insert now (List.replicate n (impressionAt ts))).time < s.clock :=
    Int.not_lt.2 hle
  refine ⟨_, by rw [archiveStep, if_neg htime, hcall], rfl, ?_, hdaily⟩
  rw [hrows, List.map_replicate]

theorem exists_maintain (days : Int) {s : Archive} {now : TsMs} (hle : s.clock ≤ now) :
    ∃ t, archiveStep days s (.maintain now) = some t ∧ t.clock = now ∧
      t.db = (maintenance { now := now } days s.db).1 := by
  have htime : ¬ (ArchiveAct.maintain now).time < s.clock := Int.not_lt.2 hle
  exact ⟨_, by rw [archiveStep, if_neg htime, maintenance_clean], rfl, rfl⟩

theorem recount_impressions (ts : TsMs) (n : Nat) :
    (recount (List.replicate n (eventRow (impressionAt ts))) (dayOf ts) 1).impressions = n := by
  have hcounted : countedOn (List.replicate n (eventRow (impressionAt ts))) (dayOf ts) 1 =
      List.replicate n (eventRow (impressionAt ts)) := by
    apply List.filter_replicate_of_pos
    have hua : (bytes "desktop" != bytes "bot") = true := by decide
    simp [eventRow, impressionAt, EventRow.countable, hua]
  simp only [recount, hcounted, sumType]
  rw [List.countP_replicate, if_pos (by simp [eventRow, impressionAt])]

/-- Two impressions that are counted and expire in the same call, then one more
of the same day. -/
theorem lowered_of_expired (days : Int) {clock now ts : TsMs} (hclock : clock ≤ now)
    (hexpired : ts < now - days * dayMs) (hfrom : now.tdiv dayMs - 1 ≤ dayOf ts)
    (hto : dayOf ts ≤ now.tdiv dayMs) :
    ∃ as s t, Runs.exec (archiveStep days) (Archive.init clock) as = some s ∧
      archiveStep days s (.maintain now) = some t ∧
      ¬ NotLowered s.db.dailyItemStats t.db.dailyItemStats := by
  obtain ⟨s₁, h₁, hclock₁, hrows₁, -⟩ :=
    exists_insert days (s := Archive.init clock) hclock ts 2
  obtain ⟨s₂, h₂, hclock₂, hdb₂⟩ := exists_maintain days (Int.le_of_eq hclock₁)
  obtain ⟨s₃, h₃, hclock₃, hrows₃, hdaily₃⟩ := exists_insert days (Int.le_of_eq hclock₂) ts 1
  obtain ⟨s₄, h₄, -, hdb₄⟩ := exists_maintain days (Int.le_of_eq hclock₃)
  have hrun : Runs.exec (archiveStep days) (Archive.init clock)
      [.insert now (List.replicate 2 (impressionAt ts)), .maintain now,
        .insert now (List.replicate 1 (impressionAt ts))] = some s₃ := by
    rw [Runs.exec_cons, h₁, Option.bind_some, Runs.exec_cons, h₂, Option.bind_some,
      Runs.exec_cons, h₃, Option.bind_some, Runs.exec_nil]
  refine ⟨_, s₃, s₄, hrun, h₄, fun hkept => ?_⟩
  have hinit : (Archive.init clock).db.events.rows = [] := rfl
  rw [hinit, List.nil_append] at hrows₁
  have hcount : ∀ n, 0 < n →
      countedOn (List.replicate n (eventRow (impressionAt ts))) (dayOf ts) 1 ≠ [] := by
    intro n hn hnone
    have hzero := recount_impressions ts n
    simp only [recount, hnone, sumType, List.countP_nil] at hzero
    omega
  have hgone : s₂.db.events.rows = [] := by
    have hrows : s₂.db.events.rows = s₁.db.events.rows.filter fun r => !expired days now r := by
      rw [hdb₂]
      exact maintenance_ok (congrArg Prod.snd (maintenance_clean now days s₁.db))
    rw [hrows, hrows₁, List.filter_eq_nil_iff]
    intro r hr
    rw [List.eq_of_mem_replicate hr]
    have hold : expired days now (eventRow (impressionAt ts)) = true := decide_eq_true hexpired
    simp [hold]
  rw [hgone, List.nil_append] at hrows₃
  have hbefore : s₃.db.dailyItemStats.find? (dayOf ts, 1) = some (recount s₁.db.events.rows
      (dayOf ts) 1) := by
    rw [hdaily₃, hdb₂, find?_maintenance, hrows₁, if_pos ⟨hfrom, hto, hcount 2 (by decide)⟩]
  have hafter : s₄.db.dailyItemStats.find? (dayOf ts, 1) = some (recount s₃.db.events.rows
      (dayOf ts) 1) := by
    rw [hdb₄, find?_maintenance, hrows₃, if_pos ⟨hfrom, hto, hcount 1 (by decide)⟩]
  obtain ⟨new, hnew, hmore⟩ := hkept _ _ hbefore
  rw [hafter, Option.some.injEq] at hnew
  have himpressions := hmore.impressions
  rw [← hnew, hrows₁, hrows₃, recount_impressions, recount_impressions] at himpressions
  exact absurd himpressions (by decide)

/-- With less retention there is a call at which an event of a recounted day has
expired. -/
theorem exists_expired {days : Nat} {clock : Int} (h : ¬ Retains days clock) :
    ∃ now ts : Int, clock ≤ now ∧ ts < now - days * dayMs ∧
      now.tdiv dayMs - 1 ≤ ts.tdiv dayMs ∧ ts.tdiv dayMs ≤ now.tdiv dayMs := by
  have hdays : days = 0 ∨ days = 1 ∨ days = 2 ∧ clock < 2 * dayMs := by
    unfold Retains at h
    have hclock : ¬ 2 * dayMs ≤ clock ↔ clock < 2 * dayMs := Int.not_le
    omega
  have hediv : ∀ x : Int, 0 ≤ x → x.tdiv dayMs = x / 86400000 := fun x hx =>
    Int.tdiv_eq_ediv_of_nonneg hx
  rcases hdays with rfl | rfl | ⟨rfl, hclock⟩
  · -- Everything up to this moment expires.
    refine ⟨max clock 1, max clock 1 - 1, by omega, ?_⟩
    rw [hediv _ (by omega), hediv _ (by omega)]
    unfold dayMs
    omega
  · -- At noon the first half of yesterday has expired.
    refine ⟨max clock 2 * 86400000 + 43200000, (max clock 2 - 1) * 86400000 + 1, by omega, ?_⟩
    rw [hediv _ (by omega), hediv _ (by omega)]
    unfold dayMs
    omega
  · -- The last day before the epoch counts as its first day.
    have hday : (-64800000 : Int).tdiv dayMs = 0 := by decide
    unfold dayMs at hclock
    refine ⟨max clock 129600000, -64800000, by omega, ?_⟩
    rw [hediv _ (by omega), hday]
    unfold dayMs
    omega

/-- Maintenance never lowers a counter, whatever is inserted and whenever it is
called, exactly with three days of retention or more, or with two if the clock
does not start before 1970-01-03. -/
theorem maintenance_notLowered_iff (days : Nat) (clock : TsMs) :
    (∀ (as : List ArchiveAct) (s t : Archive) (now : TsMs),
        Runs.exec (archiveStep days) (Archive.init clock) as = some s →
        archiveStep days s (.maintain now) = some t →
        NotLowered s.db.dailyItemStats t.db.dailyItemStats) ↔
      3 ≤ days ∨ (days = 2 ∧ 2 * dayMs ≤ clock) := by
  constructor
  · intro hall
    by_contra hdays
    obtain ⟨now, ts, hclock, hexpired, hfrom, hto⟩ := exists_expired hdays
    obtain ⟨as, s, t, hrun, hstep, hlowered⟩ :=
      lowered_of_expired days hclock hexpired hfrom hto
    exact hlowered (hall as s t now hrun hstep)
  · intro hdays as s t now hrun hstep
    have hs : Recountable days s := by
      apply Runs.exec_invariant (I := Recountable days) ?_ (.init hdays) hrun
      intro u a v hu huv
      exact hu.step huv
    obtain ⟨hle, -, ⟨⟨_, h | h⟩, -⟩ | ⟨_, _, h, -⟩ | ⟨now', h, hdb, -⟩⟩ := archiveStep_cases hstep
    · cases h
    · cases h
    · cases h
    · cases h
      intro key old hold
      rw [hdb]
      exact hs.maintain hle hold

/-- One day of retention, two calls at noon of 2024-10-04. -/
theorem one_day_lowers :
    ¬ ∀ (days : Nat) (clock : TsMs) (as : List ArchiveAct) (s t : Archive) (now : TsMs),
      Runs.exec (archiveStep days) (Archive.init clock) as = some s →
        archiveStep days s (.maintain now) = some t →
          NotLowered s.db.dailyItemStats t.db.dailyItemStats := by
  intro h
  have hclock : (1728000000000 : TsMs) ≤ 1728043200000 := by decide
  have hexpired : (1727913600001 : TsMs) < 1728043200000 - (1 : Nat) * dayMs := by decide
  obtain ⟨as, s, t, hrun, hstep, hlowered⟩ :=
    lowered_of_expired (1 : Nat) hclock hexpired (by decide) (by decide)
  exact hlowered (h 1 _ as s t _ hrun hstep)

end SSize
