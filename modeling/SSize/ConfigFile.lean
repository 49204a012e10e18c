import SSize.Config
import SSize.Models

/-!
# Loading the configuration (`config.cpp`)

toml++ is a parameter: what it makes of a file and of a node that is asked for a value
of some type. The integers are read as `int64` and cast to the types of their fields
without a look at their size, so they are taken as written exactly when they fit.
-/

namespace SSize

inductive TomlNode where
  | string (s : Text)
  | integer (n : Int)
  | boolean (b : Bool)
  | table (entries : List (Text × TomlNode))
  /-- A float, a date, a time or an array, as it was written. -/
  | other (literal : Text)

abbrev TomlTable := List (Text × TomlNode)

structure Toml where
  /-- `toml::parse_file`, with the description of the error where it throws. -/
  parseFile : Text → Except Text TomlTable
  /-- `node.value<std::string>()`, and so on: empty when the node is of another type. -/
  string : TomlNode → Option Text
  int64 : TomlNode → Option Int
  bool : TomlNode → Option Bool

variable {α : Type}

def getOr (value : TomlNode → Option α) (tbl : TomlTable) (key : String) (fallback : α) :
    Except Text α :=
  match tbl.lookup (bytes key) with
  | none => .ok fallback
  | some node =>
      match value node with
      | some v => .ok v
      | none => .error (bytes "config: bad type for key '" ++ bytes key ++ bytes "'")

/-- `tbl[name].as_table()`. -/
def asTable (tbl : TomlTable) (name : String) : Option TomlTable :=
  match tbl.lookup (bytes name) with
  | some (.table entries) => some entries
  | _ => none

/-- `if (auto section = tbl[name].as_table())`. -/
def inSection (tbl : TomlTable) (name : String) (read : TomlTable → Config → Except Text Config)
    (cfg : Config) : Except Text Config :=
  match asTable tbl name with
  | some entries => read entries cfg
  | none => .ok cfg

variable (toml : Toml)

def readHttp (http : TomlTable) (cfg : Config) : Except Text Config := do
  let bindAddress ← getOr toml.string http "bind_address" cfg.bindAddress
  let port ← getOr toml.int64 http "port" cfg.port
  let ioThreads ← getOr toml.int64 http "io_threads" cfg.ioThreads
  let basePath ← getOr toml.string http "base_path" cfg.basePath
  return { cfg with
    bindAddress := bindAddress
    port := castUint16 port
    ioThreads := castInt ioThreads
    basePath := basePath }

def readStorage (st : TomlTable) (cfg : Config) : Except Text Config := do
  let dbPath ← getOr toml.string st "db_path" cfg.dbPath
  let migrationsDir ← getOr toml.string st "migrations_dir" cfg.migrationsDir
  let templatesDir ← getOr toml.string st "templates_dir" cfg.templatesDir
  let staticDir ← getOr toml.string st "static_dir" cfg.staticDir
  let mediaRoot ← getOr toml.string st "media_root" cfg.mediaRoot
  return { cfg with
    dbPath := dbPath
    migrationsDir := migrationsDir
    templatesDir := templatesDir
    staticDir := staticDir
    mediaRoot := mediaRoot }

def readCatalog (cat : TomlTable) (cfg : Config) : Except Text Config := do
  let refreshInterval ← getOr toml.int64 cat "refresh_interval_sec" cfg.refreshInterval
  return { cfg with refreshInterval := refreshInterval }

def readMetrics (m : TomlTable) (cfg : Config) : Except Text Config := do
  let eventFlushInterval ← getOr toml.int64 m "flush_interval_ms" cfg.eventFlushInterval
  let eventQueueCapacity ← getOr toml.int64 m "queue_capacity" (castInt64 cfg.eventQueueCapacity)
  let eventRetentionDays ← getOr toml.int64 m "retention_days" cfg.eventRetentionDays
  let ipHashSecret ← getOr toml.string m "ip_hash_secret" []
  let postbackSecret ← getOr toml.string m "postback_secret" []
  let metricaCounter ← getOr toml.int64 m "metrica_counter" 0
  return { cfg with
    eventFlushInterval := eventFlushInterval
    eventQueueCapacity := castUint64 eventQueueCapacity
    eventRetentionDays := castInt eventRetentionDays
    ipHashSecret := ipHashSecret
    postbackSecret := postbackSecret
    metricaCounter := castUint64 metricaCounter }

def readCookies (c : TomlTable) (cfg : Config) : Except Text Config := do
  let cookieSecure ← getOr toml.bool c "secure" cfg.cookieSecure
  let sessionIdleTtl ← getOr toml.int64 c "session_idle_sec" cfg.sessionIdleTtl
  return { cfg with cookieSecure := cookieSecure, sessionIdleTtl := sessionIdleTtl }

def configOf (tbl : TomlTable) : Except Text Config := do
  let cfg ← inSection tbl "http" (readHttp toml) {}
  let cfg ← inSection tbl "storage" (readStorage toml) cfg
  let cfg ← inSection tbl "catalog" (readCatalog toml) cfg
  let cfg ← inSection tbl "metrics" (readMetrics toml) cfg
  let cfg ← inSection tbl "cookies" (readCookies toml) cfg
  -- Refusing to start beats silently hashing every visitor's IP with a known salt.
  if cfg.ipHashSecret.isEmpty then
    .error (bytes "config: metrics.ip_hash_secret must be set")
  else .ok cfg

def loadConfig (path : Text) : Except Text Config :=
  match toml.parseFile path with
  | .error description =>
      .error (bytes "config: cannot parse " ++ path ++ bytes ": " ++ description)
  | .ok tbl => configOf toml tbl

/-! ## What can be read -/

/-- The key is not there, or it has a value of the type. -/
def Typed (value : TomlNode → Option α) (tbl : TomlTable) (key : String) : Prop :=
  ∀ node, tbl.lookup (bytes key) = some node → (value node).isSome = true

/-- The value of a key, or what stands for it. -/
def valueOr (value : TomlNode → Option α) (tbl : TomlTable) (key : String) (fallback : α) : α :=
  ((tbl.lookup (bytes key)).bind value).getD fallback

/-- Every key of the table that `load_config` looks at has its type. -/
structure SectionTyped (strings ints bools : List String) (tbl : TomlTable) : Prop where
  strings : ∀ key ∈ strings, Typed toml.string tbl key
  ints : ∀ key ∈ ints, Typed toml.int64 tbl key
  bools : ∀ key ∈ bools, Typed toml.bool tbl key

abbrev HttpTyped : TomlTable → Prop :=
  SectionTyped toml ["bind_address", "base_path"] ["port", "io_threads"] []

abbrev StorageTyped : TomlTable → Prop :=
  SectionTyped toml ["db_path", "migrations_dir", "templates_dir", "static_dir", "media_root"] [] []

abbrev CatalogTyped : TomlTable → Prop := SectionTyped toml [] ["refresh_interval_sec"] []

abbrev MetricsTyped : TomlTable → Prop :=
  SectionTyped toml ["ip_hash_secret", "postback_secret"]
    ["flush_interval_ms", "queue_capacity", "retention_days", "metrica_counter"] []

abbrev CookiesTyped : TomlTable → Prop := SectionTyped toml [] ["session_idle_sec"] ["secure"]

/-- The types are right and the secret is set. -/
structure Readable (tbl : TomlTable) : Prop where
  http : ∀ t, asTable tbl "http" = some t → HttpTyped toml t
  storage : ∀ t, asTable tbl "storage" = some t → StorageTyped toml t
  catalog : ∀ t, asTable tbl "catalog" = some t → CatalogTyped toml t
  metrics : ∀ t, asTable tbl "metrics" = some t → MetricsTyped toml t
  cookies : ∀ t, asTable tbl "cookies" = some t → CookiesTyped toml t
  secret : ∃ t, asTable tbl "metrics" = some t ∧ valueOr toml.string t "ip_hash_secret" [] ≠ []

variable {toml}

theorem bind_eq_ok_iff {β : Type} {x : Except Text α} {f : α → Except Text β} {b : β} :
    (x >>= f) = .ok b ↔ ∃ a, x = .ok a ∧ f a = .ok b := by
  cases x with
  | error e => simp [bind, Except.bind]
  | ok a => simp [bind, Except.bind]

theorem pure_eq_ok_iff {a b : α} : (pure a : Except Text α) = .ok b ↔ a = b := by
  simp [pure, Except.pure]

theorem getOr_eq_ok_iff {value : TomlNode → Option α} {tbl : TomlTable} {key : String}
    {fallback v : α} :
    getOr value tbl key fallback = .ok v ↔
      Typed value tbl key ∧ valueOr value tbl key fallback = v := by
  unfold getOr Typed valueOr
  cases hnode : tbl.lookup (bytes key) with
  | none => simp
  | some node => cases hvalue : value node <;> simp [hvalue]

theorem inSection_eq_ok_iff {tbl : TomlTable} {name : String}
    {read : TomlTable → Config → Except Text Config} {cfg cfg' : Config} :
    inSection tbl name read cfg = .ok cfg' ↔
      (asTable tbl name = none ∧ cfg = cfg') ∨
        ∃ t, asTable tbl name = some t ∧ read t cfg = .ok cfg' := by
  unfold inSection
  cases asTable tbl name <;> simp

theorem readHttp_eq_ok_iff {t : TomlTable} {cfg cfg' : Config} :
    readHttp toml t cfg = .ok cfg' ↔ HttpTyped toml t ∧
      { cfg with
        bindAddress := valueOr toml.string t "bind_address" cfg.bindAddress
        port := castUint16 (valueOr toml.int64 t "port" cfg.port)
        ioThreads := castInt (valueOr toml.int64 t "io_threads" cfg.ioThreads)
        basePath := valueOr toml.string t "base_path" cfg.basePath } = cfg' := by
  simp only [readHttp, bind_eq_ok_iff, getOr_eq_ok_iff, pure_eq_ok_iff]
  constructor
  · rintro ⟨_, ⟨haddress, rfl⟩, _, ⟨hport, rfl⟩, _, ⟨hthreads, rfl⟩, _, ⟨hbase, rfl⟩, hcfg⟩
    exact ⟨⟨by simp [haddress, hbase], by simp [hport, hthreads], by simp⟩, hcfg⟩
  · rintro ⟨htyped, hcfg⟩
    exact ⟨_, ⟨htyped.strings _ (by simp), rfl⟩, _, ⟨htyped.ints _ (by simp), rfl⟩, _,
      ⟨htyped.ints _ (by simp), rfl⟩, _, ⟨htyped.strings _ (by simp), rfl⟩, hcfg⟩

theorem readStorage_eq_ok_iff {t : TomlTable} {cfg cfg' : Config} :
    readStorage toml t cfg = .ok cfg' ↔ StorageTyped toml t ∧
      { cfg with
        dbPath := valueOr toml.string t "db_path" cfg.dbPath
        migrationsDir := valueOr toml.string t "migrations_dir" cfg.migrationsDir
        templatesDir := valueOr toml.string t "templates_dir" cfg.templatesDir
        staticDir := valueOr toml.string t "static_dir" cfg.staticDir
        mediaRoot := valueOr toml.string t "media_root" cfg.mediaRoot } = cfg' := by
  simp only [readStorage, bind_eq_ok_iff, getOr_eq_ok_iff, pure_eq_ok_iff]
  constructor
  · rintro ⟨_, ⟨hdb, rfl⟩, _, ⟨hmigrations, rfl⟩, _, ⟨htemplates, rfl⟩, _, ⟨hstatic, rfl⟩, _,
      ⟨hmedia, rfl⟩, hcfg⟩
    exact ⟨⟨by simp [hdb, hmigrations, htemplates, hstatic, hmedia], by simp, by simp⟩, hcfg⟩
  · rintro ⟨htyped, hcfg⟩
    exact ⟨_, ⟨htyped.strings _ (by simp), rfl⟩, _, ⟨htyped.strings _ (by simp), rfl⟩, _,
      ⟨htyped.strings _ (by simp), rfl⟩, _, ⟨htyped.strings _ (by simp), rfl⟩, _,
      ⟨htyped.strings _ (by simp), rfl⟩, hcfg⟩

theorem readCatalog_eq_ok_iff {t : TomlTable} {cfg cfg' : Config} :
    readCatalog toml t cfg = .ok cfg' ↔ CatalogTyped toml t ∧
      { cfg with
        refreshInterval := valueOr toml.int64 t "refresh_interval_sec" cfg.refreshInterval } =
          cfg' := by
  simp only [readCatalog, bind_eq_ok_iff, getOr_eq_ok_iff, pure_eq_ok_iff]
  constructor
  · rintro ⟨_, ⟨hrefresh, rfl⟩, hcfg⟩
    exact ⟨⟨by simp, by simp [hrefresh], by simp⟩, hcfg⟩
  · rintro ⟨htyped, hcfg⟩
    exact ⟨_, ⟨htyped.ints _ (by simp), rfl⟩, hcfg⟩

theorem readMetrics_eq_ok_iff {t : TomlTable} {cfg cfg' : Config} :
    readMetrics toml t cfg = .ok cfg' ↔ MetricsTyped toml t ∧
      { cfg with
        eventFlushInterval := valueOr toml.int64 t "flush_interval_ms" cfg.eventFlushInterval
        eventQueueCapacity := castUint64
          (valueOr toml.int64 t "queue_capacity" (castInt64 cfg.eventQueueCapacity))
        eventRetentionDays :=
          castInt (valueOr toml.int64 t "retention_days" cfg.eventRetentionDays)
        ipHashSecret := valueOr toml.string t "ip_hash_secret" []
        postbackSecret := valueOr toml.string t "postback_secret" []
        metricaCounter := castUint64 (valueOr toml.int64 t "metrica_counter" 0) } = cfg' := by
  simp only [readMetrics, bind_eq_ok_iff, getOr_eq_ok_iff, pure_eq_ok_iff]
  constructor
  · rintro ⟨_, ⟨hflush, rfl⟩, _, ⟨hcapacity, rfl⟩, _, ⟨hdays, rfl⟩, _, ⟨hsecret, rfl⟩, _,
      ⟨hpostback, rfl⟩, _, ⟨hcounter, rfl⟩, hcfg⟩
    exact ⟨⟨by simp [hsecret, hpostback], by simp [hflush, hcapacity, hdays, hcounter],
      by simp⟩, hcfg⟩
  · rintro ⟨htyped, hcfg⟩
    exact ⟨_, ⟨htyped.ints _ (by simp), rfl⟩, _, ⟨htyped.ints _ (by simp), rfl⟩, _,
      ⟨htyped.ints _ (by simp), rfl⟩, _, ⟨htyped.strings _ (by simp), rfl⟩, _,
      ⟨htyped.strings _ (by simp), rfl⟩, _, ⟨htyped.ints _ (by simp), rfl⟩, hcfg⟩

theorem readCookies_eq_ok_iff {t : TomlTable} {cfg cfg' : Config} :
    readCookies toml t cfg = .ok cfg' ↔ CookiesTyped toml t ∧
      { cfg with
        cookieSecure := valueOr toml.bool t "secure" cfg.cookieSecure
        sessionIdleTtl := valueOr toml.int64 t "session_idle_sec" cfg.sessionIdleTtl } = cfg' := by
  simp only [readCookies, bind_eq_ok_iff, getOr_eq_ok_iff, pure_eq_ok_iff]
  constructor
  · rintro ⟨_, ⟨hsecure, rfl⟩, _, ⟨hidle, rfl⟩, hcfg⟩
    exact ⟨⟨by simp, by simp [hidle], by simp [hsecure]⟩, hcfg⟩
  · rintro ⟨htyped, hcfg⟩
    exact ⟨_, ⟨htyped.bools _ (by simp), rfl⟩, _, ⟨htyped.ints _ (by simp), rfl⟩, hcfg⟩

/-! ## The integers -/

/-- An integer of the file: where it stands, its field, the cast of `load_config` and the
values that the field can represent. -/
structure IntField where
  table : String
  key : String
  read : Config → Int
  cast : Int → Int
  fits : Int → Prop
  cast_eq_iff : ∀ n, cast n = n ↔ fits n

def portField : IntField :=
  ⟨"http", "port", fun cfg => cfg.port, fun n => castUint16 n, FitsUint16,
    fun _ => castUint16_eq_self_iff⟩

def ioThreadsField : IntField :=
  ⟨"http", "io_threads", Config.ioThreads, castInt, FitsInt, fun _ => castInt_eq_self_iff⟩

-- The counts of `std::chrono` durations are `int64` like the values that are read.
def refreshIntervalField : IntField :=
  ⟨"catalog", "refresh_interval_sec", Config.refreshInterval, id, fun _ => True, by simp⟩

def flushIntervalField : IntField :=
  ⟨"metrics", "flush_interval_ms", Config.eventFlushInterval, id, fun _ => True, by simp⟩

def queueCapacityField : IntField :=
  ⟨"metrics", "queue_capacity", fun cfg => cfg.eventQueueCapacity, fun n => castUint64 n,
    FitsUint64, fun _ => castUint64_eq_self_iff⟩

def retentionDaysField : IntField :=
  ⟨"metrics", "retention_days", Config.eventRetentionDays, castInt, FitsInt,
    fun _ => castInt_eq_self_iff⟩

def metricaCounterField : IntField :=
  ⟨"metrics", "metrica_counter", fun cfg => cfg.metricaCounter, fun n => castUint64 n,
    FitsUint64, fun _ => castUint64_eq_self_iff⟩

def sessionIdleField : IntField :=
  ⟨"cookies", "session_idle_sec", Config.sessionIdleTtl, id, fun _ => True, by simp⟩

def intFields : List IntField :=
  [portField, ioThreadsField, refreshIntervalField, flushIntervalField, queueCapacityField,
    retentionDaysField, metricaCounterField, sessionIdleField]

theorem forall_intFields {P : IntField → Prop} :
    (∀ f ∈ intFields, P f) ↔ P portField ∧ P ioThreadsField ∧ P refreshIntervalField ∧
      P flushIntervalField ∧ P queueCapacityField ∧ P retentionDaysField ∧
      P metricaCounterField ∧ P sessionIdleField := by
  simp [intFields]

/-- The integer that the file has at this place, if it has one. -/
def IntField.written (f : IntField) (tbl : TomlTable) : Option Int :=
  match (asTable tbl f.table).bind fun t => t.lookup (bytes f.key) with
  | some (.integer n) => some n
  | _ => none

/-- Each of the fields is the integer that is in the file. -/
def TakenAsWritten (tbl : TomlTable) (cfg : Config) : Prop :=
  ∀ f ∈ intFields, ∀ n, f.written tbl = some n → f.read cfg = n

def Representable (tbl : TomlTable) : Prop :=
  ∀ f ∈ intFields, ∀ n, f.written tbl = some n → f.fits n

/-- What reading one section does: its own integers are cast, the others stay, and only
`metrics` has the secret. -/
structure Writes (name : String) (tbl : TomlTable) (cfg cfg' : Config) : Prop where
  own : ∀ f ∈ intFields, f.table = name → ∀ n, f.written tbl = some n → f.read cfg' = f.cast n
  kept : ∀ f ∈ intFields, f.table ≠ name → f.read cfg' = f.read cfg
  secret : name ≠ "metrics" → cfg'.ipHashSecret = cfg.ipHashSecret

theorem Writes.of_none {name : String} {tbl : TomlTable} (h : asTable tbl name = none)
    (cfg : Config) : Writes name tbl cfg cfg where
  own f _ hname n hn := by simp [IntField.written, hname, h] at hn
  kept _ _ _ := rfl
  secret _ := rfl

/-- A field is cast by its own section and kept by the later ones. -/
theorem Writes.read_eq {name : String} {tbl : TomlTable} {cfg cfg' : Config}
    (h : Writes name tbl cfg cfg') {f : IntField} (hf : f ∈ intFields) {n : Int}
    (hn : f.written tbl = some n) (hearlier : f.table ≠ name → f.read cfg = f.cast n) :
    f.read cfg' = f.cast n := by
  by_cases hname : f.table = name
  · exact h.own f hf hname n hn
  · exact (h.kept f hf hname).trans (hearlier hname)

section Sections

variable (hint : ∀ n, toml.int64 (.integer n) = some n) {tbl t : TomlTable} {cfg cfg' : Config}
include hint

theorem valueOr_of_written {f : IntField} (ht : asTable tbl f.table = some t) {n : Int}
    (hn : f.written tbl = some n) (fallback : Int) :
    valueOr toml.int64 t f.key fallback = n := by
  rw [IntField.written, ht, Option.bind_some] at hn
  split at hn
  · next m hm =>
      rw [valueOr, hm, Option.bind_some, hint, Option.getD_some]
      exact Option.some.inj hn
  · simp at hn

theorem readHttp_writes (ht : asTable tbl "http" = some t) (h : readHttp toml t cfg = .ok cfg') :
    Writes "http" tbl cfg cfg' := by
  obtain ⟨-, rfl⟩ := readHttp_eq_ok_iff.1 h
  refine ⟨forall_intFields.2 ?_, forall_intFields.2 ?_, fun _ => rfl⟩
  · refine ⟨fun _ n hn => ?_, fun _ n hn => ?_, ?_⟩
    · exact congrArg (fun v => (castUint16 v : Int)) (valueOr_of_written hint ht hn _)
    · exact congrArg castInt (valueOr_of_written hint ht hn _)
    · simp [refreshIntervalField, flushIntervalField, queueCapacityField, retentionDaysField,
        metricaCounterField, sessionIdleField]
  · exact ⟨fun h => absurd rfl h, fun h => absurd rfl h, fun _ => rfl, fun _ => rfl, fun _ => rfl,
      fun _ => rfl, fun _ => rfl, fun _ => rfl⟩

theorem readCatalog_writes (ht : asTable tbl "catalog" = some t)
    (h : readCatalog toml t cfg = .ok cfg') : Writes "catalog" tbl cfg cfg' := by
  obtain ⟨-, rfl⟩ := readCatalog_eq_ok_iff.1 h
  refine ⟨forall_intFields.2 ?_, forall_intFields.2 ?_, fun _ => rfl⟩
  · refine ⟨fun h => absurd h (by decide), fun h => absurd h (by decide),
      fun _ n hn => valueOr_of_written hint ht hn _, ?_⟩
    simp [flushIntervalField, queueCapacityField, retentionDaysField, metricaCounterField,
      sessionIdleField]
  · exact ⟨fun _ => rfl, fun _ => rfl, fun h => absurd rfl h, fun _ => rfl, fun _ => rfl,
      fun _ => rfl, fun _ => rfl, fun _ => rfl⟩

theorem readMetrics_writes (ht : asTable tbl "metrics" = some t)
    (h : readMetrics toml t cfg = .ok cfg') : Writes "metrics" tbl cfg cfg' := by
  obtain ⟨-, rfl⟩ := readMetrics_eq_ok_iff.1 h
  refine ⟨forall_intFields.2 ?_, forall_intFields.2 ?_, fun h => absurd rfl h⟩
  · refine ⟨fun h => absurd h (by decide), fun h => absurd h (by decide),
      fun h => absurd h (by decide), fun _ n hn => valueOr_of_written hint ht hn _,
      fun _ n hn => ?_, fun _ n hn => ?_, fun _ n hn => ?_, fun h => absurd h (by decide)⟩
    · exact congrArg (fun v => (castUint64 v : Int)) (valueOr_of_written hint ht hn _)
    · exact congrArg castInt (valueOr_of_written hint ht hn _)
    · exact congrArg (fun v => (castUint64 v : Int)) (valueOr_of_written hint ht hn _)
  · exact ⟨fun _ => rfl, fun _ => rfl, fun _ => rfl, fun h => absurd rfl h, fun h => absurd rfl h,
      fun h => absurd rfl h, fun h => absurd rfl h, fun _ => rfl⟩

theorem readCookies_writes (ht : asTable tbl "cookies" = some t)
    (h : readCookies toml t cfg = .ok cfg') : Writes "cookies" tbl cfg cfg' := by
  obtain ⟨-, rfl⟩ := readCookies_eq_ok_iff.1 h
  refine ⟨forall_intFields.2 ?_, forall_intFields.2 ?_, fun _ => rfl⟩
  · refine ⟨fun h => absurd h (by decide), fun h => absurd h (by decide),
      fun h => absurd h (by decide), fun h => absurd h (by decide), fun h => absurd h (by decide),
      fun h => absurd h (by decide), fun h => absurd h (by decide),
      fun _ n hn => valueOr_of_written hint ht hn _⟩
  · exact ⟨fun _ => rfl, fun _ => rfl, fun _ => rfl, fun _ => rfl, fun _ => rfl, fun _ => rfl,
      fun _ => rfl, fun h => absurd rfl h⟩

end Sections

theorem readStorage_writes {tbl t : TomlTable} {cfg cfg' : Config}
    (h : readStorage toml t cfg = .ok cfg') : Writes "storage" tbl cfg cfg' := by
  obtain ⟨-, rfl⟩ := readStorage_eq_ok_iff.1 h
  refine ⟨forall_intFields.2 ?_, forall_intFields.2 ?_, fun _ => rfl⟩
  · simp [portField, ioThreadsField, refreshIntervalField, flushIntervalField, queueCapacityField,
      retentionDaysField, metricaCounterField, sessionIdleField]
  · exact ⟨fun _ => rfl, fun _ => rfl, fun _ => rfl, fun _ => rfl, fun _ => rfl, fun _ => rfl,
      fun _ => rfl, fun _ => rfl⟩

theorem inSection_writes {tbl : TomlTable} {name : String}
    {read : TomlTable → Config → Except Text Config} {cfg cfg' : Config}
    (hread : ∀ t, asTable tbl name = some t → read t cfg = .ok cfg' → Writes name tbl cfg cfg')
    (h : inSection tbl name read cfg = .ok cfg') : Writes name tbl cfg cfg' := by
  rcases inSection_eq_ok_iff.1 h with ⟨hnone, rfl⟩ | ⟨t, ht, hok⟩
  · exact Writes.of_none hnone cfg
  · exact hread t ht hok

/-- A section can be read when its keys have their types. -/
theorem inSection_ok_iff {tbl : TomlTable} {name : String}
    {read : TomlTable → Config → Except Text Config} {typed : TomlTable → Prop} (cfg : Config)
    (hread : ∀ t, (∃ cfg', read t cfg = .ok cfg') ↔ typed t) :
    (∃ cfg', inSection tbl name read cfg = .ok cfg') ↔
      ∀ t, asTable tbl name = some t → typed t := by
  unfold inSection
  cases asTable tbl name with
  | none => simp
  | some t => simp [← hread t]

/-! ## The whole file -/

/-- The five sections one after the other, and the secret at the end. -/
theorem configOf_eq_ok_iff {tbl : TomlTable} {cfg : Config} :
    configOf toml tbl = .ok cfg ↔
      ∃ cfg₁, inSection tbl "http" (readHttp toml) {} = .ok cfg₁ ∧
      ∃ cfg₂, inSection tbl "storage" (readStorage toml) cfg₁ = .ok cfg₂ ∧
      ∃ cfg₃, inSection tbl "catalog" (readCatalog toml) cfg₂ = .ok cfg₃ ∧
      ∃ cfg₄, inSection tbl "metrics" (readMetrics toml) cfg₃ = .ok cfg₄ ∧
        inSection tbl "cookies" (readCookies toml) cfg₄ = .ok cfg ∧ cfg.ipHashSecret ≠ [] := by
  have hcheck : ∀ cfg' : Config,
      (if cfg'.ipHashSecret.isEmpty then
          (.error (bytes "config: metrics.ip_hash_secret must be set") : Except Text Config)
        else .ok cfg') = .ok cfg ↔ cfg' = cfg ∧ cfg.ipHashSecret ≠ [] := by
    intro cfg'
    by_cases hempty : cfg'.ipHashSecret = []
    · simp only [hempty, List.isEmpty_nil, if_true, reduceCtorEq, false_iff]
      rintro ⟨rfl, hne⟩
      exact hne hempty
    · have hnonempty : cfg'.ipHashSecret.isEmpty = false := by
        simpa [List.isEmpty_iff] using hempty
      rw [hnonempty, if_neg Bool.false_ne_true, Except.ok.injEq]
      constructor
      · rintro rfl
        exact ⟨rfl, hempty⟩
      · exact fun h => h.1
  simp only [configOf, bind_eq_ok_iff, hcheck]
  constructor
  · rintro ⟨cfg₁, h₁, cfg₂, h₂, cfg₃, h₃, cfg₄, h₄, _, h₅, rfl, hsecret⟩
    exact ⟨cfg₁, h₁, cfg₂, h₂, cfg₃, h₃, cfg₄, h₄, h₅, hsecret⟩
  · rintro ⟨cfg₁, h₁, cfg₂, h₂, cfg₃, h₃, cfg₄, h₄, h₅, hsecret⟩
    exact ⟨cfg₁, h₁, cfg₂, h₂, cfg₃, h₃, cfg₄, h₄, cfg, h₅, rfl, hsecret⟩

/-- Every integer of the file arrives in its field through its cast. -/
theorem read_configOf (hint : ∀ n, toml.int64 (.integer n) = some n) {tbl : TomlTable}
    {cfg : Config} (h : configOf toml tbl = .ok cfg) {f : IntField} (hf : f ∈ intFields) {n : Int}
    (hn : f.written tbl = some n) : f.read cfg = f.cast n := by
  obtain ⟨cfg₁, h₁, cfg₂, h₂, cfg₃, h₃, cfg₄, h₄, h₅, -⟩ := configOf_eq_ok_iff.1 h
  have hhttp := inSection_writes (fun _ ht hok => readHttp_writes hint ht hok) h₁
  have hstorage := inSection_writes (fun _ _ hok => readStorage_writes hok) h₂
  have hcatalog := inSection_writes (fun _ ht hok => readCatalog_writes hint ht hok) h₃
  have hmetrics := inSection_writes (fun _ ht hok => readMetrics_writes hint ht hok) h₄
  have hcookies := inSection_writes (fun _ ht hok => readCookies_writes hint ht hok) h₅
  have htables : ∀ f ∈ intFields, f.table = "http" ∨ f.table = "catalog" ∨
      f.table = "metrics" ∨ f.table = "cookies" := by
    rw [forall_intFields]
    decide
  apply hcookies.read_eq hf hn
  intro hne₅
  apply hmetrics.read_eq hf hn
  intro hne₄
  apply hcatalog.read_eq hf hn
  intro hne₃
  apply hstorage.read_eq hf hn
  intro _
  apply hhttp.read_eq hf hn
  intro hne₁
  rcases htables f hf with hat | hat | hat | hat
  · exact absurd hat hne₁
  · exact absurd hat hne₃
  · exact absurd hat hne₄
  · exact absurd hat hne₅

/-- The secret comes from `metrics` alone. -/
theorem secret_configOf (hint : ∀ n, toml.int64 (.integer n) = some n) {tbl : TomlTable}
    {cfg₁ cfg₂ cfg₃ cfg₄ cfg : Config} (h₁ : inSection tbl "http" (readHttp toml) {} = .ok cfg₁)
    (h₂ : inSection tbl "storage" (readStorage toml) cfg₁ = .ok cfg₂)
    (h₃ : inSection tbl "catalog" (readCatalog toml) cfg₂ = .ok cfg₃)
    (h₄ : inSection tbl "metrics" (readMetrics toml) cfg₃ = .ok cfg₄)
    (h₅ : inSection tbl "cookies" (readCookies toml) cfg₄ = .ok cfg) :
    cfg.ipHashSecret ≠ [] ↔
      ∃ t, asTable tbl "metrics" = some t ∧ valueOr toml.string t "ip_hash_secret" [] ≠ [] := by
  have hhttp := inSection_writes (fun _ ht hok => readHttp_writes hint ht hok) h₁
  have hstorage := inSection_writes (fun _ _ hok => readStorage_writes hok) h₂
  have hcatalog := inSection_writes (fun _ ht hok => readCatalog_writes hint ht hok) h₃
  have hcookies := inSection_writes (fun _ ht hok => readCookies_writes hint ht hok) h₅
  have hearlier : cfg₃.ipHashSecret = [] := by
    calc cfg₃.ipHashSecret = cfg₂.ipHashSecret := hcatalog.secret (by decide)
      _ = cfg₁.ipHashSecret := hstorage.secret (by decide)
      _ = [] := hhttp.secret (by decide)
  rw [hcookies.secret (by decide)]
  rcases inSection_eq_ok_iff.1 h₄ with ⟨hnone, rfl⟩ | ⟨t, ht, hok⟩
  · simp [hnone, hearlier]
  · obtain ⟨-, rfl⟩ := readMetrics_eq_ok_iff.1 hok
    simp [ht]

/-- A table that can be read gives a configuration, and no other does. -/
theorem configOf_ok_iff (hint : ∀ n, toml.int64 (.integer n) = some n) {tbl : TomlTable} :
    (∃ cfg, configOf toml tbl = .ok cfg) ↔ Readable toml tbl := by
  have hhttp := fun cfg =>
    @inSection_ok_iff tbl "http" (readHttp toml) (HttpTyped toml) cfg
      fun t => by simp [readHttp_eq_ok_iff]
  have hstorage := fun cfg =>
    @inSection_ok_iff tbl "storage" (readStorage toml) (StorageTyped toml) cfg
      fun t => by simp [readStorage_eq_ok_iff]
  have hcatalog := fun cfg =>
    @inSection_ok_iff tbl "catalog" (readCatalog toml) (CatalogTyped toml) cfg
      fun t => by simp [readCatalog_eq_ok_iff]
  have hmetrics := fun cfg =>
    @inSection_ok_iff tbl "metrics" (readMetrics toml) (MetricsTyped toml) cfg
      fun t => by simp [readMetrics_eq_ok_iff]
  have hcookies := fun cfg =>
    @inSection_ok_iff tbl "cookies" (readCookies toml) (CookiesTyped toml) cfg
      fun t => by simp [readCookies_eq_ok_iff]
  constructor
  · rintro ⟨cfg, hcfg⟩
    obtain ⟨cfg₁, h₁, cfg₂, h₂, cfg₃, h₃, cfg₄, h₄, h₅, hsecret⟩ := configOf_eq_ok_iff.1 hcfg
    exact ⟨(hhttp {}).1 ⟨cfg₁, h₁⟩, (hstorage cfg₁).1 ⟨cfg₂, h₂⟩, (hcatalog cfg₂).1 ⟨cfg₃, h₃⟩,
      (hmetrics cfg₃).1 ⟨cfg₄, h₄⟩, (hcookies cfg₄).1 ⟨cfg, h₅⟩,
      (secret_configOf hint h₁ h₂ h₃ h₄ h₅).1 hsecret⟩
  · intro hreadable
    obtain ⟨cfg₁, h₁⟩ := (hhttp {}).2 hreadable.http
    obtain ⟨cfg₂, h₂⟩ := (hstorage cfg₁).2 hreadable.storage
    obtain ⟨cfg₃, h₃⟩ := (hcatalog cfg₂).2 hreadable.catalog
    obtain ⟨cfg₄, h₄⟩ := (hmetrics cfg₃).2 hreadable.metrics
    obtain ⟨cfg, h₅⟩ := (hcookies cfg₄).2 hreadable.cookies
    have hsecret := (secret_configOf hint h₁ h₂ h₃ h₄ h₅).2 hreadable.secret
    exact ⟨cfg, configOf_eq_ok_iff.2 ⟨cfg₁, h₁, cfg₂, h₂, cfg₃, h₃, cfg₄, h₄, h₅, hsecret⟩⟩

/-- No configuration is loaded without a secret. -/
theorem loadConfig_secret {path : Text} {cfg : Config} (h : loadConfig toml path = .ok cfg) :
    cfg.ipHashSecret ≠ [] := by
  unfold loadConfig at h
  split at h
  · simp at h
  · obtain ⟨_, _, _, _, _, _, _, _, _, hsecret⟩ := configOf_eq_ok_iff.1 h
    exact hsecret

/-- Taken as written, or refused: what `load_config` is to do with the integers of a table. -/
structure ExactOrRefused (toml : Toml) (path : Text) (tbl : TomlTable) : Prop where
  exact : ∀ cfg, loadConfig toml path = .ok cfg → TakenAsWritten tbl cfg
  refused : ¬ Representable tbl → ∃ message, loadConfig toml path = .error message

/-- The integers of a file are taken as written or refused unless the file is one that
can be read and has an integer in it that does not fit its field. -/
theorem loadConfig_exact_iff (hint : ∀ n, toml.int64 (.integer n) = some n) {path : Text}
    {tbl : TomlTable} (hparse : toml.parseFile path = .ok tbl) :
    ExactOrRefused toml path tbl ↔ (Readable toml tbl → Representable tbl) := by
  have hload : loadConfig toml path = configOf toml tbl := by rw [loadConfig, hparse]
  constructor
  · intro hexact hreadable f hf n hn
    obtain ⟨cfg, hcfg⟩ := (configOf_ok_iff hint).2 hreadable
    have hread := read_configOf hint hcfg hf hn
    have hwritten := hexact.exact cfg (hload.trans hcfg) f hf n hn
    exact (f.cast_eq_iff n).1 (hread.symm.trans hwritten)
  · intro hfits
    constructor
    · intro cfg hcfg f hf n hn
      have hok : configOf toml tbl = .ok cfg := hload.symm.trans hcfg
      have hreadable := (configOf_ok_iff hint).1 ⟨cfg, hok⟩
      calc f.read cfg = f.cast n := read_configOf hint hok hf hn
        _ = n := (f.cast_eq_iff n).2 (hfits hreadable f hf n hn)
    · intro hunfit
      cases hcfg : loadConfig toml path with
      | error message => exact ⟨message, rfl⟩
      | ok cfg =>
          have hreadable := (configOf_ok_iff hint).1 ⟨cfg, hload.symm.trans hcfg⟩
          exact absurd (hfits hreadable) hunfit

/-- What toml++ makes of strings, integers and Booleans, for a file with this table. -/
def Toml.reading (tbl : TomlTable) : Toml where
  parseFile _ := .ok tbl
  string
    | .string s => some s
    | _ => none
  int64
    | .integer n => some n
    | .boolean b => some (if b then 1 else 0)
    | _ => none
  bool
    | .boolean b => some b
    | .integer n => some (n != 0)
    | _ => none

/-- A file with a port and a secret. -/
def portTable (port : Int) : TomlTable :=
  [(bytes "http", .table [(bytes "port", .integer port)]),
    (bytes "metrics", .table [(bytes "ip_hash_secret", .string (bytes "s"))])]

theorem written_portTable (port : Int) :
    ∀ f ∈ intFields, f.written (portTable port) = if f.key = "port" then some port else none := by
  rw [forall_intFields]
  exact ⟨rfl, rfl, rfl, rfl, rfl, rfl, rfl, rfl⟩

theorem representable_portTable {port : Int} (h : FitsUint16 port) :
    Representable (portTable port) := by
  have hfits : ∀ f ∈ intFields, f.key = "port" → f.fits = FitsUint16 := by
    rw [forall_intFields]
    exact ⟨fun _ => rfl, fun h => absurd h (by decide), fun h => absurd h (by decide),
      fun h => absurd h (by decide), fun h => absurd h (by decide), fun h => absurd h (by decide),
      fun h => absurd h (by decide), fun h => absurd h (by decide)⟩
  intro f hf n hn
  rw [written_portTable port f hf, Option.ite_none_right_eq_some, Option.some.injEq] at hn
  rw [hfits f hf hn.1, ← hn.2]
  exact h

theorem loadConfig_exact_port :
    ExactOrRefused (.reading (portTable 9000)) (bytes "ssize.toml") (portTable 9000) :=
  (@loadConfig_exact_iff (.reading (portTable 9000)) (fun _ => rfl) _ _ rfl).2
    fun _ => representable_portTable ⟨by decide, by decide⟩

/-- The port 65616 is read as 80. -/
theorem loadConfig_not_exact :
    ¬ ExactOrRefused (.reading (portTable 65616)) (bytes "ssize.toml") (portTable 65616) := by
  intro hexact
  have hport := hexact.exact _ rfl portField (List.mem_cons_self) 65616 rfl
  exact absurd hport (by decide)

end SSize
