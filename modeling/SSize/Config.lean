import SSize.Text

/-!
# The configuration (`config.hpp`)

The fields in their order, with the defaults of the sources. The widths of the
integers are in the casts that `load_config` makes.
-/

namespace SSize

structure Config where
  bindAddress : Text := bytes "127.0.0.1"
  port : Nat := 8080
  ioThreads : Int := 1
  basePath : Text := []
  dbPath : Text := bytes "ssize.db"
  migrationsDir : Text := bytes "migrations"
  templatesDir : Text := bytes "templates"
  staticDir : Text := bytes "static"
  mediaRoot : Text := bytes "media"
  /-- In seconds. -/
  refreshInterval : Int := 10
  /-- In milliseconds. -/
  eventFlushInterval : Int := 1000
  eventQueueCapacity : Nat := 100000
  eventRetentionDays : Int := 90
  ipHashSecret : Text := []
  postbackSecret : Text := []
  metricaCounter : Nat := 0
  anonCookieTtl : Int := 24 * 365 * 3600
  sessionIdleTtl : Int := 1800
  cookieSecure : Bool := true

end SSize
