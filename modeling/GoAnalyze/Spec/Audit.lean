import GoAnalyze.Lib.Sql
import GoAnalyze.Spec.Models

/-! `AuditLog` and `AuditRepository`: the event hash, the stored form of an
event on either dialect, and the queries over `audit_events`. -/

namespace GoAnalyze

open JsonText Sql

inductive Dialect where
  | postgresql | sqlite
deriving DecidableEq

/-- Whether a parameter of a query can be this text. -/
def Dialect.carries (dialect : Dialect) (s : String) : Bool :=
  match dialect with
  | .sqlite => true
  | .postgresql => noNul s

/-! ## JSON columns -/

/-- The text in a JSON column of a mapping, which always reads as an object. -/
structure DictColumn where
  text : List Char
  isObject : ∃ d, loads text = some (.obj d)

@[ext] theorem DictColumn.ext {c c' : DictColumn} (h : c.text = c'.text) : c = c' := by
  cases c; cases c'; simp_all

def DictColumn.ofDict (d : Dict) : DictColumn :=
  ⟨write spaced (.obj d), d, loads_write spaced (.obj d)⟩

def DictColumn.read (c : DictColumn) : Dict :=
  match loads c.text with
  | some (.obj d) => d
  | _ => []

@[simp] theorem DictColumn.read_ofDict (d : Dict) : (DictColumn.ofDict d).read = d := by
  simp [DictColumn.read, DictColumn.ofDict, loads_write]

/-! ## Timestamp columns -/

/-- What a `DateTime(timezone=True)` column gives back: the instant in UTC, or on
SQLite the wall clock alone. -/
def storedDateTime (dialect : Dialect) (t : DateTime) : DateTime :=
  match dialect with
  | .postgresql => t.toUtc
  | .sqlite => { t with tzinfo := none }

/-- A UTC datetime keeps its fields when it is converted to UTC. -/
theorem DateTime.toUtc_of_utc {t : DateTime} (h : t.tzinfo = some utc) : t.toUtc = t := by
  obtain ⟨year, month, day, hour, minute, second, microsecond, tzinfo⟩ := t
  obtain rfl : tzinfo = some utc := h
  have hlo : ¬ ((hour : ℤ) * 60 + minute - utc.minutes < 0) := by simp only [utc]; omega
  have hhi : ¬ (1440 ≤ (hour : ℤ) * 60 + minute - utc.minutes) := by simp only [utc]; omega
  have hh : (((hour : ℤ) * 60 + minute - utc.minutes) % 1440 / 60).toNat = hour := by
    simp only [utc]; omega
  have hm : (((hour : ℤ) * 60 + minute - utc.minutes) % 60).toNat = minute := by
    simp only [utc]; omega
  simp [DateTime.toUtc, hlo, hhi, hh, hm]

/-! ## The event hash -/

/-- `payload[key] = value` for a key the dictionary has. -/
def setItem (k : String) (v : Json) (d : Dict) : Dict :=
  d.map fun m => if m.1 = k then (k, v) else m

/-- `AuditLog._hash_event`, with `hmac secret message` the hexadecimal digest. -/
def AuditLog.hashEvent (hmac : Bytes → Bytes → String) (secret : String) (event : AuditEvent) :
    String :=
  let payload := setItem "event_hash" .null event.modelDump
  let serialized := encodeUtf8 (dumpsSorted compact (.obj payload))
  hmac (encodeUtf8 secret.toList) serialized

/-- The assignments `append_with_chain_lock` makes before it stores the event. -/
def AuditRepository.chainEvent (computeHash : AuditEvent → String) (previousHash : Option String)
    (event : AuditEvent) : AuditEvent :=
  let event := { event with previousHash := previousHash }
  { event with eventHash := some (computeHash event) }

/-! ## Stored events -/

structure AuditEventORM where
  id : UUID
  tenantId : String
  actor : String
  action : String
  resourceType : String
  resourceId : String
  purpose : String
  traceId : String
  timestamp : DateTime
  details : DictColumn
  previousHash : Option String
  eventHash : Option String

/-- Whether the columns of `audit_events` take a row. SQLite checks no lengths; the
hashes are digests of 64 characters, the length of their columns, and the numbers that
handlers put in the details are finite. -/
def AuditEventORM.fits (dialect : Dialect) (orm : AuditEventORM) : Bool :=
  match dialect with
  | .sqlite => true
  | .postgresql =>
    varchar 255 orm.tenantId && varchar 255 orm.actor && varchar 255 orm.action &&
      varchar 128 orm.resourceType && varchar 255 orm.resourceId && varchar 128 orm.purpose &&
      varchar 255 orm.traceId

namespace AuditRepository

def toOrm (dialect : Dialect) (event : AuditEvent) : AuditEventORM where
  id := event.id
  tenantId := event.tenantId
  actor := event.actor
  action := event.action
  resourceType := event.resourceType
  resourceId := event.resourceId
  purpose := event.purpose
  traceId := event.traceId
  timestamp := storedDateTime dialect event.timestamp
  details := .ofDict event.details
  previousHash := event.previousHash
  eventHash := event.eventHash

def ormToDomain (orm : AuditEventORM) : AuditEvent where
  id := orm.id
  tenantId := orm.tenantId
  actor := orm.actor
  action := orm.action
  resourceType := orm.resourceType
  resourceId := orm.resourceId
  purpose := orm.purpose
  traceId := orm.traceId
  timestamp := orm.timestamp
  details := orm.details.read
  previousHash := orm.previousHash
  eventHash := orm.eventHash

/-- Storing an event and reading it back changes at most its timestamp. -/
theorem ormToDomain_toOrm (dialect : Dialect) (event : AuditEvent) :
    ormToDomain (toOrm dialect event) =
      { event with timestamp := storedDateTime dialect event.timestamp } := by
  simp [ormToDomain, toOrm]

section Fields

variable (dialect : Dialect) (computeHash : AuditEvent → String) (previousHash : Option String)
  (event : AuditEvent) (orm : AuditEventORM)

@[simp] theorem toOrm_id : (toOrm dialect event).id = event.id := rfl
@[simp] theorem toOrm_tenantId : (toOrm dialect event).tenantId = event.tenantId := rfl
@[simp] theorem toOrm_previousHash : (toOrm dialect event).previousHash = event.previousHash := rfl
@[simp] theorem toOrm_eventHash : (toOrm dialect event).eventHash = event.eventHash := rfl
@[simp] theorem ormToDomain_previousHash : (ormToDomain orm).previousHash = orm.previousHash := rfl
@[simp] theorem ormToDomain_eventHash : (ormToDomain orm).eventHash = orm.eventHash := rfl

@[simp] theorem chainEvent_id : (chainEvent computeHash previousHash event).id = event.id := rfl
@[simp] theorem chainEvent_tenantId :
    (chainEvent computeHash previousHash event).tenantId = event.tenantId := rfl
@[simp] theorem chainEvent_timestamp :
    (chainEvent computeHash previousHash event).timestamp = event.timestamp := rfl
@[simp] theorem chainEvent_previousHash :
    (chainEvent computeHash previousHash event).previousHash = previousHash := rfl
@[simp] theorem chainEvent_eventHash :
    (chainEvent computeHash previousHash event).eventHash =
      some (computeHash { event with previousHash := previousHash }) := rfl

@[simp] theorem fits_chainEvent : (toOrm dialect (chainEvent computeHash previousHash event)).fits
    dialect = (toOrm dialect event).fits dialect := rfl

end Fields

theorem tenantId_of_fits {orm : AuditEventORM} (h : orm.fits .postgresql) :
    varchar 255 orm.tenantId := by
  simp only [AuditEventORM.fits, Bool.and_eq_true] at h
  exact h.1.1.1.1.1.1

/-! ## Queries -/

/-- The rows of a tenant, in the order of the table. -/
def forTenant (tenantId : String) (rows : List AuditEventORM) : List AuditEventORM :=
  rows.filter fun orm => orm.tenantId = tenantId

def timestampLe (a b : AuditEventORM) : Prop := a.timestamp.instant ≤ b.timestamp.instant

instance : DecidableRel timestampLe := fun _ _ => inferInstanceAs (Decidable (_ ≤ _))

instance : Std.Total timestampLe := ⟨fun _ _ => le_total _ _⟩

instance : IsTrans AuditEventORM timestampLe := ⟨fun _ _ _ => le_trans⟩

def timestampGe (a b : AuditEventORM) : Prop := timestampLe b a

instance : DecidableRel timestampGe := fun a b => inferInstanceAs (Decidable (timestampLe b a))

/-- Order by timestamp, then by id. -/
def timestampIdLe (a b : AuditEventORM) : Prop :=
  a.timestamp.instant < b.timestamp.instant ∨
    (a.timestamp.instant = b.timestamp.instant ∧ a.id.toNat ≤ b.id.toNat)

instance : DecidableRel timestampIdLe := fun _ _ => inferInstanceAs (Decidable (_ ∨ _))

def listForTenant (scan : Scan AuditEventORM) (rows : List AuditEventORM) (tenantId : String) :
    List AuditEvent :=
  (orderBy timestampLe scan (forTenant tenantId rows)).map ormToDomain

/-- `none` where the driver refuses a parameter: the tenant in the `COUNT`, or the offset in
the `SELECT` of the page. -/
def listForTenantPaginated (dialect : Dialect) (scan : Scan AuditEventORM)
    (rows : List AuditEventORM) (tenantId : String) (page pageSize : ℤ) :
    Option (List AuditEvent × ℕ) := do
  guard (dialect.carries tenantId)
  let total := (forTenant tenantId rows).length
  guard ((page - 1) * pageSize ≤ maxOffset)
  let items := slice ((page - 1) * pageSize).toNat pageSize.toNat
    (orderBy timestampIdLe scan (forTenant tenantId rows))
  return (items.map ormToDomain, total)

def latestForTenant (scan : Scan AuditEventORM) (rows : List AuditEventORM) (tenantId : String) :
    Option AuditEvent :=
  (orderBy timestampGe scan (forTenant tenantId rows)).head?.map ormToDomain

end AuditRepository

theorem AuditRepository.forTenant_append (tenantId : String) (rows : List AuditEventORM)
    (orm : AuditEventORM) : forTenant tenantId (rows ++ [orm]) =
      if orm.tenantId = tenantId then forTenant tenantId rows ++ [orm]
      else forTenant tenantId rows := by
  simp only [forTenant, List.filter_append]
  split_ifs with h <;> simp [h]

/-! ## Appending -/

/-- `audit_events`, in the order of the inserts, and `audit_chain_state`. -/
structure AuditTables where
  events : Table AuditEventORM.id
  chainState : String → Option (Option String)

def AuditTables.empty : AuditTables := ⟨.empty, fun _ => none⟩

namespace AuditRepository

/-- The branch for PostgreSQL, run without interruption: upsert the chain-state
row, read it under its lock, insert the event, advance the row. -/
def appendLocked (computeHash : AuditEvent → String) (tables : AuditTables) (event : AuditEvent) :
    Option (AuditEvent × AuditTables) := do
  let chainState := match tables.chainState event.tenantId with
    | some _ => tables.chainState
    | none => Function.update tables.chainState event.tenantId (some none)
  let previousHash ← chainState event.tenantId
  let event := chainEvent computeHash previousHash event
  let events ← tables.events.insertChecked (AuditEventORM.fits .postgresql)
    (toOrm .postgresql event)
  return (event, ⟨events, Function.update chainState event.tenantId (some event.eventHash)⟩)

/-- The branch without a lock, which reads the head off the latest row. -/
def appendUnlocked (dialect : Dialect) (computeHash : AuditEvent → String)
    (scan : Scan AuditEventORM) (events : Table AuditEventORM.id) (event : AuditEvent) :
    Option (AuditEvent × Table AuditEventORM.id) := do
  let latest := latestForTenant scan events.rows event.tenantId
  let event := chainEvent computeHash (latest.bind (·.eventHash)) event
  let events ← events.insertChecked (AuditEventORM.fits dialect) (toOrm dialect event)
  return (event, events)

/-- `append_with_chain_lock`; `none` where the id of the event is taken, or a column
refuses a value. -/
def appendWithChainLock (dialect : Dialect) (computeHash : AuditEvent → String)
    (scan : Scan AuditEventORM) (tables : AuditTables) (event : AuditEvent) :
    Option (AuditEvent × AuditTables) :=
  match dialect with
  | .postgresql => appendLocked computeHash tables event
  | .sqlite => do
    let (event, events) ← appendUnlocked .sqlite computeHash scan tables.events event
    return (event, { tables with events := events })

/-- A locked append adds one row, linked to the hash in the chain-state row, and
moves that row to it. -/
theorem appendLocked_eq (computeHash : AuditEvent → String) (tables : AuditTables)
    (event : AuditEvent) :
    appendLocked computeHash tables event =
      let event := chainEvent computeHash (tables.chainState event.tenantId).join event
      (tables.events.insertChecked (AuditEventORM.fits .postgresql)
        (toOrm .postgresql event)).map fun events =>
          (event, ⟨events,
            Function.update tables.chainState event.tenantId (some event.eventHash)⟩) := by
  cases h : tables.chainState event.tenantId with
  | some previousHash =>
    simp only [appendLocked, h, Option.bind_eq_bind, Option.bind_some, Option.join_some,
      Option.map_eq_bind]
    rfl
  | none =>
    simp only [appendLocked, h, Option.bind_eq_bind, Function.update_self, Option.bind_some,
      Option.join_none, Option.map_eq_bind, Function.update_idem, chainEvent_tenantId]
    rfl

theorem appendUnlocked_eq (dialect : Dialect) (computeHash : AuditEvent → String)
    (scan : Scan AuditEventORM) (events : Table AuditEventORM.id) (event : AuditEvent) :
    appendUnlocked dialect computeHash scan events event =
      let latest := latestForTenant scan events.rows event.tenantId
      let event := chainEvent computeHash (latest.bind (·.eventHash)) event
      (events.insertChecked (AuditEventORM.fits dialect) (toOrm dialect event)).map
        fun events => (event, events) := by
  simp only [appendUnlocked, Option.map_eq_bind]
  rfl

/-- The hash a new event of the tenant is linked to. -/
def chainHead (dialect : Dialect) (scan : Scan AuditEventORM) (tables : AuditTables)
    (tenantId : String) : Option String :=
  match dialect with
  | .postgresql => (tables.chainState tenantId).join
  | .sqlite => (latestForTenant scan tables.events.rows tenantId).bind (·.eventHash)

/-- What an append does on either dialect. -/
theorem appendWithChainLock_eq (dialect : Dialect) (computeHash : AuditEvent → String)
    (scan : Scan AuditEventORM) (tables : AuditTables) (event : AuditEvent) :
    appendWithChainLock dialect computeHash scan tables event =
      let event := chainEvent computeHash (chainHead dialect scan tables event.tenantId) event
      (tables.events.insertChecked (AuditEventORM.fits dialect) (toOrm dialect event)).map
        fun events => (event, { tables with
          events := events
          chainState := match dialect with
          | .postgresql =>
            Function.update tables.chainState event.tenantId (some event.eventHash)
          | .sqlite => tables.chainState }) := by
  cases dialect with
  | postgresql => exact appendLocked_eq computeHash tables event
  | sqlite =>
    simp only [appendWithChainLock, appendUnlocked_eq, chainHead]
    cases tables.events.insertChecked _ _ <;> rfl

end AuditRepository

end GoAnalyze
