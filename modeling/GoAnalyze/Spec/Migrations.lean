import GoAnalyze.Lib.HashChain
import GoAnalyze.Lib.Runs
import GoAnalyze.Spec.Audit

/-! Revision ed3a4f8a50b6 around the audit log: appends before the revision link
through the latest row of `audit_events`, appends at head through the table
`audit_chain_state` that the revision creates and drops. -/

namespace GoAnalyze

open Sql AuditRepository

/-- Which schema the database has, with the rows of `audit_chain_state` at head. -/
inductive Schema where
  | before
  | head (chainState : String → Option (Option String))
  | downgraded

structure MigratedDb where
  events : Table AuditEventORM.id
  schema : Schema

def MigratedDb.init : MigratedDb := ⟨.empty, .before⟩

inductive MigrationAct where
  | appendBefore (scan : Scan AuditEventORM) (event : AuditEvent)
  | upgrade
  | downgrade
  | appendAtHead (event : AuditEvent)

/-- `upgrade`: `create_table` makes `audit_chain_state` without rows. -/
def upgrade : Schema := .head fun _ => none

/-- `downgrade`: `drop_table`. -/
def downgrade : Schema := .downgraded

def MigratedDb.next (computeHash : AuditEvent → String) (db : MigratedDb) :
    MigrationAct → Option MigratedDb
  | .appendBefore scan event =>
    match db.schema with
    | .before => do
      let (_, events) ← appendUnlocked .postgresql computeHash scan db.events event
      return ⟨events, .before⟩
    | _ => none
  | .upgrade =>
    match db.schema with
    | .head _ => none
    | _ => some { db with schema := upgrade }
  | .downgrade =>
    match db.schema with
    | .head _ => some { db with schema := downgrade }
    | _ => none
  | .appendAtHead event =>
    match db.schema with
    | .head chainState => do
      let (_, tables) ← appendLocked computeHash ⟨db.events, chainState⟩ event
      return ⟨tables.events, .head tables.chainState⟩
    | _ => none

def MigrationStep (computeHash : AuditEvent → String) (db : MigratedDb) (a : MigrationAct)
    (db' : MigratedDb) : Prop :=
  db.next computeHash a = some db'

/-- The events of a tenant, in the order they were appended. -/
def MigratedDb.eventsOf (db : MigratedDb) (tenantId : String) : List AuditEventORM :=
  forTenant tenantId db.events.rows

end GoAnalyze
