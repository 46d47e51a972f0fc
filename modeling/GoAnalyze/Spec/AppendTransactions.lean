import GoAnalyze.Lib.HashChain
import GoAnalyze.Lib.ReadCommitted
import GoAnalyze.Lib.Runs
import GoAnalyze.Spec.Audit

/-! Concurrent calls of `append_with_chain_lock` on PostgreSQL, each in a session
of its own. The statements of the calls interleave in any order, and a call may
abort at any of them; where a column refuses a value, that is all it can do. -/

namespace GoAnalyze

open ReadCommitted

/-- How far a call has come. The states carry what the method has in hand. -/
inductive AppendPc where
  | start
  | upserted
  | locked (previousHash : Option String)
  | inserted (event : AuditEvent)
  | updated (event : AuditEvent)
  | committed
  | aborted

inductive AppendAct where
  | proceed | abort
deriving DecidableEq

/-- `audit_chain_state` as the keyed table and `audit_events` as the log. -/
abbrev AuditDb (τ : Type) := Db τ String (Option String) AuditEventORM

structure AppendSt (τ : Type) where
  db : AuditDb τ
  pc : τ → AppendPc

variable {τ : Type} [DecidableEq τ]

def AppendSt.init : AppendSt τ := ⟨Db.empty, fun _ => .start⟩

def AppendSt.set (s : AppendSt τ) (i : τ) (db : AuditDb τ) (pc : AppendPc) : AppendSt τ :=
  ⟨db, Function.update s.pc i pc⟩

/-- The next statement of call `i`, which appends `request i`. -/
def AppendSt.next (request : τ → AuditEvent) (computeHash : AuditEvent → String)
    (s : AppendSt τ) (i : τ) : AppendAct → Option (AppendSt τ)
  | .proceed =>
    let event := request i
    match s.pc i with
    | .start => do
      guard (Sql.varchar 255 event.tenantId)
      let db ← insertIfAbsent s.db i event.tenantId none
      return s.set i db .upserted
    | .upserted => do
      let (previousHash, db) ← selectForUpdate s.db i event.tenantId
      return s.set i db (.locked previousHash)
    | .locked previousHash => do
      let event := AuditRepository.chainEvent computeHash previousHash event
      let orm := AuditRepository.toOrm .postgresql event
      guard (orm.fits .postgresql)
      let db ← insertLog AuditEventORM.id s.db i orm
      return s.set i db (.inserted event)
    | .inserted event => do
      let db ← updateRow s.db i event.tenantId event.eventHash
      return s.set i db (.updated event)
    | .updated _ => some (s.set i (commit s.db i) .committed)
    | .committed | .aborted => none
  | .abort =>
    match s.pc i with
    | .committed | .aborted => none
    | _ => some (s.set i (ReadCommitted.abort s.db i) .aborted)

/-- One statement of one call. -/
def AppendStep (request : τ → AuditEvent) (computeHash : AuditEvent → String) (s : AppendSt τ)
    (a : τ × AppendAct) (s' : AppendSt τ) : Prop :=
  s.next request computeHash a.1 a.2 = some s'

/-- The states that some interleaving reaches. -/
def AppendReaches (request : τ → AuditEvent) (computeHash : AuditEvent → String)
    (as : List (τ × AppendAct)) (s : AppendSt τ) : Prop :=
  Runs.Run (AppendStep request computeHash) AppendSt.init as s

/-- The committed events of a tenant, in commit order. -/
def AppendSt.events (s : AppendSt τ) (tenantId : String) : List AuditEventORM :=
  AuditRepository.forTenant tenantId s.db.log

/-- The hash the tenant's next event has to name. -/
def AppendSt.head (s : AppendSt τ) (tenantId : String) : Option String :=
  HashChain.headFrom AuditEventORM.eventHash none (s.events tenantId)

end GoAnalyze
