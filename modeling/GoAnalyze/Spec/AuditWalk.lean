import GoAnalyze.Spec.AppendTransactions
import GoAnalyze.Spec.Handlers

/-! A client that walks the audit log of a tenant page by page while appends go on.
The `COUNT` and the page `SELECT` of a request each read what is committed when they
run. -/

namespace GoAnalyze

open AuditRepository Sql

/-- `total_pages` of `list_audit`. -/
def totalPages (total : ℕ) (pageSize : ℤ) : ℤ :=
  if 0 < total then (total + pageSize - 1) / pageSize else 0

/-- How far a walk has come. -/
inductive WalkPc where
  | start
  | requested (page : ℤ)
  | counted (page : ℤ) (total : ℕ)
  | finished (page : ℤ)

/-- The database with its appends, and the walk with the items it was given. The last
three fields are history, which no step reads: the rows of the tenant when the walk
began, and those that its last `COUNT` and its last `SELECT` saw. -/
structure WalkSt (τ : Type) where
  appends : AppendSt τ
  pc : WalkPc
  items : List AuditEvent
  before : List AuditEventORM
  counted : List AuditEventORM
  selected : List AuditEventORM

inductive WalkAct (τ : Type) where
  | append (i : τ) (act : AppendAct)
  | client

section Walk

variable {τ : Type} [DecidableEq τ]

def WalkSt.init : WalkSt τ := ⟨AppendSt.init, .start, [], [], [], []⟩

/-- The next step of the walk: it goes on until the page reaches `total_pages` of the
latest answer. -/
def WalkSt.fetch (scan : Scan AuditEventORM) (tenantId : String) (pageSize : ℤ) (s : WalkSt τ) :
    Option (WalkSt τ) :=
  let rows := s.appends.db.log
  match s.pc with
  | .start => some { s with pc := .requested 1, before := s.appends.events tenantId }
  | .requested page =>
    (listForTenantPaginated .postgresql scan rows tenantId page pageSize).map fun answer =>
      { s with pc := .counted page answer.2, counted := s.appends.events tenantId }
  | .counted page total =>
    (listForTenantPaginated .postgresql scan rows tenantId page pageSize).map fun answer =>
      { s with
        pc := if page < totalPages total pageSize then .requested (page + 1) else .finished page
        items := s.items ++ answer.1
        selected := s.appends.events tenantId }
  | .finished _ => none

def WalkSt.next (request : τ → AuditEvent) (computeHash : AuditEvent → String)
    (scan : Scan AuditEventORM) (tenantId : String) (pageSize : ℤ) (s : WalkSt τ) :
    WalkAct τ → Option (WalkSt τ)
  | .append i act => (s.appends.next request computeHash i act).map fun appends =>
      { s with appends := appends }
  | .client => s.fetch scan tenantId pageSize

/-- The states that some interleaving of the walk and the appends reaches. -/
def WalkReaches (request : τ → AuditEvent) (computeHash : AuditEvent → String)
    (scan : Scan AuditEventORM) (tenantId : String) (pageSize : ℤ) (as : List (WalkAct τ))
    (s : WalkSt τ) : Prop :=
  Runs.Run (fun s a s' => s.next request computeHash scan tenantId pageSize a = some s')
    WalkSt.init as s

end Walk

end GoAnalyze
