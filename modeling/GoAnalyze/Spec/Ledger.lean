import GoAnalyze.Spec.Handlers

/-! What the API keeps, without tables, keys and hashes: a register of documents with
their contents, the assignments, and a trail of who did what. -/

namespace GoAnalyze

/-- An audit event without its details and hashes. -/
structure AuditEntry where
  id : UUID
  tenantId : String
  actor : String
  action : String
  resourceType : String
  resourceId : String
  purpose : String
  traceId : String
  timestamp : DateTime

def AuditEventORM.entry (orm : AuditEventORM) : AuditEntry where
  id := orm.id
  tenantId := orm.tenantId
  actor := orm.actor
  action := orm.action
  resourceType := orm.resourceType
  resourceId := orm.resourceId
  purpose := orm.purpose
  traceId := orm.traceId
  timestamp := orm.timestamp

structure Ledger where
  records : UUID → Option DocumentRecord
  contents : Backend → UUID → Option Bytes
  assignments : List CaseAssignmentORM
  trail : List AuditEntry

namespace Ledger

def empty : Ledger := ⟨fun _ => none, fun _ _ => none, [], []⟩

/-- What may happen to a ledger. A document may be registered, and its content stored,
without an entry in the trail. -/
inductive Action where
  | nothing
  | log (entry : AuditEntry)
  | assign (assignment : CaseAssignmentORM)
  | register (record : DocumentRecord) (entry : Option AuditEntry)
  | store (backend : Backend) (documentId : UUID) (body : Bytes) (entry : Option AuditEntry)

/-- The entries of an action. -/
def Action.entries : Action → List AuditEntry
  | .log entry => [entry]
  | .register _ entry => entry.toList
  | .store _ _ _ entry => entry.toList
  | .nothing | .assign _ => []

/-- The action without its entry. -/
def Action.unlogged : Action → Action
  | .register record _ => .register record none
  | .store backend documentId body _ => .store backend documentId body none
  | .nothing | .log _ | .assign _ => .nothing

/-- The ledger after an action; `none` where it is not possible. An id is registered once,
and content is stored for a registered document whose digest it has. -/
def apply (sha256Hex : Bytes → String) (L : Ledger) (action : Action) : Option Ledger :=
  let trail := L.trail ++ action.entries
  match action with
  | .nothing | .log _ => some { L with trail := trail }
  | .assign assignment =>
    some { L with trail := trail, assignments := L.assignments ++ [assignment] }
  | .register record _ =>
    if (L.records record.id).isSome then none
    else some { L with
      trail := trail, records := Function.update L.records record.id (some record) }
  | .store backend documentId body _ =>
    if (L.records documentId).any fun record => sha256Hex body = record.sha256 then
      some { L with
        trail := trail
        contents := fun backend' documentId' =>
          if backend' = backend ∧ documentId' = documentId then some body
          else L.contents backend' documentId' }
    else none

/-- Every content has the digest of its record. -/
def Sound (sha256Hex : Bytes → String) (L : Ledger) : Prop :=
  ∀ backend documentId body, L.contents backend documentId = some body →
    ∃ record, L.records documentId = some record ∧ sha256Hex body = record.sha256

/-- Nothing that a ledger says of the past is taken back in a later one. -/
structure Grows (L L' : Ledger) : Prop where
  records : ∀ documentId record, L.records documentId = some record →
    L'.records documentId = some record
  contents : ∀ backend documentId, (L.contents backend documentId).isSome →
    (L'.contents backend documentId).isSome
  assignments : L.assignments <+: L'.assignments
  trail : L.trail <+: L'.trail

theorem Grows.refl (L : Ledger) : Grows L L :=
  ⟨fun _ _ h => h, fun _ _ h => h, List.prefix_refl _, List.prefix_refl _⟩

theorem Grows.trans {L L' L'' : Ledger} (h : Grows L L') (h' : Grows L' L'') : Grows L L'' :=
  ⟨fun d r hr => h'.records d r (h.records d r hr),
    fun b d hc => h'.contents b d (h.contents b d hc), h.assignments.trans h'.assignments,
    h.trail.trans h'.trail⟩

variable {sha256Hex : Bytes → String} {L L' : Ledger} {action : Action}

theorem apply_register_eq_some {record : DocumentRecord} {entry : Option AuditEntry} :
    L.apply sha256Hex (.register record entry) = some L' ↔ L.records record.id = none ∧
      L' = { L with
        trail := L.trail ++ entry.toList
        records := Function.update L.records record.id (some record) } := by
  simp only [apply, Action.entries, Option.ite_none_left_eq_some, Option.not_isSome_iff_eq_none,
    Option.some.injEq, eq_comm (b := L')]

theorem apply_store_eq_some {backend : Backend} {d : UUID} {body : Bytes}
    {entry : Option AuditEntry} : L.apply sha256Hex (.store backend d body entry) = some L' ↔
      (∃ record, L.records d = some record ∧ sha256Hex body = record.sha256) ∧
      L' = { L with
        trail := L.trail ++ entry.toList
        contents := fun backend' d' =>
          if backend' = backend ∧ d' = d then some body else L.contents backend' d' } := by
  simp only [apply, Action.entries, Option.ite_none_right_eq_some, Option.any_eq_true,
    decide_eq_true_eq, Option.some.injEq, eq_comm (b := L')]

theorem trail_apply (h : L.apply sha256Hex action = some L') :
    L'.trail = L.trail ++ action.entries := by
  cases action with
  | nothing | log _ | assign _ => cases h; rfl
  | register record _ =>
    obtain ⟨-, rfl⟩ := apply_register_eq_some.mp h
    rfl
  | store backend d body _ =>
    obtain ⟨-, rfl⟩ := apply_store_eq_some.mp h
    rfl

theorem grows_apply (h : L.apply sha256Hex action = some L') : Grows L L' := by
  have htrail : L.trail <+: L'.trail := trail_apply h ▸ List.prefix_append _ _
  cases action with
  | nothing | log _ => cases h; exact ⟨fun _ _ h => h, fun _ _ h => h, List.prefix_refl _, htrail⟩
  | assign _ =>
    cases h
    exact ⟨fun _ _ h => h, fun _ _ h => h, List.prefix_append _ _, htrail⟩
  | register record _ =>
    obtain ⟨hnone, rfl⟩ := apply_register_eq_some.mp h
    refine ⟨fun d r hr => ?_, fun _ _ h => h, List.prefix_refl _, htrail⟩
    have hne : d ≠ record.id := by
      rintro rfl
      rw [hnone] at hr
      cases hr
    simpa only [Function.update_of_ne hne] using hr
  | store backend d body _ =>
    obtain ⟨-, rfl⟩ := apply_store_eq_some.mp h
    refine ⟨fun _ _ h => h, fun b d' hc => ?_, List.prefix_refl _, htrail⟩
    dsimp only
    split_ifs
    · rfl
    · exact hc

theorem sound_empty : Sound sha256Hex empty := nofun

theorem Sound.apply (hL : Sound sha256Hex L) (h : L.apply sha256Hex action = some L') :
    Sound sha256Hex L' := by
  -- what was sound stays so, since records are not taken back
  have hold : ∀ backend d body, L.contents backend d = some body →
      ∃ record, L'.records d = some record ∧ sha256Hex body = record.sha256 := by
    intro backend d body hbody
    obtain ⟨record, hrecord, hdigest⟩ := hL backend d body hbody
    exact ⟨record, (grows_apply h).records d record hrecord, hdigest⟩
  cases action with
  | nothing | log _ | assign _ => cases h; exact hL
  | register record _ =>
    obtain ⟨-, rfl⟩ := apply_register_eq_some.mp h
    exact hold
  | store backend d body _ =>
    obtain ⟨⟨record, hrecord, hdigest⟩, rfl⟩ := apply_store_eq_some.mp h
    intro backend' d' body' hbody
    dsimp only at hbody
    split_ifs at hbody with hsame
    · obtain ⟨-, rfl⟩ := hsame
      cases hbody
      exact ⟨record, hrecord, hdigest⟩
    · exact hold backend' d' body' hbody

end Ledger

end GoAnalyze
