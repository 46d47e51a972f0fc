import GoAnalyze.Proofs.TamperEvidence

/-! Verifying an event after it has been stored and read back. PostgreSQL returns
the event that was hashed; SQLite loses the zone of its timestamp, and with it
the `Z` of the hashed text. -/

namespace GoAnalyze

open AuditRepository

variable {hmac : Bytes → Bytes → String} {secret : String}

/-- The hash of a reloaded event is the one stored with it. -/
def Verifies (hmac : Bytes → Bytes → String) (secret : String) (orm : AuditEventORM) : Prop :=
  orm.eventHash = some (AuditLog.hashEvent hmac secret (ormToDomain orm))

/-- A stored event as `append_with_chain_lock` writes it. -/
def appended (hmac : Bytes → Bytes → String) (secret : String) (dialect : Dialect)
    (previousHash : Option String) (event : AuditEvent) : AuditEventORM :=
  toOrm dialect (chainEvent (AuditLog.hashEvent hmac secret) previousHash event)

theorem verifies_postgresql {event : AuditEvent} (hutc : event.timestamp.tzinfo = some utc)
    (previousHash : Option String) :
    Verifies hmac secret (appended hmac secret .postgresql previousHash event) := by
  have hback : ormToDomain (appended hmac secret .postgresql previousHash event) =
      chainEvent (AuditLog.hashEvent hmac secret) previousHash event := by
    rw [appended, ormToDomain_toOrm, storedDateTime, chainEvent_timestamp,
      DateTime.toUtc_of_utc hutc]
    rfl
  rw [Verifies, hback]
  exact eventHash_chainEvent hmac secret previousHash event

/-- On SQLite it comes back naive, and equal hashes would need equal timestamps. -/
theorem not_verifies_sqlite (hinj : Function.Injective (hmac (encodeUtf8 secret.toList)))
    {event : AuditEvent} (hutc : event.timestamp.tzinfo = some utc)
    (previousHash : Option String) :
    ¬ Verifies hmac secret (appended hmac secret .sqlite previousHash event) := by
  intro h
  have hstored := eventHash_chainEvent hmac secret previousHash event
  have hsame := sameEvent_of_hashEvent_eq hinj (Option.some.inj (h.symm.trans hstored))
  have hzone := congrArg DateTime.tzinfo hsame.timestamp
  simp [appended, ormToDomain_toOrm, storedDateTime, hutc] at hzone

/-- An appended event with a UTC timestamp verifies after a reload exactly on
PostgreSQL. -/
theorem verifies_iff_postgresql (hinj : Function.Injective (hmac (encodeUtf8 secret.toList)))
    (dialect : Dialect) (previousHash : Option String) {event : AuditEvent}
    (hutc : event.timestamp.tzinfo = some utc) :
    Verifies hmac secret (appended hmac secret dialect previousHash event) ↔
      dialect = .postgresql := by
  cases dialect with
  | postgresql => exact iff_of_true (verifies_postgresql hutc previousHash) rfl
  | sqlite => exact iff_of_false (not_verifies_sqlite hinj hutc previousHash) (by simp)

theorem verifies_iff_postgresql_upload :
    Verifies transparentHmac "k"
        (appended transparentHmac "k" .postgresql none (exampleEvent 1 "uploaded" exampleDetails)) ↔
      Dialect.postgresql = .postgresql :=
  verifies_iff_postgresql (transparentHmac_injective _) .postgresql none rfl

theorem reload_fails_on_sqlite :
    ¬ Verifies transparentHmac "k"
      (appended transparentHmac "k" .sqlite none (exampleEvent 1 "uploaded" exampleDetails)) :=
  not_verifies_sqlite (transparentHmac_injective _) rfl none

end GoAnalyze
