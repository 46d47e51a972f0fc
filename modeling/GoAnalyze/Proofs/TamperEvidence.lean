import GoAnalyze.Lib.HashChain
import GoAnalyze.Proofs.EventHash

/-! Tamper evidence: the hash of the last event determines a whole chain. -/

namespace GoAnalyze

open JsonText HashChain

/-- A chain that verifies: the events of one tenant, each naming the hash of the
event before it and carrying its own. -/
structure ValidChain (hmac : Bytes → Bytes → String) (secret : String) (es : List AuditEvent) :
    Prop where
  oneTenant : ∃ t, ∀ e ∈ es, e.tenantId = t
  linked : Linked AuditEvent.previousHash AuditEvent.eventHash none es
  hashed : ∀ e ∈ es, e.eventHash = some (AuditLog.hashEvent hmac secret e)

variable {hmac : Bytes → Bytes → String} {secret : String}

theorem sameEvent_of_eventHash_eq (hinj : Function.Injective (hmac (encodeUtf8 secret.toList)))
    {e f : AuditEvent} (he : e.eventHash = some (AuditLog.hashEvent hmac secret e))
    (hf : f.eventHash = some (AuditLog.hashEvent hmac secret f)) (h : e.eventHash = f.eventHash) :
    SameEvent e f := by
  have hsame := sameEvent_of_hashEvent_eq hinj (Option.some.inj (he.symm.trans (h.trans hf)))
  exact
    { id := hsame.id
      tenantId := hsame.tenantId
      actor := hsame.actor
      action := hsame.action
      resourceType := hsame.resourceType
      resourceId := hsame.resourceId
      purpose := hsame.purpose
      traceId := hsame.traceId
      timestamp := hsame.timestamp
      details := hsame.details
      previousHash := hsame.previousHash
      eventHash := h }

/-- Two chains that verify and end in the same hash are the same chain: as long,
and event by event equal in every field. -/
theorem sameEvents_of_last_eventHash_eq
    (hinj : Function.Injective (hmac (encodeUtf8 secret.toList))) {es fs : List AuditEvent}
    (hes : ValidChain hmac secret es) (hfs : ValidChain hmac secret fs)
    (hlast : es.getLast?.bind AuditEvent.eventHash = fs.getLast?.bind AuditEvent.eventHash) :
    es.length = fs.length ∧ List.Forall₂ SameEvent es fs := by
  have hsome : ∀ {es}, ValidChain hmac secret es → ∀ e ∈ es, e.eventHash ≠ none :=
    fun hv e he => by simp [hv.hashed e he]
  have hall : List.Forall₂ SameEvent es fs := by
    refine forall₂_of_last_hash_eq (fun e he f hf h => ?_) (fun _ _ h => h.previousHash)
      (hsome hes) (hsome hfs) hes.linked hfs.linked (by rw [headFrom_none, headFrom_none, hlast])
    exact sameEvent_of_eventHash_eq hinj (hes.hashed e he) (hfs.hashed f hf) h
  exact ⟨hall.length_eq, hall⟩

/-! An upload and a download of one document, the details of the first event
with their members in the one order and in the other. -/

def exampleTime : DateTime where
  year := ⟨2024, by decide⟩
  month := ⟨3, by decide⟩
  day := ⟨1, by decide⟩
  hour := ⟨12, by decide⟩
  minute := ⟨30, by decide⟩
  second := ⟨5, by decide⟩
  microsecond := ⟨250000, by decide⟩
  tzinfo := some utc

def exampleEvent (id : UUID) (action : String) (details : Dict) : AuditEvent where
  id := id
  tenantId := "env"
  actor := "api-user"
  action := action
  resourceType := "document"
  resourceId := "7"
  purpose := "case-review"
  traceId := "local-trace"
  timestamp := exampleTime
  details := details
  previousHash := none
  eventHash := none

def exampleHash : AuditEvent → String := AuditLog.hashEvent transparentHmac "k"

def exampleChain (details : Dict) : List AuditEvent :=
  let first := AuditRepository.chainEvent exampleHash none (exampleEvent 1 "uploaded" details)
  [first, AuditRepository.chainEvent exampleHash first.eventHash (exampleEvent 2 "downloaded" [])]

def exampleDetails : Dict := [("bytes", intJson 3), ("ok", .bool true)]

theorem exampleChain_valid (details : Dict) :
    ValidChain transparentHmac "k" (exampleChain details) where
  oneTenant := ⟨"env", by simp [exampleChain, exampleEvent]⟩
  linked := ⟨rfl, rfl, trivial⟩
  hashed := by
    intro e he
    rcases List.mem_pair.mp he with rfl | rfl
    all_goals exact eventHash_chainEvent _ _ _ _

theorem exampleChain_last : (exampleChain exampleDetails).getLast?.bind AuditEvent.eventHash =
    (exampleChain exampleDetails.reverse).getLast?.bind AuditEvent.eventHash := by
  have hfirst : some (exampleHash (exampleEvent 1 "uploaded" exampleDetails)) =
      some (exampleHash (exampleEvent 1 "uploaded" exampleDetails.reverse)) :=
    congrArg some (hashEvent_details_congr transparentHmac "k" (exampleEvent 1 "uploaded" []) rfl)
  exact congrArg (fun h =>
    (AuditRepository.chainEvent exampleHash h (exampleEvent 2 "downloaded" [])).eventHash) hfirst

theorem sameEvents_exampleChain :
    (exampleChain exampleDetails).length = (exampleChain exampleDetails.reverse).length ∧
      List.Forall₂ SameEvent (exampleChain exampleDetails)
        (exampleChain exampleDetails.reverse) :=
  sameEvents_of_last_eventHash_eq (transparentHmac_injective _) (exampleChain_valid _)
    (exampleChain_valid _) exampleChain_last

end GoAnalyze
