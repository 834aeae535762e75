import AgentOrchestrator.Store.Schema

/-!
# The security audit chain

Every security audit event carries the hash of its predecessor and its own hash, and the state
keeps the sequence number and hash of the last event as the head of the chain.
-/

namespace AgentOrchestrator.Store

variable (env : Env)

def securityPolicyVersion : String := "2026-07-24"

/-- The fields `SECURITY_AUDIT_HASH_FIELDS` of an event, in order, as one JSON array. -/
def SecurityAuditBody.canonical (e : SecurityAuditBody) : Json :=
  .arr [.str e.id, .nat e.sequence, .str e.occurredAt, .str e.requesterId, .str e.operation,
    .str e.decision.text, .str e.reasonCode, .str e.correlationId, .str e.policyVersion,
    .optStr e.workspaceId, .optStr e.projectId, .optStr e.assignmentId, .str e.previousEventHash]

def securityAuditEventHash (e : SecurityAuditBody) : String := env.digest e.canonical

/-- What `verifySecurityAuditChain` returns: the sequence number at which the chain is broken, or
`none` when it is valid. -/
abbrev ChainVerification := Option ℕ

/-- The loop over the events, from the one at `index`; on success the hash of the last event. -/
def verifyEvents (index : ℕ) (previousHash : String) : List SecurityAuditEvent → Except ℕ String
  | [] => .ok previousHash
  | e :: rest =>
    if e.sequence ≠ index + 1 ∨ e.previousEventHash ≠ previousHash ∨
        securityAuditEventHash env e.toSecurityAuditBody ≠ e.eventHash then .error (index + 1)
    else verifyEvents (index + 1) e.eventHash rest

def verifySecurityAuditChain (s : DurableState) : ChainVerification :=
  match verifyEvents env 0 genesisAuditHash s.securityAuditEvents with
  | .error sequence => some sequence
  | .ok previousHash =>
    match s.securityAuditHead with
    | none => if s.securityAuditEvents.length > 0 then some (s.securityAuditEvents.length + 1) else none
    | some head =>
      if head.sequence ≠ s.securityAuditEvents.length ∨ head.eventHash ≠ previousHash then
        some (s.securityAuditEvents.length + 1)
      else none

/-- `assertSecurityAuditChain`. -/
def assertSecurityAuditChain (s : DurableState) : Except StoreError Unit :=
  match verifySecurityAuditChain env s with
  | none => .ok ()
  | some sequence => .error (.security "INTEGRITY_FAILURE"
      ("Security audit integrity failure at sequence " ++ toString sequence))

/-- The event `appendSecurityAuditToState` builds; `uuid` is the drawn identifier. -/
def nextSecurityAuditEvent (input : SecurityAuditInput) (uuid : String) (now : Timestamp)
    (s : DurableState) : SecurityAuditEvent :=
  let previous := s.securityAuditEvents.getLast?
  let body : SecurityAuditBody :=
    { id := uuid
      sequence := (previous.map (·.sequence)).getD 0 + 1
      occurredAt := now
      requesterId := env.auditField input.requesterId
      operation := env.auditField input.operation
      decision := input.decision
      reasonCode := env.auditField input.reasonCode
      correlationId := env.auditField input.correlationId
      policyVersion := securityPolicyVersion
      workspaceId := input.workspaceId.map env.auditField
      projectId := input.projectId.map env.auditField
      assignmentId := input.assignmentId.map env.auditField
      previousEventHash := (previous.map (·.eventHash)).getD genesisAuditHash }
  { body with eventHash := securityAuditEventHash env body }

/-- Appends one event to the chain and moves its head. -/
def appendSecurityAuditToState (input : SecurityAuditInput) (uuid : String) (now : Timestamp)
    (s : DurableState) : Except StoreError DurableState :=
  match assertSecurityAuditChain env s with
  | .error e => .error e
  | .ok () =>
    let event := nextSecurityAuditEvent env input uuid now s
    if SecurityAuditEventSchema env event then
      .ok { s with
        securityAuditEvents := s.securityAuditEvents ++ [event]
        securityAuditHead := some { sequence := event.sequence, eventHash := event.eventHash } }
    else .error .schema

/-- The state with one event appended to the chain. -/
def extendChain (event : SecurityAuditEvent) (s : DurableState) : DurableState :=
  { s with
    securityAuditEvents := s.securityAuditEvents ++ [event]
    securityAuditHead := some { sequence := event.sequence, eventHash := event.eventHash } }

/-- An audit append succeeds exactly when the chain verifies and the new event parses. -/
theorem appendSecurityAuditToState_ok {input : SecurityAuditInput} {uuid : String}
    {now : Timestamp} {s t : DurableState} :
    appendSecurityAuditToState env input uuid now s = .ok t ↔
      assertSecurityAuditChain env s = .ok () ∧
        SecurityAuditEventSchema env (nextSecurityAuditEvent env input uuid now s) ∧
        t = extendChain (nextSecurityAuditEvent env input uuid now s) s := by
  unfold appendSecurityAuditToState
  cases hc : assertSecurityAuditChain env s with
  | error e =>
    constructor
    · intro h
      cases h
    · rintro ⟨h, -⟩
      cases h
  | ok u =>
    dsimp only
    constructor
    · intro h
      split_ifs at h with hev
      exact ⟨rfl, hev, (Except.ok.inj h).symm⟩
    · rintro ⟨-, hev, rfl⟩
      rw [if_pos hev]
      rfl

/-- An audit append changes the chain and nothing else. -/
theorem appendSecurityAuditToState_spec {input : SecurityAuditInput} {uuid : String}
    {now : Timestamp} {s t : DurableState}
    (h : appendSecurityAuditToState env input uuid now s = .ok t) :
    ∃ event head, t = { s with
      securityAuditEvents := s.securityAuditEvents ++ [event], securityAuditHead := head } := by
  obtain ⟨-, -, rfl⟩ := (appendSecurityAuditToState_ok env).1 h
  exact ⟨_, _, rfl⟩

/-- An optional audit event, as the launch events carry it. -/
def appendOptionalAudit (audit : Option SecurityAuditInput) (uuid : String) (now : Timestamp)
    (s : DurableState) : Except StoreError DurableState :=
  match audit with
  | none => .ok s
  | some input => appendSecurityAuditToState env input uuid now s

theorem appendOptionalAudit_spec {audit : Option SecurityAuditInput} {uuid : String}
    {now : Timestamp} {s t : DurableState}
    (h : appendOptionalAudit env audit uuid now s = .ok t) :
    ∃ events head, t = { s with
      securityAuditEvents := s.securityAuditEvents ++ events, securityAuditHead := head } := by
  cases audit with
  | none =>
    cases h
    exact ⟨[], s.securityAuditHead, by rw [List.append_nil]⟩
  | some input =>
    obtain ⟨event, head, rfl⟩ := appendSecurityAuditToState_spec env h
    exact ⟨[event], head, rfl⟩

end AgentOrchestrator.Store
