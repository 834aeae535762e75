import AgentOrchestrator.Store.Deliveries

/-!
# The state in memory

A store keeps the state it loaded last in memory, and some queries are answered from it without
loading the file again.  The operations treat it in three ways when their write fails: they leave
their changes in it, put back the state they loaded, or load the file again.  `serve` is one call of
a store with the memory it leaves behind, and `memory_agrees_iff` says exactly when the memory of a
rejected call is the state on file.
-/

namespace AgentOrchestrator.Store

/-- What an operation does with the state in memory when its write fails. -/
inductive Recovery where
  | inPlace | restores | reloads
  deriving DecidableEq

def Call.recovery : Call → Recovery
  | .createBatch .. | .acceptLaunch .. | .acceptLaunchBatch .. => .reloads
  | .recordLaunchEvent .. | .updateLaunch .. => .restores
  | _ => .inPlace

/-- The body without its value. -/
def Body.erase {α : Type} : Body α → Body Unit
  | .reject error memory => .reject error memory
  | .reply _ memory => .reply () memory
  | .commit _ next => .commit () next

theorem Body.erase_next {α : Type} (b : Body α) : b.erase.next = b.next := by
  cases b <;> rfl

theorem Body.erase_reject {α : Type} {b : Body α} {error : StoreError} {memory : DurableState} :
    b.erase = .reject error memory ↔ b = .reject error memory := by
  cases b <;> simp [Body.erase]

/-- The checks a call makes on its arguments before it takes the lock. -/
def Call.validate : Call → Except StoreError Unit
  | .createBatch _ _ assignments _ _ _ =>
    if assignments.length = 0 ∨ assignments.length > 250 then
      .error (.batchQuery .invalidRequest "A batch requires between 1 and 250 assignments")
    else .ok ()
  | .updateWorker _ u => u.validate
  | _ => .ok ()

variable (env : Env)

/-- The body of a call. -/
def Call.body (s : DurableState) : Call → Body Unit
  | .createBatch name clientId assignments key now uuid =>
    (Store.createBatch env name clientId assignments key now uuid s).erase
  | .updateWorker workerId u => (Store.updateWorker workerId u s).erase
  | .recoverLifecycleDeliveryClaims => (Store.recoverLifecycleDeliveryClaims s).erase
  | .recordWorkerResult workerId succeeded result completedAt =>
    (Store.recordWorkerResult workerId succeeded result completedAt s).erase
  | .reconcile alive now => (Store.reconcile alive now s).erase
  | .reserveLaunch intent now => (Store.reserveLaunch intent now s).erase
  | .updateLaunch key status runId diagnostic audit uuid now =>
    (Store.updateLaunch env key status runId diagnostic audit uuid now s).erase
  | .acceptLaunch input batch uuid => (Store.acceptLaunch env input batch uuid s).erase
  | .acceptLaunchBatch inputs batch uuids =>
    (Store.acceptLaunchBatch env inputs batch uuids s).erase
  | .appendSecurityAudit input uuid now => (Store.appendSecurityAudit env input uuid now s).erase
  | .recordLaunchEvent id target event audit uuid =>
    (Store.recordLaunchEvent env id target event audit uuid s).erase
  | .captureResult input => (Store.captureResult env input s).erase

/-- The memory after `load` fails: the state is assigned before its audit chain is checked. -/
def failedLoad (disk : Disk) (memory : DurableState) : DurableState :=
  match disk with
  | none => memory
  | some s => if StateSchema env s then s else memory

/-- The memory after a failed write; `s` is the state the call loaded, `disk` the file now. -/
def Recovery.memory (s next : DurableState) (disk : Disk) : Recovery → DurableState
  | .inPlace => next
  | .restores => s
  | .reloads => match load env disk with
    | .ok t => t
    | .error _ => s

/-- What a call leaves behind: the file, the memory and the answer. -/
structure Served where
  disk : Disk
  memory : DurableState
  answer : Except StoreError Unit

/-- One call of a store with its memory; `unlocked` says whether the lock could be released. -/
def serve (c : Call) (io : WriteOutcome) (unlocked : Bool) (disk : Disk) (memory : DurableState) :
    Served :=
  let answer : Except StoreError Unit := if unlocked then .ok () else .error .write
  match c.validate with
  | .error e => ⟨disk, memory, .error e⟩
  | .ok () =>
    match load env disk with
    | .error e => ⟨disk, failedLoad env disk memory, .error e⟩
    | .ok s =>
      match c.body env s with
      | .reject e memory => ⟨disk, memory, .error e⟩
      | .reply _ memory => ⟨disk, memory, answer⟩
      | .commit _ next =>
        match persist env io next disk with
        | (disk, .ok ()) => ⟨disk, next, answer⟩
        | (disk, .error e) => ⟨disk, c.recovery.memory env s next disk, .error e⟩

variable {env}

/-- The body of a call asks for the next state of the call. -/
theorem Call.body_next {c : Call} (h : c.validate = .ok ()) (s : DurableState) :
    (c.body env s).next = c.next env s := by
  cases c with
  | createBatch name clientId assignments key now uuid =>
    unfold Call.validate at h
    dsimp only at h
    split_ifs at h with hlength
    unfold Call.next
    dsimp only
    rw [if_neg hlength]
    exact Body.erase_next _
  | updateWorker workerId u =>
    unfold Call.next
    dsimp only
    rw [show u.validate = .ok () from h]
    exact Body.erase_next _
  | reconcile alive now => rfl
  | _ => exact Body.erase_next _

/-- The file after a call is the one the state machine of the store has. -/
theorem serve_disk (c : Call) (io : WriteOutcome) (unlocked : Bool) (disk : Disk)
    (memory : DurableState) : (serve env c io unlocked disk memory).disk = step env disk (c, io) := by
  unfold serve step
  dsimp only
  cases hv : c.validate with
  | error e =>
    have hnone : ∀ s, c.next env s = none := by
      intro s
      cases c with
      | createBatch name clientId assignments key now uuid =>
        unfold Call.validate at hv
        dsimp only at hv
        split_ifs at hv with hlength
        exact if_pos hlength
      | updateWorker workerId u =>
        unfold Call.next
        dsimp only
        rw [show u.validate = .error e from hv]
      | _ => cases hv
    cases load env disk with
    | error e => rfl
    | ok s =>
      dsimp only
      rw [hnone s]
  | ok u =>
    dsimp only
    cases load env disk with
    | error e => rfl
    | ok s =>
      dsimp only
      rw [← Call.body_next hv s]
      cases c.body env s with
      | reject error memory => rfl
      | reply value memory => rfl
      | commit value next =>
        dsimp only [Body.next]
        cases hp : persist env io next disk with
        | mk disk' result =>
          cases result with
          | ok v => rfl
          | error e => rfl

/-! ## Calls refused after they changed the memory -/

variable (env)

/-- The call is refused midway: a result passes every check but no worker of its session is on
file, or the audit of a launch refused for a session that is over does not parse. -/
def Call.RefusedMidway (s : DurableState) : Call → Prop
  | .captureResult r => CapturedResultSchema env r ∧
      (∃ a, s.assignment? r.assignmentId = some a ∧ ResultMatches r a) ∧
      storedFor s r = none ∧ s.worker? r.sessionId = none
  | .recordLaunchEvent id target event audit uuid => target = .launching ∧
      AuditEventSchema env event ∧ (∃ a, s.assignment? id = some a ∧ sessionOver s a = true) ∧
      ∃ input, audit = some input ∧
        ¬ SecurityAuditEventSchema env (nextSecurityAuditEvent env input uuid event.occurredAt s)
  | _ => False

variable {env}

theorem captureResult_midway {s memory : DurableState} {r : CapturedResult} {error : StoreError}
    (h : captureResult env r s = .reject error memory) :
    memory = s ↔ ¬ (Call.captureResult r).RefusedMidway env s := by
  have hgrown : ({ s with capturedResults := s.capturedResults ++ [r] } : DurableState) ≠ s := by
    intro e
    have hlength := congrArg (fun t : DurableState => t.capturedResults.length) e
    simp at hlength
  unfold captureResult at h
  by_cases hr : CapturedResultSchema env r
  swap
  · rw [if_pos hr] at h
    exact iff_of_true (Body.reject.inj h).2.symm fun hm => hr hm.1
  rw [if_neg (not_not.2 hr)] at h
  cases ha : s.assignment? r.assignmentId with
  | none =>
    rw [ha] at h
    refine iff_of_true (Body.reject.inj h).2.symm ?_
    rintro ⟨-, ⟨a, ha', -⟩, -⟩
    rw [ha] at ha'
    cases ha'
  | some a =>
    rw [ha] at h
    dsimp only at h
    -- Every check that fails leaves the loaded state, and is one that a midway refusal passed.
    have hclean : (ResultMatches r a → False) → memory = s →
        (memory = s ↔ ¬ (Call.captureResult r).RefusedMidway env s) := by
      intro hnot hs
      refine iff_of_true hs ?_
      rintro ⟨-, ⟨a', ha', hmatch⟩, -⟩
      obtain rfl := Option.some.inj (ha.symm.trans ha')
      exact hnot hmatch
    by_cases hexact : a.workspaceId = none ∨ a.attemptId = none ∨ a.attempt = none
    · rw [if_pos hexact] at h
      exact hclean (fun hmatch => hmatch.exact hr hexact) (Body.reject.inj h).2.symm
    rw [if_neg hexact] at h
    cases hidentity : identityMismatch a r with
    | some identity =>
      rw [hidentity] at h
      refine hclean (fun hmatch => ?_) (Body.reject.inj h).2.symm
      rw [((resultMatches_iff ha).1 hmatch).1] at hidentity
      cases hidentity
    | none =>
      rw [hidentity] at h
      dsimp only at h
      by_cases hattr : a.attribution ≠ r.attribution
      · rw [if_pos hattr] at h
        exact hclean (fun hmatch => hattr ((resultMatches_iff ha).1 hmatch).2.1)
          (Body.reject.inj h).2.symm
      rw [if_neg hattr] at h
      by_cases hst : a.status ≠ .launched
      · rw [if_pos hst] at h
        exact hclean (fun hmatch => hst hmatch.2.1) (Body.reject.inj h).2.symm
      rw [if_neg hst] at h
      have hknown : ∀ e, storedFor s r = some e → ¬ (Call.captureResult r).RefusedMidway env s := by
        rintro e he ⟨-, -, hnone, -⟩
        rw [he] at hnone
        cases hnone
      unfold storedFor at hknown
      cases hd : s.capturedResults.find? fun e => e.deliveryId = r.deliveryId with
      | some e =>
        rw [hd] at h
        dsimp only at h
        split_ifs at h
        exact iff_of_true (Body.reject.inj h).2.symm (hknown e (by rw [hd]; rfl))
      | none =>
        rw [hd] at h
        dsimp only at h
        cases hatt : s.capturedResults.find? fun e => e.attemptId = r.attemptId with
        | some e =>
          rw [hatt] at h
          dsimp only at h
          split_ifs at h
          exact iff_of_true (Body.reject.inj h).2.symm (hknown e (by rw [hd, hatt]; rfl))
        | none =>
          rw [hatt] at h
          dsimp only at h
          cases hw : s.worker? r.sessionId with
          | some w => rw [hw] at h; cases h
          | none =>
            rw [hw] at h
            obtain ⟨-, rfl⟩ := Body.reject.inj h
            refine iff_of_false hgrown (not_not.2 ⟨hr, ⟨a, ha, ?_⟩, ?_, hw⟩)
            · exact (resultMatches_iff ha).2 ⟨hidentity, not_not.1 hattr, not_not.1 hst⟩
            · unfold storedFor
              rw [hd, hatt]
              rfl

theorem recordLaunchEvent_midway {id : String} {target : LaunchTarget} {event : LaunchAuditEvent}
    {audit : Option SecurityAuditInput} {uuid : String} {s memory : DurableState}
    {error : StoreError} (hchain : Chained env s)
    (h : recordLaunchEvent env id target event audit uuid s = .reject error memory) :
    memory = s ↔ ¬ (Call.recordLaunchEvent id target event audit uuid).RefusedMidway env s := by
  unfold recordLaunchEvent at h
  by_cases he : AuditEventSchema env event
  swap
  · rw [if_pos he] at h
    exact iff_of_true (Body.reject.inj h).2.symm fun hm => he hm.2.1
  rw [if_neg (not_not.2 he)] at h
  cases ha : s.assignment? id with
  | none =>
    rw [ha] at h
    refine iff_of_true (Body.reject.inj h).2.symm ?_
    rintro ⟨-, -, ⟨a, ha', -⟩, -⟩
    rw [ha] at ha'
    cases ha'
  | some a =>
    rw [ha] at h
    dsimp only at h
    by_cases hover : target = .launching ∧ sessionOver s a = true
    · rw [if_pos hover] at h
      have hgrown : refuseLaunch a event s ≠ s := by
        intro e
        have hlength := congrArg (fun t : DurableState => t.auditEvents.length) e
        simp [refuseLaunch] at hlength
      cases audit with
      | none => cases h
      | some input =>
        cases happend : appendOptionalAudit env (some input) uuid event.occurredAt
            (refuseLaunch a event s) with
        | ok t => rw [happend] at h; cases h
        | error e =>
          rw [happend] at h
          obtain ⟨-, rfl⟩ := Body.reject.inj h
          refine iff_of_false hgrown (not_not.2 ⟨hover.1, he, ⟨a, ha, hover.2⟩, input, rfl, ?_⟩)
          intro hschema
          have hok := (appendSecurityAuditToState_ok env).2
            ⟨(hchain.congr rfl rfl : Chained env (refuseLaunch a event s)), hschema, rfl⟩
          rw [show appendOptionalAudit env (some input) uuid event.occurredAt
            (refuseLaunch a event s) = .ok _ from hok] at happend
          cases happend
    · rw [if_neg hover] at h
      refine iff_of_true ?_ ?_
      · split_ifs at h
        · exact (Body.reject.inj h).2.symm
        · exact (Body.reject.inj h).2.symm
        · exact (Body.reject.inj h).2.symm
        · split at h
          · exact (Body.reject.inj h).2.symm
          · cases h
      · rintro ⟨htarget, -, ⟨a', ha', hover'⟩, -⟩
        obtain rfl := Option.some.inj (ha.symm.trans ha')
        exact hover ⟨htarget, hover'⟩

/-- A call that is refused midway is refused. -/
theorem Call.RefusedMidway.rejects {c : Call} {s : DurableState} (h : c.RefusedMidway env s) :
    ∃ error memory, c.body env s = .reject error memory := by
  cases c with
  | captureResult r =>
    obtain ⟨hr, ⟨a, ha, hmatch⟩, hstored, hw⟩ := h
    obtain ⟨hidentity, hattr, hst⟩ := (resultMatches_iff ha).1 hmatch
    obtain ⟨hd, hatt⟩ := Option.or_eq_none_iff.1 hstored
    have hreject : ∃ error memory, Store.captureResult env r s = .reject error memory := by
      unfold Store.captureResult
      rw [if_neg (not_not.2 hr), ha]
      dsimp only
      rw [if_neg (hmatch.exact hr), hidentity]
      dsimp only
      rw [if_neg (not_not.2 hattr), if_neg (not_not.2 hst), hd, hatt]
      dsimp only
      rw [hw]
      exact ⟨_, _, rfl⟩
    obtain ⟨error, memory, hb⟩ := hreject
    exact ⟨error, memory, Body.erase_reject.2 hb⟩
  | recordLaunchEvent id target event audit uuid =>
    obtain ⟨rfl, he, ⟨a, ha, hover⟩, input, rfl, hnot⟩ := h
    have herror : ∃ e, appendOptionalAudit env (some input) uuid event.occurredAt
        (refuseLaunch a event s) = .error e := by
      cases happend : appendOptionalAudit env (some input) uuid event.occurredAt
          (refuseLaunch a event s) with
      | error e => exact ⟨e, rfl⟩
      | ok t => exact absurd ((appendSecurityAuditToState_ok env).1 happend).2.1 hnot
    obtain ⟨e, happend⟩ := herror
    refine ⟨e, refuseLaunch a event s, Body.erase_reject.2 ?_⟩
    unfold Store.recordLaunchEvent
    rw [if_neg (not_not.2 he), ha]
    dsimp only
    rw [if_pos ⟨rfl, hover⟩, happend]
  | _ => exact h.elim

/-- A body that does not write leaves the loaded state in memory. -/
def Body.Clean {α : Type} (s : DurableState) : Body α → Prop
  | .reject _ memory => memory = s
  | .reply _ memory => memory = s
  | .commit _ _ => True

/-- A body that replies leaves the loaded state in memory. -/
def Body.CleanReply {α : Type} (s : DurableState) : Body α → Prop
  | .reply _ memory => memory = s
  | _ => True

theorem Body.Clean.reply {α : Type} {s : DurableState} {b : Body α} (h : b.Clean s) :
    b.CleanReply s := by
  cases b with
  | reject error memory => trivial
  | reply value memory => exact h
  | commit value next => trivial

theorem Body.clean_erase {α : Type} {s : DurableState} {b : Body α} (h : b.Clean s) :
    b.erase.Clean s := by
  cases b <;> exact h

theorem Body.cleanReply_erase {α : Type} {s : DurableState} {b : Body α} (h : b.CleanReply s) :
    b.erase.CleanReply s := by
  cases b <;> exact h

/-- The call is one that can be refused midway. -/
def Call.mayRefuseMidway : Call → Bool
  | .captureResult _ | .recordLaunchEvent .. => true
  | _ => false

/-- The other calls are clean. -/
theorem Call.body_clean {c : Call} (hc : c.mayRefuseMidway = false) (s : DurableState) :
    (c.body env s).Clean s := by
  cases c with
  | createBatch name clientId assignments key now uuid =>
    refine Body.clean_erase ?_
    unfold Store.createBatch
    dsimp only
    repeat' split
    all_goals first | rfl | trivial
  | updateWorker workerId u =>
    refine Body.clean_erase ?_
    unfold Store.updateWorker
    repeat' split
    all_goals first | rfl | trivial
  | recoverLifecycleDeliveryClaims =>
    refine Body.clean_erase ?_
    unfold Store.recoverLifecycleDeliveryClaims
    split
    all_goals first | rfl | trivial
  | recordWorkerResult workerId succeeded result completedAt =>
    refine Body.clean_erase ?_
    unfold Store.recordWorkerResult
    dsimp only
    repeat' split
    all_goals first | rfl | trivial
  | reconcile alive now => trivial
  | reserveLaunch intent now =>
    refine Body.clean_erase ?_
    unfold Store.reserveLaunch
    repeat' split
    all_goals first | rfl | trivial
  | updateLaunch key status runId diagnostic audit uuid now =>
    refine Body.clean_erase ?_
    unfold Store.updateLaunch
    dsimp only
    repeat' split
    all_goals first | rfl | trivial
  | acceptLaunch input batch uuid =>
    refine Body.clean_erase ?_
    unfold Store.acceptLaunch
    dsimp only
    repeat' split
    all_goals first | rfl | trivial
  | acceptLaunchBatch inputs batch uuids =>
    refine Body.clean_erase ?_
    unfold Store.acceptLaunchBatch
    dsimp only
    repeat' split
    all_goals first | rfl | trivial
  | appendSecurityAudit input uuid now =>
    refine Body.clean_erase ?_
    unfold Store.appendSecurityAudit
    split
    all_goals first | rfl | trivial
  | recordLaunchEvent id target event audit uuid => cases hc
  | captureResult r => cases hc

theorem Call.body_cleanReply (c : Call) (s : DurableState) : (c.body env s).CleanReply s := by
  by_cases hc : c.mayRefuseMidway = false
  · exact (Call.body_clean hc s).reply
  cases c with
  | recordLaunchEvent id target event audit uuid =>
    refine Body.cleanReply_erase ?_
    unfold Store.recordLaunchEvent
    dsimp only
    repeat' split
    all_goals first | rfl | trivial
  | captureResult r =>
    refine Body.cleanReply_erase ?_
    unfold Store.captureResult
    dsimp only
    repeat' split
    all_goals first | rfl | trivial
  | _ => exact absurd rfl hc

theorem Call.not_refusedMidway {c : Call} (hc : c.mayRefuseMidway = false) (s : DurableState) :
    ¬ c.RefusedMidway env s := by
  cases c with
  | recordLaunchEvent id target event audit uuid => cases hc
  | captureResult r => cases hc
  | _ => exact id

/-- **The memory of a refused body** is the loaded state unless the call is refused midway. -/
theorem Call.body_reject {c : Call} {s memory : DurableState} {error : StoreError}
    (hchain : Chained env s) (h : c.body env s = .reject error memory) :
    memory = s ↔ ¬ c.RefusedMidway env s := by
  by_cases hc : c.mayRefuseMidway = false
  · have hclean := @Call.body_clean env c hc s
    rw [h] at hclean
    exact iff_of_true hclean (Call.not_refusedMidway hc s)
  cases c with
  | recordLaunchEvent id target event audit uuid =>
    exact recordLaunchEvent_midway hchain (Body.erase_reject.1 h)
  | captureResult r => exact captureResult_midway (Body.erase_reject.1 h)
  | _ => exact absurd rfl hc

/-! ## When the memory agrees with the file -/

/-- The memory of the call is not the state on file: its arguments are refused while the memory is
stale, it is refused midway, or it has something to change and leaves the change in memory without a
write, or takes it back in memory after the write. -/
def Diverges (env : Env) (c : Call) (io : WriteOutcome) (s memory : DurableState) : Prop :=
  (c.validate ≠ .ok () ∧ memory ≠ s) ∨
  (c.validate = .ok () ∧ (c.RefusedMidway env s ∨ ∃ next, c.next env s = some next ∧ next ≠ s ∧
    ((c.recovery = .inPlace ∧ ¬ (StateSchema env next ∧ io ≠ .failedBeforeRename)) ∨
      (c.recovery = .restores ∧ StateSchema env next ∧ io = .failedAfterRename))))

theorem loads_iff {disk : Disk} (h : Loads env disk) {memory : DurableState} :
    load env disk = .ok memory ↔ memory = contents disk := by
  rw [show load env disk = .ok (contents disk) from h]
  exact ⟨fun e => (Except.ok.inj e).symm, fun e => by rw [e]⟩

/-- The memory after a failed write is the state on file exactly if the call does not diverge. -/
theorem recovery_agrees_iff {c : Call} {io : WriteOutcome} {disk disk' : Disk}
    {s next : DurableState} {e : StoreError} (hs : s = contents disk)
    (hp : persist env io next disk = (disk', .error e)) (hl : Loads env disk') :
    c.recovery.memory env s next disk' = contents disk' ↔
      ¬ (next ≠ s ∧
        ((c.recovery = .inPlace ∧ ¬ (StateSchema env next ∧ io ≠ .failedBeforeRename)) ∨
          (c.recovery = .restores ∧ StateSchema env next ∧ io = .failedAfterRename))) := by
  -- Either the rename happened and the file holds the next state, or the file is the old one.
  have hdisk : (StateSchema env next ∧ io = .failedAfterRename ∧ contents disk' = next) ∨
      (¬ (StateSchema env next ∧ io ≠ .failedBeforeRename) ∧ contents disk' = s) := by
    rcases persist_error hp with ⟨hv, hio, rfl⟩ | ⟨hnot, rfl⟩
    · exact Or.inl ⟨hv, hio, rfl⟩
    · exact Or.inr ⟨hnot, hs.symm⟩
  cases hr : c.recovery with
  | inPlace =>
    show next = contents disk' ↔ _
    rcases hdisk with ⟨hv, hio, hd⟩ | ⟨hnot, hd⟩
    · refine iff_of_true hd.symm ?_
      rintro ⟨-, ⟨-, hnot⟩ | ⟨e, -⟩⟩
      · exact hnot ⟨hv, by rw [hio]; decide⟩
      · cases e
    · rw [hd]
      constructor
      · rintro e ⟨hne, -⟩
        exact hne e
      · intro hagree
        by_contra hne
        exact hagree ⟨hne, Or.inl ⟨rfl, hnot⟩⟩
  | restores =>
    show s = contents disk' ↔ _
    rcases hdisk with ⟨hv, hio, hd⟩ | ⟨hnot, hd⟩
    · rw [hd]
      constructor
      · rintro e ⟨hne, -⟩
        exact hne e.symm
      · intro hagree
        by_contra hne
        exact hagree ⟨fun e => hne e.symm, Or.inr ⟨rfl, hv, hio⟩⟩
    · refine iff_of_true hd.symm ?_
      rintro ⟨-, ⟨e, -⟩ | ⟨-, hv, hio⟩⟩
      · cases e
      · exact hnot ⟨hv, by rw [hio]; decide⟩
  | reloads =>
    show (match load env disk' with | .ok t => t | .error _ => s) = contents disk' ↔ _
    rw [show load env disk' = .ok (contents disk') from hl]
    refine iff_of_true rfl ?_
    rintro ⟨-, ⟨e, -⟩ | ⟨e, -⟩⟩
    · cases e
    · cases e

/-- **Memory and file after a rejected call.** From every reachable file, once a call has been
rejected, loading the file gives the state in memory exactly if the call does not diverge. -/
theorem memory_agrees_iff {disk : Disk} (h : Reachable env disk) {c : Call} {io : WriteOutcome}
    {unlocked : Bool} {memory : DurableState} {e : StoreError}
    (herror : (serve env c io unlocked disk memory).answer = .error e) :
    load env (serve env c io unlocked disk memory).disk =
        .ok (serve env c io unlocked disk memory).memory ↔
      ¬ Diverges env c io (contents disk) memory := by
  have hloads := h.loads
  have hserved : Loads env (serve env c io unlocked disk memory).disk := by
    rw [serve_disk]
    exact loads_step (c, io) hloads
  rw [loads_iff hserved]
  unfold serve at herror hserved ⊢
  dsimp only at herror hserved ⊢
  unfold Diverges
  cases hv : c.validate with
  | error e' =>
    dsimp only
    constructor
    · rintro hagree (⟨-, hne⟩ | ⟨hok, -⟩)
      · exact hne hagree
      · cases hok
    · intro hnot
      by_contra hne
      exact hnot (Or.inl ⟨(nomatch ·), hne⟩)
  | ok u =>
    rw [hv] at herror hserved
    dsimp only at herror hserved ⊢
    rw [show load env disk = .ok (contents disk) from hloads] at herror hserved ⊢
    dsimp only at herror hserved ⊢
    have hnext := @Call.body_next env c hv (contents disk)
    cases hb : c.body env (contents disk) with
    | reject e' m =>
      dsimp only
      rw [hb] at hnext
      rw [Call.body_reject hloads.chained hb]
      constructor
      · rintro hnot (⟨hne, -⟩ | ⟨-, hmid | ⟨next, hn, -⟩⟩)
        · exact hne rfl
        · exact hnot hmid
        · rw [← hnext] at hn
          cases hn
      · intro hnot hmid
        exact hnot (Or.inr ⟨rfl, Or.inl hmid⟩)
    | reply value m =>
      have hclean := @Call.body_cleanReply env c (contents disk)
      rw [hb] at hclean hnext
      refine iff_of_true hclean ?_
      rintro (⟨hne, -⟩ | ⟨-, hmid | ⟨next, hn, -⟩⟩)
      · exact hne rfl
      · obtain ⟨e', m', hreject⟩ := hmid.rejects
        rw [hb] at hreject
        cases hreject
      · rw [← hnext] at hn
        cases hn
    | commit value next =>
      rw [hb] at herror hserved hnext
      dsimp only at herror hserved ⊢
      have hmid : ¬ c.RefusedMidway env (contents disk) := by
        intro hmid
        obtain ⟨e', m', hreject⟩ := hmid.rejects
        rw [hb] at hreject
        cases hreject
      cases hp : persist env io next disk with
      | mk disk' result =>
        rw [hp] at herror hserved
        cases result with
        | ok v =>
          -- The write completed; only the release of the lock failed.
          obtain ⟨hschema, rfl, rfl⟩ := persist_ok hp
          refine iff_of_true rfl ?_
          rintro (⟨hne, -⟩ | ⟨-, hmid' | ⟨next', hn, -, ⟨-, hnot⟩ | ⟨-, -, hio⟩⟩⟩)
          · exact hne rfl
          · exact hmid hmid'
          · obtain rfl := Option.some.inj (hnext.trans hn)
            exact hnot ⟨hschema, by decide⟩
          · cases hio
        | error e' =>
          show c.recovery.memory env (contents disk) next disk' = contents disk' ↔ _
          rw [recovery_agrees_iff rfl hp hserved, not_iff_not]
          constructor
          · intro hdiverges
            exact Or.inr ⟨rfl, Or.inr ⟨next, hnext.symm, hdiverges⟩⟩
          · rintro (⟨hne, -⟩ | ⟨-, hmid' | ⟨next', hn, hdiverges⟩⟩)
            · exact absurd rfl hne
            · exact absurd hmid' hmid
            · obtain rfl := Option.some.inj (hnext.trans hn)
              exact hdiverges

/-- The sample launch cannot be accepted; the store loads the file again and agrees with it. -/
theorem memory_agrees_iff_sample :
    (serve plainEnv (.acceptLaunch sampleInput sampleBatch "u1") .failedBeforeRename true none
      emptyState).answer = .error .write ∧
    load plainEnv (serve plainEnv (.acceptLaunch sampleInput sampleBatch "u1") .failedBeforeRename
        true none emptyState).disk =
      .ok (serve plainEnv (.acceptLaunch sampleInput sampleBatch "u1") .failedBeforeRename true none
        emptyState).memory := by
  have herror : (serve plainEnv (.acceptLaunch sampleInput sampleBatch "u1") .failedBeforeRename
      true none emptyState).answer = .error .write := by decide +kernel
  refine ⟨herror, (memory_agrees_iff ⟨[], rfl⟩ herror).2 ?_⟩
  rintro (⟨hne, -⟩ | ⟨-, hmid | ⟨next, -, -, ⟨hr, -⟩ | ⟨hr, -⟩⟩⟩)
  · exact hne rfl
  · exact hmid
  · cases hr
  · cases hr

/-- The state file while the sample session is launched. -/
def launchedFile : Disk :=
  Runs.run (step plainEnv) none (sampleLaunching ++ [sampleEvent "e3" .launched (some "run-1")])

/-- The deadline of the sample worker could not be written, but stays in memory. -/
theorem unwritten_deadline_served :
    (serve plainEnv (.updateWorker "s1" (.setWorkerDeadline "2026-02-01")) .failedBeforeRename true
      launchedFile (contents launchedFile)).answer = .error .write ∧
    ¬ load plainEnv (serve plainEnv (.updateWorker "s1" (.setWorkerDeadline "2026-02-01"))
        .failedBeforeRename true launchedFile (contents launchedFile)).disk =
      .ok (serve plainEnv (.updateWorker "s1" (.setWorkerDeadline "2026-02-01"))
        .failedBeforeRename true launchedFile (contents launchedFile)).memory := by
  decide +kernel

end AgentOrchestrator.Store
