import Mathlib.Data.List.Induction
import AgentOrchestrator.JsonPrint
import AgentOrchestrator.Store.Chain
import AgentOrchestrator.Store.Sessions

/-!
# The head of the audit chain

The hash of an event is the SHA-256 digest of its fields, printed as one array, the hash of the
event before it among them.  So the head of a chain that verifies determines all of its events,
unless two of them collide.
-/

namespace AgentOrchestrator.Store

variable {env : Env}

/-! ## The hashed text -/

theorem AuditDecision.text_injective : Function.Injective AuditDecision.text := by
  intro a b h
  cases a <;> cases b <;> first | rfl | exact absurd h (by decide)

/-- The canonical array leaves no field out, and tells an absent field from every text. -/
theorem SecurityAuditBody.canonical_injective : Function.Injective SecurityAuditBody.canonical := by
  rintro ⟨⟨requester, operation, decision, reason, correlation, workspace, project, assignment⟩,
    id, sequence, occurred, policy, previous⟩
    ⟨⟨requester', operation', decision', reason', correlation', workspace', project', assignment'⟩,
      id', sequence', occurred', policy', previous'⟩ h
  simp only [SecurityAuditBody.canonical, Json.arr.injEq, List.cons.injEq, Json.str.injEq,
    and_true] at h
  obtain ⟨rfl, hsequence, rfl, rfl, rfl, hdecision, rfl, rfl, rfl, hworkspace, hproject, hassignment,
    rfl⟩ := h
  obtain rfl := Json.nat_injective hsequence
  obtain rfl := AuditDecision.text_injective hdecision
  obtain rfl := Json.optStr_injective hworkspace
  obtain rfl := Json.optStr_injective hproject
  obtain rfl := Json.optStr_injective hassignment
  rfl

/-- The text whose digest is the hash of the event. -/
def SecurityAuditBody.hashed (number : Json.NumberFormat) (e : SecurityAuditBody) : String :=
  String.ofList (Json.print number e.canonical)

theorem SecurityAuditBody.hashed_injective (number : Json.NumberFormat) :
    Function.Injective (SecurityAuditBody.hashed number) := by
  intro e f h
  exact canonical_injective (Json.print_injective (String.ofList_injective h))

/-! ## From the head backwards -/

/-- What the check of the last event of a list amounts to. -/
theorem verifyEvents_snoc {index : ℕ} {first last : String} {l : List SecurityAuditEvent}
    {e : SecurityAuditEvent} (h : verifyEvents env index first (l ++ [e]) = .ok last) :
    verifyEvents env index first l = .ok e.previousEventHash ∧
      securityAuditEventHash env e.toSecurityAuditBody = e.eventHash ∧ e.eventHash = last := by
  induction l generalizing index first with
  | nil =>
    rw [List.nil_append] at h
    unfold verifyEvents at h
    split_ifs at h with hbroken
    push Not at hbroken
    refine ⟨?_, hbroken.2.2, Except.ok.inj h⟩
    rw [hbroken.2.1]
    rfl
  | cons d rest ih =>
    rw [List.cons_append] at h
    unfold verifyEvents at h ⊢
    split_ifs at h ⊢ with hbroken
    exact ih h

/-- Two lists of one length that verify to the same hash are the same, when their events do not
collide. -/
theorem verifyEvents_unique {index : ℕ} {first last : String} {l m : List SecurityAuditEvent}
    (hl : verifyEvents env index first l = .ok last) (hm : verifyEvents env index first m = .ok last)
    (hlength : l.length = m.length)
    (hfree : ∀ e ∈ l, ∀ f ∈ m, securityAuditEventHash env e.toSecurityAuditBody =
      securityAuditEventHash env f.toSecurityAuditBody →
      e.toSecurityAuditBody = f.toSecurityAuditBody) : l = m := by
  -- From the last event backwards: its body names the hash the events before it verify to.
  induction l using List.reverseRecOn generalizing m last with
  | nil => exact (List.length_eq_zero_iff.1 hlength.symm).symm
  | append_singleton l e ih =>
    rcases List.eq_nil_or_concat' m with rfl | ⟨m, f, rfl⟩
    · rw [List.length_append, List.length_singleton, List.length_nil] at hlength
      omega
    obtain ⟨hprevious, hhash, rfl⟩ := verifyEvents_snoc hl
    obtain ⟨hprevious', hhash', hlast⟩ := verifyEvents_snoc hm
    have hbody : e.toSecurityAuditBody = f.toSecurityAuditBody :=
      hfree e (List.mem_append_right _ (List.mem_singleton_self _)) f
        (List.mem_append_right _ (List.mem_singleton_self _)) (by rw [hhash, hhash', hlast])
    have hevent : e = f := by
      obtain ⟨body, hash⟩ := e
      obtain ⟨body', hash'⟩ := f
      obtain rfl : body = body' := hbody
      obtain rfl : hash' = hash := hlast
      rfl
    subst hevent
    have hrest : l = m := by
      refine ih hprevious hprevious' ?_ fun a ha b hb => ?_
      · rw [List.length_append, List.length_append] at hlength
        exact Nat.add_right_cancel hlength
      · exact hfree a (List.mem_append_left _ ha) b (List.mem_append_left _ hb)
    rw [hrest]

/-- What a verified state says of its events and its head. -/
theorem verified_head {s : DurableState} (h : verifySecurityAuditChain env s = none) :
    ∃ last, verifyEvents env 0 genesisAuditHash s.securityAuditEvents = .ok last ∧
      match s.securityAuditHead with
      | none => s.securityAuditEvents = []
      | some head => head.sequence = s.securityAuditEvents.length ∧ head.eventHash = last := by
  unfold verifySecurityAuditChain at h
  cases hv : verifyEvents env 0 genesisAuditHash s.securityAuditEvents with
  | error sequence => rw [hv] at h; cases h
  | ok last =>
    rw [hv] at h
    refine ⟨last, rfl, ?_⟩
    dsimp only at h
    cases hhead : s.securityAuditHead with
    | none =>
      rw [hhead] at h
      dsimp only at h ⊢
      split_ifs at h with hsome
      exact List.length_eq_zero_iff.1 (Nat.eq_zero_of_not_pos hsome)
    | some head =>
      rw [hhead] at h
      dsimp only at h ⊢
      split_ifs at h with hbroken
      push Not at hbroken
      exact hbroken

/-- No two events of the states have one digest for different texts. -/
def CollisionFree (number : Json.NumberFormat) (sha256 : String → String) (s t : DurableState) :
    Prop :=
  ∀ e ∈ s.securityAuditEvents, ∀ f ∈ t.securityAuditEvents,
    sha256 (e.hashed number) = sha256 (f.hashed number) → e.hashed number = f.hashed number

instance (number : Json.NumberFormat) (sha256 : String → String) (s t : DurableState) :
    Decidable (CollisionFree number sha256 s t) :=
  inferInstanceAs (Decidable (∀ e ∈ s.securityAuditEvents, ∀ f ∈ t.securityAuditEvents, _ → _))

/-- **The audit chain is kept and binding.** Every call takes a state whose chain verifies to one
whose chain verifies, and only appends events.  Two states whose chains verify and whose heads are
the same have the same events, when their events do not collide under SHA-256. -/
theorem audit_chain_kept_and_binding (env : Env) :
    (∀ (c : Call) (s next : DurableState), StateSchema env s →
      verifySecurityAuditChain env s = none → c.next env s = some next →
        verifySecurityAuditChain env next = none ∧
          s.securityAuditEvents <+: next.securityAuditEvents) ∧
    ∀ (number : Json.NumberFormat) (sha256 : String → String),
      (∀ e, securityAuditEventHash env e = sha256 (e.hashed number)) →
      ∀ s t, StateSchema env s → StateSchema env t →
        verifySecurityAuditChain env s = none → verifySecurityAuditChain env t = none →
        CollisionFree number sha256 s t → s.securityAuditHead = t.securityAuditHead →
          s.securityAuditEvents = t.securityAuditEvents := by
  refine ⟨fun c s next hs hv hnext => ?_, fun number sha256 hsha s t _ _ hs ht hfree hhead => ?_⟩
  · have hunique := hs.toUniqueIdentities
    refine ⟨?_, Call.next_events hunique hnext⟩
    exact (chained_iff next).1 (Call.next_chained hunique ((chained_iff s).2 hv) hnext)
  · obtain ⟨last, hl, hshead⟩ := verified_head hs
    obtain ⟨last', hm, hthead⟩ := verified_head ht
    rw [← hhead] at hthead
    cases hcase : s.securityAuditHead with
    | none =>
      rw [hcase] at hshead hthead
      rw [show s.securityAuditEvents = [] from hshead, show t.securityAuditEvents = [] from hthead]
    | some head =>
      rw [hcase] at hshead hthead
      obtain ⟨hlength, rfl⟩ := hshead
      obtain ⟨hlength', rfl⟩ := hthead
      refine verifyEvents_unique hl hm (hlength.symm.trans hlength') fun e he f hf hhash => ?_
      rw [hsha, hsha] at hhash
      exact SecurityAuditBody.hashed_injective number (hfree e he f hf hhash)

/-- A file with one audit event. -/
def auditedFile : DurableState := contents (Runs.run (step plainEnv) none [acceptSample])

/-- The file after a deadline was set. -/
def laterFile : DurableState :=
  contents (Runs.run (step plainEnv) none
    [acceptSample, written (.updateWorker "s1" (.setWorkerDeadline "2026-01-03"))])

theorem audit_chain_kept_and_binding_sample :
    auditedFile ≠ laterFile ∧ auditedFile.securityAuditEvents ≠ [] ∧
      auditedFile.securityAuditEvents = laterFile.securityAuditEvents ∧
      ∃ next, (Call.appendSecurityAudit sampleInput.securityAudit "u2" "2026-01-02").next plainEnv
        auditedFile = some next ∧ verifySecurityAuditChain plainEnv next = none ∧
        auditedFile.securityAuditEvents <+: next.securityAuditEvents := by
  have hvalid : StateSchema plainEnv auditedFile ∧ StateSchema plainEnv laterFile := by
    decide +kernel
  have hverified : verifySecurityAuditChain plainEnv auditedFile = none ∧
      verifySecurityAuditChain plainEnv laterFile = none := by decide +kernel
  have hfree : CollisionFree Json.fractions (fun _ => genesisAuditHash) auditedFile laterFile := by
    decide +kernel
  have hhead : auditedFile.securityAuditHead = laterFile.securityAuditHead := by decide +kernel
  have happended : ((Call.appendSecurityAudit sampleInput.securityAudit "u2" "2026-01-02").next
      plainEnv auditedFile).isSome = true := by decide +kernel
  obtain ⟨next, hnext⟩ := Option.isSome_iff_exists.1 happended
  obtain ⟨hkept, hbinding⟩ := audit_chain_kept_and_binding plainEnv
  exact ⟨by decide +kernel, by decide +kernel,
    hbinding Json.fractions (fun _ => genesisAuditHash) (fun _ => rfl) _ _ hvalid.1 hvalid.2
      hverified.1 hverified.2 hfree hhead,
    next, hnext, hkept _ _ _ hvalid.1 hverified.1 hnext⟩

end AgentOrchestrator.Store
