import AgentOrchestrator.Coordinator.Model
import AgentOrchestrator.Store.Changes

/-!
# Launch intents

What the calls to the store do to the launch intents on file, and which call to the store a call of
the coordinator makes when it resumes.  Intents are never removed and never go back (`Moved`), and
a bound intent keeps its run.
-/

namespace AgentOrchestrator.Coordinator

open Store

variable {env : Env}

/-- The intents on file. -/
def intents (disk : Disk) : List LaunchIntent := (contents disk).launchIntents

/-! ## Intents move forward -/

/-- A later version of the intent. -/
structure Advances (i j : LaunchIntent) : Prop where
  key : j.idempotencyKey = i.idempotencyKey
  hash : j.requestHash = i.requestHash
  begun : i.status ≠ .reserved → j.status ≠ .reserved
  bound : i.status = .bound → j.status = .bound ∧ j.runId = i.runId

theorem Advances.refl (i : LaunchIntent) : Advances i i :=
  ⟨rfl, rfl, fun h => h, fun h => ⟨h, rfl⟩⟩

theorem Advances.trans {i j k : LaunchIntent} (h : Advances i j) (h' : Advances j k) :
    Advances i k := by
  refine ⟨h'.key.trans h.key, h'.hash.trans h.hash, fun hi => h'.begun (h.begun hi), fun hi => ?_⟩
  obtain ⟨hj, hrun⟩ := h.bound hi
  obtain ⟨hk, hrun'⟩ := h'.bound hj
  exact ⟨hk, hrun'.trans hrun⟩

/-- Every intent has a later version in the other list. -/
def Moved (l l' : List LaunchIntent) : Prop := ∀ i ∈ l, ∃ j ∈ l', Advances i j

theorem Moved.refl (l : List LaunchIntent) : Moved l l := fun i hi => ⟨i, hi, .refl i⟩

theorem Moved.trans {l l' l'' : List LaunchIntent} (h : Moved l l') (h' : Moved l' l'') :
    Moved l l'' := by
  intro i hi
  obtain ⟨j, hj, hij⟩ := h i hi
  obtain ⟨k, hk, hjk⟩ := h' j hj
  exact ⟨k, hk, hij.trans hjk⟩

/-- An allowed transition that keeps the run of a bound intent is an advance. -/
theorem advances_of_allowed {i j : LaunchIntent} (hkey : j.idempotencyKey = i.idempotencyKey)
    (hhash : j.requestHash = i.requestHash) (hallowed : intentAllowed i.status j.status = true)
    (hrun : i.status = .bound → j.runId = i.runId) : Advances i j := by
  refine ⟨hkey, hhash, ?_, ?_⟩
  · intro hi hj
    rw [hj] at hallowed
    cases hst : i.status with
    | reserved => exact hi hst
    | dispatching => rw [hst] at hallowed; cases hallowed
    | unknownOutcome => rw [hst] at hallowed; cases hallowed
    | bound => rw [hst] at hallowed; cases hallowed
  · intro hi
    refine ⟨?_, hrun hi⟩
    rw [hi] at hallowed
    cases hst : j.status with
    | bound => rfl
    | reserved => rw [hst] at hallowed; cases hallowed
    | dispatching => rw [hst] at hallowed; cases hallowed
    | unknownOutcome => rw [hst] at hallowed; cases hallowed

/-- What `reserveLaunch` writes: a new intent at the end. -/
theorem reserveLaunch_commit {intent : LaunchIntent} {now : Timestamp} {s next : DurableState}
    {value : LaunchIntent × Bool} (h : reserveLaunch intent now s = .commit value next) :
    value = ({ intent with status := .reserved, createdAt := now, updatedAt := now }, true) ∧
      next = { s with launchIntents := s.launchIntents ++ [value.1] } := by
  unfold reserveLaunch at h
  split at h
  · split_ifs at h
  · obtain ⟨rfl, rfl⟩ := Body.commit.inj h
    exact ⟨rfl, rfl⟩

theorem moved_next {c : Call} {s next : DurableState} (hs : UniqueIdentities s)
    (h : c.next env.toEnv s = some next) : Moved s.launchIntents next.launchIntents := by
  by_cases hc : c.isIntent = false
  · rw [(Call.next_quiet hs hc h).intents]
    exact .refl _
  cases c with
  | reserveLaunch intent now =>
    obtain ⟨value, hcommit⟩ := Body.exists_commit h
    obtain ⟨-, rfl⟩ := reserveLaunch_commit hcommit
    intro i hi
    exact ⟨i, List.mem_append_left _ hi, .refl i⟩
  | updateLaunch key status runId diagnostic audit uuid now =>
    obtain ⟨value, hcommit⟩ := Body.exists_commit h
    obtain ⟨intent, hintent, hallowed, hvalue, hrun, -, hput⟩ := updateLaunch_commit hcommit
    rw [hput]
    intro i hi
    by_cases hkey : i.idempotencyKey = value.idempotencyKey
    · have hsame : i = intent := by
        refine Keyed.eq_of_key hs.uniqueKeys hi (Keyed.mem_of_lookup hintent) ?_
        rw [hkey, hvalue]
      refine ⟨value, Keyed.mem_put_self hi hkey, ?_⟩
      rw [hsame]
      exact advances_of_allowed (by rw [hvalue]) (by rw [hvalue]) (by rw [hvalue]; exact hallowed) hrun
    · exact ⟨i, Keyed.mem_put_of_ne hi hkey, .refl i⟩
  | _ => exact absurd rfl hc

/-- **Intents only move forward.** -/
theorem moved_step (disk : Disk) (i : Call × WriteOutcome) :
    Moved (intents disk) (intents (Store.step env.toEnv disk i)) := by
  rcases step_cases env.toEnv disk i.1 i.2 with e | ⟨next, hs, hn, -, e⟩
  · rw [e]
    exact .refl _
  · rw [e]
    exact moved_next hs.toUniqueIdentities hn

/-! ## Bound intents -/

/-- A bound intent has the run of the provider. -/
def BoundTo (runs : Launch.ProviderRuns) (l : List LaunchIntent) : Prop :=
  ∀ i ∈ l, i.status = .bound → i.runId ≠ none ∧ i.runId = runs i.idempotencyKey

/-- The call binds an intent to the run of the provider only. -/
def Binds (runs : Launch.ProviderRuns) : Call → Prop
  | .updateLaunch key status runId _ _ _ _ =>
    status = .bound → ∃ r, runId = some r ∧ runs key = some r
  | _ => True

theorem boundTo_step {runs : Launch.ProviderRuns} {disk : Disk} (h : BoundTo runs (intents disk))
    {c : Call} (hc : Binds runs c) (io : WriteOutcome) :
    BoundTo runs (intents (Store.step env.toEnv disk (c, io))) := by
  rcases step_cases env.toEnv disk c io with e | ⟨next, hs, hn, -, e⟩
  · rw [e]
    exact h
  rw [e]
  show BoundTo runs next.launchIntents
  by_cases hquiet : c.isIntent = false
  · rw [(Call.next_quiet hs.toUniqueIdentities hquiet hn).intents]
    exact h
  cases c with
  | reserveLaunch intent now =>
    obtain ⟨value, hcommit⟩ := Body.exists_commit hn
    obtain ⟨hvalue, rfl⟩ := reserveLaunch_commit hcommit
    intro i hi hbound
    rcases List.mem_append.1 hi with hi | hi
    · exact h i hi hbound
    · rw [List.mem_singleton.1 hi, hvalue] at hbound
      cases hbound
  | updateLaunch key status runId diagnostic audit uuid now =>
    obtain ⟨value, hcommit⟩ := Body.exists_commit hn
    obtain ⟨intent, hintent, -, hvalue, -, -, hput⟩ := updateLaunch_commit hcommit
    intro i hi hbound
    rw [hput] at hi
    rcases Keyed.mem_put hi with rfl | ⟨hi, -⟩
    · have hlookup := Keyed.key_of_lookup hintent
      have hkey : i.idempotencyKey = key := by
        rw [hvalue]
        exact hlookup
      have hstatus : status = .bound := by rw [hvalue] at hbound; exact hbound
      obtain ⟨r, rfl, hr⟩ := hc hstatus
      have hrun : i.runId = some r := by rw [hvalue]; rfl
      rw [hkey, hrun, hr]
      exact ⟨nofun, rfl⟩
    · exact h i hi hbound
  | _ => exact absurd rfl hquiet

/-! ## Results of store calls -/

theorem storedOn_disk {α : Type} {body : DurableState → Body α} {c : Call}
    (hc : ∀ s, (body s).next = c.next env.toEnv s) (io : WriteOutcome) (disk : Disk)
    (memory : List LaunchIntent) :
    (storedOn env body io disk memory).disk = Store.step env.toEnv disk (c, io) :=
  perform_disk hc io disk

theorem reserve_disk (intent : LaunchIntent) (now : Timestamp) (io : WriteOutcome) (disk : Disk)
    (memory : List LaunchIntent) : (reserve env intent now io disk memory).disk =
      Store.step env.toEnv disk (.reserveLaunch intent now, io) :=
  storedOn_disk (fun _ => rfl) io disk memory

theorem update_disk (key : String) (status : LaunchStatus) (runId diagnostic : Option String)
    (audit : Option SecurityAuditInput) (uuid : String) (now : Timestamp) (io : WriteOutcome)
    (disk : Disk) (memory : List LaunchIntent) :
    (update env key status runId diagnostic audit uuid now io disk memory).disk =
      Store.step env.toEnv disk (.updateLaunch key status runId diagnostic audit uuid now, io) := by
  unfold update
  dsimp only
  split <;> exact storedOn_disk (fun _ => rfl) io disk memory

theorem appendAudit_disk (audit : SecurityAuditInput) (uuid : String) (now : Timestamp)
    (io : WriteOutcome) (disk : Disk) (memory : List LaunchIntent) :
    (appendAudit env audit uuid now io disk memory).disk =
      Store.step env.toEnv disk (.appendSecurityAudit audit uuid now, io) :=
  storedOn_disk (fun _ => rfl) io disk memory

/-- An intent that was reserved is on file, under its key and its hash. -/
theorem reserve_ok {intent intent' : LaunchIntent} {created : Bool} {now : Timestamp}
    {io : WriteOutcome} {disk : Disk} {memory : List LaunchIntent}
    (h : (reserve env intent now io disk memory).result = .ok (intent', created)) :
    intent'.idempotencyKey = intent.idempotencyKey ∧ intent'.requestHash = intent.requestHash ∧
      intent' ∈ intents (reserve env intent now io disk memory).disk := by
  rcases perform_ok h with ⟨memory', hreply⟩ | ⟨next, -, hcommit, -, hdisk⟩
  · have hunchanged : (reserve env intent now io disk memory).disk = disk := perform_reply hreply io
    rw [hunchanged]
    unfold reserveLaunch at hreply
    split at hreply
    · rename_i existing hfind
      split_ifs at hreply with hhash
      cases hreply
      refine ⟨?_, not_not.1 hhash, List.mem_of_find?_eq_some hfind⟩
      simpa using List.find?_some hfind
    · cases hreply
  · obtain ⟨hvalue, hnext⟩ := reserveLaunch_commit hcommit
    obtain ⟨rfl, rfl⟩ := Prod.mk.inj hvalue
    refine ⟨rfl, rfl, ?_⟩
    show _ ∈ intents (perform env.toEnv _ io disk).1
    rw [hdisk, hnext]
    exact List.mem_append_right _ List.mem_cons_self

/-- An intent that was updated is on file with its new status and run. -/
theorem update_ok {key : String} {status : LaunchStatus} {runId diagnostic : Option String}
    {audit : Option SecurityAuditInput} {uuid : String} {now : Timestamp} {io : WriteOutcome}
    {disk : Disk} {memory : List LaunchIntent} {value : LaunchIntent}
    (h : (update env key status runId diagnostic audit uuid now io disk memory).result = .ok value) :
    value.idempotencyKey = key ∧ value.status = status ∧ (∀ r, runId = some r → value.runId = some r) ∧
      value ∈ intents (update env key status runId diagnostic audit uuid now io disk memory).disk := by
  have hresult : (perform env.toEnv (updateLaunch env.toEnv key status runId diagnostic audit uuid now)
      io disk).2 = .ok value := by
    unfold update at h
    dsimp only at h
    split at h <;> exact h
  rcases perform_ok hresult with ⟨memory', hreply⟩ | ⟨next, -, hcommit, -, hdisk⟩
  · unfold updateLaunch at hreply
    split at hreply
    · cases hreply
    · dsimp only at hreply
      split_ifs at hreply
      split at hreply <;> cases hreply
  · obtain ⟨intent, hintent, -, hvalue, -, -, hput⟩ := updateLaunch_commit hcommit
    have hlookup := Keyed.key_of_lookup hintent
    have hkey : value.idempotencyKey = key := by
      rw [hvalue]
      exact hlookup
    refine ⟨hkey, by rw [hvalue], ?_, ?_⟩
    · rintro r rfl
      rw [hvalue]
      rfl
    · rw [update_disk, ← perform_disk (fun _ => rfl) io disk, hdisk]
      show value ∈ next.launchIntents
      rw [hput]
      exact Keyed.mem_put_self (Keyed.mem_of_lookup hintent)
        ((Keyed.key_of_lookup hintent).trans hkey.symm)

end AgentOrchestrator.Coordinator
