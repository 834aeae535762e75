import AgentOrchestrator.Discovery.Parser
import AgentOrchestrator.Discovery.Process
import AgentOrchestrator.Library.Keyed
import AgentOrchestrator.Security.Workspace

/-!
# Discovery

`SupersetDiscoveryAdapter.discover` probes the version, then the host, then lists the projects, the
workspaces and the agents at once.  The first of the three to fail aborts the others, and the call
ends when all of them have.

1. `discover_over`: when discovery ends, no process of it is left, and it never ends with an abort
   of its own.
2. `discover_result`: what holds of a result.
-/

namespace AgentOrchestrator.Discovery

open Runs ChildProcess

/-! ## The commands -/

inductive Command where
  | version | status | projects | workspaces | agents
  deriving DecidableEq

def Command.args : Command → List String
  | .version => ["--version"]
  | .status => ["status", "--json"]
  | .projects => ["projects", "list", "--local", "--json"]
  | .workspaces => ["workspaces", "list", "--local", "--json"]
  | .agents => ["agents", "list", "--local", "--json"]

/-- One of the three that are run at once. -/
def Command.lists : Command → Bool
  | .version | .status => false
  | _ => true

/-- What `discover` rejects with. -/
inductive Thrown where
  | process (failure : Failure)
  | exited (command : Command) (exitCode : ℤ)
  | malformed (command : Command)
  | unsupported (version : List Char)
  | hostUnavailable
  | ambiguous
  | remoteOnly
  deriving DecidableEq

def Thrown.error : Thrown → SupersetDiscoveryError
  | .process failure => failure.error
  | .exited command exitCode =>
    { code := .unavailable
      message := "Superset " ++ command.args.headD "" ++ " failed with exit code " ++
        toString exitCode }
  | .malformed command =>
    { code := .malformedResponse
      message := "Superset " ++
        (if command = .version then "version probe" else " ".intercalate (command.args.take 2)) ++
        " returned an unsupported response" }
  | .unsupported version =>
    { code := .unsupportedVersion
      message := "Superset " ++ String.ofList version ++
        " is unsupported; version 1.0.0 or newer is required" }
  | .hostUnavailable => { code := .unavailable, message := "Local Superset host is unavailable" }
  | .ambiguous =>
    { code := .ambiguous, message := "Superset discovery returned duplicate identities" }
  | .remoteOnly =>
    { code := .remoteOnly
      message := "Superset local discovery returned a workspace belonging to a remote host or " ++
        "organization" }

/-- `MINIMUM_SUPPORTED_MAJOR` -/
def minimumSupportedMajor : ℕ := 1

def invoke (command : Command) : Except Failure ProcessResult → Except Thrown (List Char)
  | .error failure => .error (.process failure)
  | .ok r => if r.exitCode ≠ 0 then .error (.exited command r.exitCode) else .ok r.stdout

def probeVersion (x : Except Failure ProcessResult) : Except Thrown (List Char) := do
  let stdout ← invoke .version x
  match parseVersion stdout with
  | none => .error (.malformed .version)
  | some (version, major) =>
    if major < minimumSupportedMajor then .error (.unsupported version) else .ok version

/-- `command` -/
def runCommand {α : Type} (command : Command) (schema : Json → Option α)
    (x : Except Failure ProcessResult) : Except Thrown α := do
  let stdout ← invoke command x
  match parseJson schema stdout with
  | none => .error (.malformed command)
  | some value => .ok value

/-- What the authorizer reads of a project. -/
def Project.registered (p : Project) : Security.Project := { id := p.id, path := p.path }

/-- What the authorizer reads of a workspace. -/
def Workspace.registered (w : Workspace) : Security.Workspace where
  id := w.id
  organizationId := w.organizationId
  projectId := w.projectId
  hostId := w.hostId
  createdByUserId := w.createdByUserId
  worktreePath := w.worktreePath
  worktreeExists := w.worktreeExists

structure SupersetDiscoveryResult where
  version : List Char
  host : LocalHost
  projects : List Project
  workspaces : List Workspace
  presets : List AgentPreset
  deriving DecidableEq

/-- `inventory` -/
def SupersetDiscoveryResult.inventory (r : SupersetDiscoveryResult) : Security.WorkspaceInventory where
  hostId := r.host.hostId
  organizationId := r.host.organizationId
  projects := r.projects.map Project.registered
  workspaces := r.workspaces.map Workspace.registered

def validateLocalResults (host : LocalHost) (projects : List Project) (workspaces : List Workspace)
    (presets : List AgentPreset) : Except Thrown Unit :=
  if ¬ (projects.map (·.id)).Nodup ∨ ¬ (workspaces.map (·.id)).Nodup ∨
      ¬ (presets.map (·.id)).Nodup then .error .ambiguous
  else if ∃ workspace ∈ workspaces,
      workspace.hostId ≠ host.hostId ∨ workspace.organizationId ≠ host.organizationId then
    .error .remoteOnly
  else .ok ()

/-! ## A discovery -/

structure State where
  /-- the processes of the commands -/
  calls : Command → Process.System := fun _ => {}
  version : Option (List Char) := none
  host : Option LocalHost := none
  /-- what `Promise.all` rejects with -/
  failure : Option Thrown := none
  settled : Option (Except Thrown SupersetDiscoveryResult) := none

/-- The command has been called. -/
def State.begun (s : State) : Command → Bool
  | .version => true
  | .status => s.version.isSome
  | _ => s.host.isSome

/-- What the process of a command has come to. -/
def State.answer (s : State) (command : Command) : Option (Except Failure ProcessResult) :=
  (s.calls command).client.settled

def State.settle (s : State) (x : Except Thrown SupersetDiscoveryResult) : State :=
  { s with settled := some x }

/-- What was thrown. -/
def thrown? {ε α : Type} : Except ε α → Option ε
  | .error e => some e
  | .ok _ => none

inductive Act where
  /-- a process and its client go on -/
  | call (command : Command) (a : Process.Act)
  /-- `Promise.all` rejects with the error of a command, and the others are aborted -/
  | reject (command : Command)
  /-- what is awaited has settled -/
  | next

/-- Only `discover` aborts. -/
def Process.Act.isAbort : Process.Act → Bool
  | .abort => true
  | _ => false

variable (isUrl isoDatetime : String → Bool) (timeoutMs : ℕ)

/-- The error of a command that was listed. -/
def State.rejection (s : State) (command : Command) : Option Thrown :=
  match command with
  | .projects => (s.answer .projects).bind (thrown? ∘ runCommand .projects projectListSchema)
  | .workspaces =>
    (s.answer .workspaces).bind (thrown? ∘ runCommand .workspaces (workspaceListSchema isoDatetime))
  | .agents => (s.answer .agents).bind (thrown? ∘ runCommand .agents agentPresetListSchema)
  | _ => none

/-- `controller.abort()` -/
def State.abortLists (s : State) : State :=
  { s with calls := fun command =>
      if command.lists then Process.step timeoutMs (s.calls command) .abort else s.calls command }

/-- All three lists have come, and are checked. -/
def State.conclude (s : State) (version : List Char) (host : LocalHost) : State :=
  match s.answer .projects, s.answer .workspaces, s.answer .agents with
  | some projects, some workspaces, some agents =>
    match runCommand .projects projectListSchema projects,
      runCommand .workspaces (workspaceListSchema isoDatetime) workspaces,
      runCommand .agents agentPresetListSchema agents with
    | .ok projects, .ok workspaces, .ok presets =>
      s.settle ((validateLocalResults host projects workspaces presets).map fun _ =>
        { version, host, projects, workspaces, presets })
    | _, _, _ => s
  | _, _, _ => s

/-- `discover` goes on. -/
def State.next (s : State) : State :=
  match s.version, s.host, s.failure with
  | none, _, _ =>
    match (s.answer .version).map probeVersion with
    | none => s
    | some (.error e) => s.settle (.error e)
    | some (.ok version) => { s with version := some version }
  | some _, none, _ =>
    match (s.answer .status).map (runCommand .status (localHostSchema isUrl)) with
    | none => s
    | some (.error e) => s.settle (.error e)
    | some (.ok host) =>
      if host.running && host.healthy then { s with host := some host }
      else s.settle (.error .hostUnavailable)
  | some version, some host, none => s.conclude isoDatetime version host
  | some _, some _, some e =>
    if (s.answer .projects).isSome ∧ (s.answer .workspaces).isSome ∧ (s.answer .agents).isSome then
      s.settle (.error e)
    else s

def discover (s : State) : Act → State
  | .call command a =>
    if s.begun command ∧ a.isAbort = false then
      { s with calls := Function.update s.calls command (Process.step timeoutMs (s.calls command) a) }
    else s
  | .reject command =>
    if s.settled.isNone ∧ s.host.isSome ∧ s.failure.isNone then
      match s.rejection isoDatetime command with
      | some e => { s.abortLists timeoutMs with failure := some e }
      | none => s
    else s
  | .next => if s.settled.isNone then s.next isUrl isoDatetime else s

/-! ## What holds between two steps -/

/-- A result that was checked. -/
structure Checked (s : State) (r : SupersetDiscoveryResult) : Prop where
  version : s.version = some r.version
  host : s.host = some r.host
  projects : (s.answer .projects).map (runCommand .projects projectListSchema) =
    some (.ok r.projects)
  workspaces : (s.answer .workspaces).map (runCommand .workspaces
    (workspaceListSchema isoDatetime)) = some (.ok r.workspaces)
  presets : (s.answer .agents).map (runCommand .agents agentPresetListSchema) = some (.ok r.presets)
  valid : validateLocalResults r.host r.projects r.workspaces r.presets = .ok ()

structure Sound (s : State) : Prop where
  calls : ∀ command, ∃ acts, s.calls command = run (Process.step timeoutMs) {} acts ∧
    (s.failure = none ∨ command.lists = false → .abort ∉ acts)
  idle : ∀ command, s.begun command = false → s.calls command = {}
  version : ∀ version, s.version = some version →
    (s.answer .version).map probeVersion = some (.ok version)
  host : ∀ host, s.host = some host → s.version.isSome ∧ host.running = true ∧
    host.healthy = true ∧
    (s.answer .status).map (runCommand .status (localHostSchema isUrl)) = some (.ok host)
  failure : ∀ e, s.failure = some e → s.host.isSome ∧ e ≠ .process .cancelled
  settled : ∀ x, s.settled = some x → ∀ command, s.begun command = true →
    (s.answer command).isSome
  result : ∀ r, s.settled = some (.ok r) → Checked isoDatetime s r
  error : ∀ e, s.settled = some (.error e) → e ≠ .process .cancelled

variable {isUrl isoDatetime : String → Bool} {timeoutMs : ℕ} {s : State}

theorem sound_init : Sound isUrl isoDatetime timeoutMs {} where
  calls _ := ⟨[], rfl, fun _ => List.not_mem_nil⟩
  idle _ _ := rfl
  version _ h := absurd h (by simp)
  host _ h := absurd h (by simp)
  failure _ h := absurd h (by simp)
  settled _ h := absurd h (by simp)
  result _ h := absurd h (by simp)
  error _ h := absurd h (by simp)

theorem Sound.not_cancelled (h : Sound isUrl isoDatetime timeoutMs s) {command : Command}
    (hopen : s.failure = none ∨ command.lists = false) :
    s.answer command ≠ some (.error .cancelled) := by
  obtain ⟨acts, hacts, habort⟩ := h.calls command
  rw [State.answer, hacts]
  exact Process.not_cancelled (habort hopen)

theorem invoke_error {command : Command} {x : Except Failure ProcessResult} {e : Thrown}
    (h : invoke command x = .error e) : x = .error .cancelled ∨ e ≠ .process .cancelled := by
  cases x with
  | error failure =>
    obtain rfl := Except.error.inj h
    by_cases hfailure : failure = .cancelled
    · exact Or.inl (by rw [hfailure])
    · exact Or.inr (by simpa using hfailure)
  | ok r =>
    rw [invoke] at h
    split_ifs at h
    rw [← Except.error.inj h]
    exact Or.inr (by simp)

theorem runCommand_error {α : Type} {command : Command} {schema : Json → Option α}
    {x : Except Failure ProcessResult} {e : Thrown} (h : runCommand command schema x = .error e) :
    x = .error .cancelled ∨ e ≠ .process .cancelled := by
  unfold runCommand at h
  cases hinvoke : invoke command x with
  | error e' =>
    rw [hinvoke] at h
    obtain rfl : e' = e := Except.error.inj h
    exact invoke_error hinvoke
  | ok stdout =>
    rw [hinvoke] at h
    cases hparse : parseJson schema stdout with
    | none =>
      obtain rfl : Thrown.malformed command = e := by
        simpa [Bind.bind, Except.bind, hparse] using h
      exact Or.inr (by simp)
    | some value => simp [Bind.bind, Except.bind, hparse] at h

theorem probeVersion_error {x : Except Failure ProcessResult} {e : Thrown}
    (h : probeVersion x = .error e) : x = .error .cancelled ∨ e ≠ .process .cancelled := by
  unfold probeVersion at h
  cases hinvoke : invoke .version x with
  | error e' =>
    rw [hinvoke] at h
    obtain rfl : e' = e := Except.error.inj h
    exact invoke_error hinvoke
  | ok stdout =>
    rw [hinvoke] at h
    simp only [Bind.bind, Except.bind] at h
    split at h
    · rw [← Except.error.inj h]
      exact Or.inr (by simp)
    · split_ifs at h
      rw [← Except.error.inj h]
      exact Or.inr (by simp)

/-! ### Steps -/

theorem map_later {α β : Type} {f : α → β} {o o' : Option α} {y : β}
    (hlater : ∀ x, o = some x → o' = some x) (h : o.map f = some y) : o'.map f = some y := by
  obtain ⟨x, hx, rfl⟩ := Option.map_eq_some_iff.1 h
  rw [hlater x hx]
  rfl

/-- The processes go on, or are aborted. -/
theorem Sound.update (h : Sound isUrl isoDatetime timeoutMs s) {calls : Command → Process.System}
    (failure : Option Thrown)
    (hcalls : ∀ command, ∃ acts, calls command = run (Process.step timeoutMs) {} acts ∧
      (failure = none ∨ command.lists = false → .abort ∉ acts))
    (hidle : ∀ command, s.begun command = false → calls command = {})
    (hlater : ∀ command x, s.answer command = some x → (calls command).client.settled = some x)
    (hfailure : ∀ e, failure = some e → s.host.isSome ∧ e ≠ .process .cancelled) :
    Sound isUrl isoDatetime timeoutMs { s with calls := calls, failure := failure } where
  calls := hcalls
  idle := hidle
  version version hversion := map_later (hlater _) (h.version version hversion)
  host host hhost := by
    obtain ⟨hversion, hrunning, hhealthy, hanswer⟩ := h.host host hhost
    exact ⟨hversion, hrunning, hhealthy, map_later (hlater _) hanswer⟩
  failure := hfailure
  settled x hx command hbegun := by
    obtain ⟨y, hy⟩ := Option.isSome_iff_exists.1 (h.settled x hx command hbegun)
    exact Option.isSome_iff_exists.2 ⟨y, hlater command y hy⟩
  result r hr := by
    have hchecked := h.result r hr
    exact ⟨hchecked.version, hchecked.host, map_later (hlater _) hchecked.projects,
      map_later (hlater _) hchecked.workspaces, map_later (hlater _) hchecked.presets,
      hchecked.valid⟩
  error := h.error

theorem Sound.call (h : Sound isUrl isoDatetime timeoutMs s) {command : Command} {a : Process.Act}
    (hbegun : s.begun command = true) (ha : a.isAbort = false) :
    Sound isUrl isoDatetime timeoutMs { s with
      calls := Function.update s.calls command (Process.step timeoutMs (s.calls command) a) } := by
  refine h.update s.failure (fun command' => ?_) (fun command' hidle => ?_)
    (fun command' x hx => ?_) h.failure
  · obtain ⟨acts, hacts, habort⟩ := h.calls command'
    by_cases hc : command' = command
    · subst hc
      refine ⟨acts ++ [a], ?_, fun hopen => ?_⟩
      · rw [Function.update_self, hacts, run_append]
        rfl
      · simp only [List.mem_append, List.mem_singleton, not_or]
        refine ⟨habort hopen, ?_⟩
        rintro rfl
        exact absurd ha (by simp [Process.Act.isAbort])
    · exact ⟨acts, by rw [Function.update_of_ne hc, hacts], habort⟩
  · have hc : command' ≠ command := by
      rintro rfl
      exact absurd (hbegun.symm.trans hidle) (by simp)
    rw [Function.update_of_ne hc]
    exact h.idle command' hidle
  · by_cases hc : command' = command
    · subst hc
      rw [Function.update_self]
      exact Process.step_settled hx a
    · rw [Function.update_of_ne hc]
      exact hx

theorem rejection_error {command : Command} {e : Thrown}
    (h : s.rejection isoDatetime command = some e) :
    command.lists = true ∧
      (s.answer command = some (.error .cancelled) ∨ e ≠ .process .cancelled) := by
  have hthrown : ∀ {α : Type} {command : Command} {schema : Json → Option α},
      (s.answer command).bind (thrown? ∘ runCommand command schema) = some e →
      s.answer command = some (.error .cancelled) ∨ e ≠ .process .cancelled := by
    intro α command schema hbind
    obtain ⟨x, hx, hthrown⟩ := Option.bind_eq_some_iff.1 hbind
    simp only [Function.comp_apply] at hthrown
    cases hrun : runCommand command schema x with
    | ok value => rw [hrun] at hthrown; exact absurd hthrown (by simp [thrown?])
    | error e' =>
      rw [hrun] at hthrown
      obtain rfl := Option.some.inj hthrown
      exact (runCommand_error hrun).imp (fun hcancelled => by rw [hx, hcancelled]) id
  cases command with
  | version => exact absurd h (by simp [State.rejection])
  | status => exact absurd h (by simp [State.rejection])
  | projects => exact ⟨rfl, hthrown h⟩
  | workspaces => exact ⟨rfl, hthrown h⟩
  | agents => exact ⟨rfl, hthrown h⟩

theorem Sound.reject (h : Sound isUrl isoDatetime timeoutMs s) {command : Command} {e : Thrown}
    (hhost : s.host.isSome) (hnone : s.failure = none)
    (he : s.rejection isoDatetime command = some e) :
    Sound isUrl isoDatetime timeoutMs { s.abortLists timeoutMs with failure := some e } := by
  refine h.update (some e) (fun command' => ?_) (fun command' hidle => ?_)
    (fun command' x hx => ?_) (fun e' he' => ?_)
  · obtain ⟨acts, hacts, habort⟩ := h.calls command'
    simp only [State.abortLists]
    split_ifs with hlists
    · refine ⟨acts ++ [.abort], by rw [hacts, run_append]; rfl, ?_⟩
      rintro (hfailure | hlists')
      · exact absurd hfailure (by simp)
      · exact absurd (hlists.symm.trans hlists') (by simp)
    · exact ⟨acts, hacts, fun _ => habort (Or.inl hnone)⟩
  · have hlists : command'.lists = false := by
      cases command' with
      | version => rfl
      | status => rfl
      | projects => exact absurd (hhost.symm.trans hidle) (by simp)
      | workspaces => exact absurd (hhost.symm.trans hidle) (by simp)
      | agents => exact absurd (hhost.symm.trans hidle) (by simp)
    simp only [State.abortLists, hlists, Bool.false_eq_true, if_false]
    exact h.idle command' hidle
  · simp only [State.abortLists]
    split_ifs
    · exact Process.step_settled hx .abort
    · exact hx
  · obtain rfl := Option.some.inj he'
    refine ⟨hhost, ?_⟩
    exact (rejection_error he).2.resolve_left (h.not_cancelled (Or.inl hnone))

theorem Sound.settle (h : Sound isUrl isoDatetime timeoutMs s)
    {x : Except Thrown SupersetDiscoveryResult}
    (hall : ∀ command, s.begun command = true → (s.answer command).isSome)
    (hresult : ∀ r, x = .ok r → Checked isoDatetime s r)
    (herror : ∀ e, x = .error e → e ≠ .process .cancelled) :
    Sound isUrl isoDatetime timeoutMs (s.settle x) where
  calls := h.calls
  idle := h.idle
  version := h.version
  host := h.host
  failure := h.failure
  settled _ _ := hall
  result r hr := by
    have hchecked := hresult r (Option.some.inj hr)
    exact ⟨hchecked.version, hchecked.host, hchecked.projects, hchecked.workspaces,
      hchecked.presets, hchecked.valid⟩
  error e he := herror e (Option.some.inj he)

theorem isSome_of_map {α β : Type} {f : α → β} {o : Option α} {y : β} (h : o.map f = some y) :
    o.isSome := by
  obtain ⟨x, rfl, -⟩ := Option.map_eq_some_iff.1 h
  rfl

theorem Sound.host_none (h : Sound isUrl isoDatetime timeoutMs s) (hversion : s.version = none) :
    s.host = none := by
  cases hhost : s.host with
  | none => rfl
  | some host => exact absurd (h.host host hhost).1 (by simp [hversion])

/-- What was begun has been answered. -/
theorem Sound.answered (h : Sound isUrl isoDatetime timeoutMs s)
    (hversion : s.version = none → (s.answer .version).isSome)
    (hstatus : s.version.isSome → s.host = none → (s.answer .status).isSome)
    (hlists : s.host.isSome → (s.answer .projects).isSome ∧ (s.answer .workspaces).isSome ∧
      (s.answer .agents).isSome) (command : Command) (hbegun : s.begun command = true) :
    (s.answer command).isSome := by
  cases command with
  | version =>
    cases hv : s.version with
    | none => exact hversion hv
    | some version => exact isSome_of_map (h.version version hv)
  | status =>
    cases hh : s.host with
    | none => exact hstatus hbegun hh
    | some host => exact isSome_of_map (h.host host hh).2.2.2
  | projects => exact (hlists hbegun).1
  | workspaces => exact (hlists hbegun).2.1
  | agents => exact (hlists hbegun).2.2

theorem Sound.probed (h : Sound isUrl isoDatetime timeoutMs s) (hversion : s.version = none)
    (hopen : s.settled = none) {version : List Char}
    (hanswer : (s.answer .version).map probeVersion = some (.ok version)) :
    Sound isUrl isoDatetime timeoutMs { s with version := some version } where
  calls := h.calls
  idle command hidle := by
    refine h.idle command ?_
    cases command with
    | version => exact hidle
    | status => rw [State.begun, hversion]; rfl
    | projects => exact hidle
    | workspaces => exact hidle
    | agents => exact hidle
  version version' hv := by
    obtain rfl := Option.some.inj hv
    exact hanswer
  host host hhost := absurd ((h.host_none hversion).symm.trans hhost) (by simp)
  failure := h.failure
  settled x hx := absurd (hopen.symm.trans hx) (by simp)
  result r hr := absurd (hopen.symm.trans hr) (by simp)
  error := h.error

theorem Sound.checked (h : Sound isUrl isoDatetime timeoutMs s) (hversion : s.version.isSome)
    (hnone : s.host = none) (hopen : s.settled = none) {host : LocalHost}
    (hrunning : host.running = true) (hhealthy : host.healthy = true)
    (hanswer : (s.answer .status).map (runCommand .status (localHostSchema isUrl)) =
      some (.ok host)) : Sound isUrl isoDatetime timeoutMs { s with host := some host } where
  calls := h.calls
  idle command hidle := by
    refine h.idle command ?_
    cases command with
    | version => exact hidle
    | status => exact hidle
    | projects => simp [State.begun, hnone]
    | workspaces => simp [State.begun, hnone]
    | agents => simp [State.begun, hnone]
  version := h.version
  host host' hhost := by
    obtain rfl := Option.some.inj hhost
    exact ⟨hversion, hrunning, hhealthy, hanswer⟩
  failure e he := ⟨rfl, (h.failure e he).2⟩
  settled x hx := absurd (hopen.symm.trans hx) (by simp)
  result r hr := absurd (hopen.symm.trans hr) (by simp)
  error := h.error

theorem Sound.conclude (h : Sound isUrl isoDatetime timeoutMs s) {version : List Char}
    {host : LocalHost} (hversion : s.version = some version) (hhost : s.host = some host) :
    Sound isUrl isoDatetime timeoutMs (s.conclude isoDatetime version host) := by
  unfold State.conclude
  split
  · next projects workspaces agents hprojects hworkspaces hagents =>
    split
    · next ps ws as hps hws has =>
      refine h.settle (h.answered ?_ ?_ ?_) (fun r hr => ?_) (fun e he => ?_)
      · exact fun hnone => absurd (hversion.symm.trans hnone) (by simp)
      · exact fun _ hnone => absurd (hhost.symm.trans hnone) (by simp)
      · exact fun _ => ⟨by rw [hprojects]; rfl, by rw [hworkspaces]; rfl, by rw [hagents]; rfl⟩
      · cases hvalid : validateLocalResults host ps ws as with
        | error e => rw [hvalid] at hr; exact absurd hr (by simp [Except.map])
        | ok u =>
          rw [hvalid] at hr
          obtain rfl := Except.ok.inj hr
          exact ⟨hversion, hhost, by rw [hprojects, Option.map_some, hps],
            by rw [hworkspaces, Option.map_some, hws], by rw [hagents, Option.map_some, has], hvalid⟩
      · unfold validateLocalResults at he
        split_ifs at he
        · rw [← Except.error.inj he]
          simp
        · rw [← Except.error.inj he]
          simp
        · exact absurd he (by simp [Except.map])
    · exact h
  · exact h

theorem Sound.next (h : Sound isUrl isoDatetime timeoutMs s) (hopen : s.settled = none) :
    Sound isUrl isoDatetime timeoutMs (s.next isUrl isoDatetime) := by
  unfold State.next
  split
  · next hversion =>
    have hhost := h.host_none hversion
    split
    · exact h
    · next e hanswer =>
      obtain ⟨x, hx, hprobe⟩ := Option.map_eq_some_iff.1 hanswer
      refine h.settle (h.answered ?_ ?_ ?_) (fun r hr => ?_) (fun e' he => ?_)
      · exact fun _ => isSome_of_map hanswer
      · exact fun hsome => absurd hsome (by simp [hversion])
      · exact fun hsome => absurd hsome (by simp [hhost])
      · exact absurd hr (by simp)
      · obtain rfl := Except.error.inj he
        refine (probeVersion_error hprobe).resolve_left fun hcancelled => ?_
        exact h.not_cancelled (Or.inr rfl) (hx.trans (by rw [hcancelled]))
    · next version hanswer => exact h.probed hversion hopen hanswer
  · next version hversion hhost =>
    have hsome : s.version.isSome := by rw [hversion]; rfl
    split
    · exact h
    · next e hanswer =>
      obtain ⟨x, hx, hrun⟩ := Option.map_eq_some_iff.1 hanswer
      refine h.settle (h.answered ?_ ?_ ?_) (fun r hr => ?_) (fun e' he => ?_)
      · exact fun hnone => absurd (hversion.symm.trans hnone) (by simp)
      · exact fun _ _ => isSome_of_map hanswer
      · exact fun hsome => absurd hsome (by simp [hhost])
      · exact absurd hr (by simp)
      · obtain rfl := Except.error.inj he
        refine (runCommand_error hrun).resolve_left fun hcancelled => ?_
        exact h.not_cancelled (Or.inr rfl) (hx.trans (by rw [hcancelled]))
    · next host hanswer =>
      split_ifs with hwell
      · obtain ⟨hrunning, hhealthy⟩ : host.running = true ∧ host.healthy = true := by
          simpa using hwell
        exact h.checked hsome hhost hopen hrunning hhealthy hanswer
      · refine h.settle (h.answered ?_ ?_ ?_) (fun r hr => ?_) (fun e he => ?_)
        · exact fun hnone => absurd (hversion.symm.trans hnone) (by simp)
        · exact fun _ _ => isSome_of_map hanswer
        · exact fun hsome => absurd hsome (by simp [hhost])
        · exact absurd hr (by simp)
        · rw [← Except.error.inj he]
          simp
  · next version host hversion hhost hfailure => exact h.conclude hversion hhost
  · next version host e hversion hhost hfailure =>
    split_ifs with hlists
    · refine h.settle (h.answered ?_ ?_ (fun _ => hlists)) (fun r hr => ?_) (fun e' he => ?_)
      · exact fun hnone => absurd (hversion.symm.trans hnone) (by simp)
      · exact fun _ hnone => absurd (hhost.symm.trans hnone) (by simp)
      · exact absurd hr (by simp)
      · obtain rfl := Except.error.inj he
        exact (h.failure e hfailure).2
    · exact h

variable (isUrl isoDatetime timeoutMs) in
theorem sound_step (s : State) (a : Act) (h : Sound isUrl isoDatetime timeoutMs s) :
    Sound isUrl isoDatetime timeoutMs (discover isUrl isoDatetime timeoutMs s a) := by
  cases a with
  | call command a =>
    rw [discover]
    split_ifs with hbegun
    · exact h.call hbegun.1 hbegun.2
    · exact h
  | reject command =>
    rw [discover]
    split_ifs with hopen
    · split
      · next e he => exact h.reject hopen.2.1 (by simpa using hopen.2.2) he
      · exact h
    · exact h
  | next =>
    rw [discover]
    split_ifs with hopen
    · exact h.next (by simpa using hopen)
    · exact h

variable (isUrl isoDatetime timeoutMs) in
theorem sound_run (acts : List Act) : Sound isUrl isoDatetime timeoutMs
    (run (discover isUrl isoDatetime timeoutMs) {} acts) :=
  run_invariant (discover isUrl isoDatetime timeoutMs) (sound_step isUrl isoDatetime timeoutMs)
    sound_init acts

/-! ## Results -/

variable (isUrl isoDatetime timeoutMs) in
/-- **Discovery leaves nothing behind.**  In every order of steps: when `discover` has settled, each
of its processes was never started, is closed with all that held its pipes, or could not be handled;
and what it throws is never the abort by which it stopped the others. -/
theorem discover_over (acts : List Act)
    (h : (run (discover isUrl isoDatetime timeoutMs) {} acts).settled.isSome) :
    let s := run (discover isUrl isoDatetime timeoutMs) {} acts
    (∀ command, (s.calls command).client.spawned = false ∨ (s.calls command).world.closed = true ∨
      .error ∈ (s.calls command).world.events) ∧
      s.settled.bind thrown? ≠ some (.process .cancelled) := by
  intro s
  have hsound : Sound isUrl isoDatetime timeoutMs s := sound_run isUrl isoDatetime timeoutMs acts
  obtain ⟨x, hx⟩ := Option.isSome_iff_exists.1 h
  refine ⟨fun command => ?_, fun hthrown => ?_⟩
  · cases hbegun : s.begun command with
    | false =>
      rw [hsound.idle command hbegun]
      exact Or.inl rfl
    | true =>
      have hanswer := hsound.settled x hx command hbegun
      obtain ⟨acts', hacts, -⟩ := hsound.calls command
      rw [State.answer, hacts] at hanswer
      rw [hacts]
      exact Process.settled_over acts' hanswer
  · obtain ⟨y, hy, hthrown⟩ := Option.bind_eq_some_iff.1 hthrown
    cases y with
    | ok r => exact absurd hthrown (by simp [thrown?])
    | error e => exact hsound.error e hy (Option.some.inj hthrown)

/-- A command writes its answer, piece by piece, and ends. -/
def served (command : Command) (pieces : List String) (code : ℤ) : List Act :=
  .call command .spawn ::
    pieces.map (fun piece => .call command (.write (Utf8.encode piece.toList))) ++
    [.call command (.process (.stop { code := some code, signal := none })),
      .call command (.process .exit), .call command (.process (.finish .stdout)),
      .call command (.process (.finish .stderr)), .call command (.process .close)]

def hostText : List String :=
  ["\x7b\"running\":true,\"healthy\":true,\"pid\":7,", "\"port\":4500,\"endpoint\":\"http://desk:4500\",",
    "\"organizationId\":\"org\",\"hostId\":\"desk\",", "\"hostName\":\"desk\",\"uptimeSec\":1\x7d"]

/-- The version and the host are well. -/
def greeted : List Act :=
  served .version ["superset v1.17.0\n"] 0 ++ [.next] ++ served .status hostText 0 ++ [.next]

/-- The projects fail while the agents are listed and before the workspaces are. -/
def stopped : List Act :=
  greeted ++ [.call .agents .spawn] ++ served .projects [] 1 ++ [.reject .projects] ++
    [.call .workspaces .spawn, .call .agents (.process (.stop { code := none, signal := some "SIGKILL" })),
      .call .agents (.process .exit), .call .agents (.process (.finish .stdout)),
      .call .agents (.process (.finish .stderr)), .call .agents (.process .close), .next]

theorem discover_over_sample :
    let s := run (discover (fun _ => true) (fun _ => true) 5000) {} stopped
    (∀ command, (s.calls command).client.spawned = false ∨ (s.calls command).world.closed = true ∨
      .error ∈ (s.calls command).world.events) ∧
      s.settled.bind thrown? ≠ some (.process .cancelled) :=
  discover_over (fun _ => true) (fun _ => true) 5000 stopped (by decide +kernel)

/-- A value is read of what a command wrote before it was closed with the code 0. -/
structure Reads {α : Type} (sys : Process.System) (read : List Char → Option α) (x : α) : Prop where
  closed : sys.world.closed = true
  code : ∃ status, sys.world.status = some status ∧ status.code = some 0
  text : ∃ part, part <+: sys.file ∧ part.length ≤ Process.maxOutputBytes ∧
    read (Utf8.decode part) = some x

theorem invoke_ok {command : Command} {x : Except Failure ProcessResult} {stdout : List Char}
    (h : invoke command x = .ok stdout) :
    ∃ r, x = .ok r ∧ r.exitCode = 0 ∧ r.stdout = stdout := by
  cases x with
  | error failure => exact absurd h (by simp [invoke])
  | ok r =>
    rw [invoke] at h
    split_ifs at h with hcode
    exact ⟨r, rfl, by simpa using hcode, Except.ok.inj h⟩

theorem Sound.reads (h : Sound isUrl isoDatetime timeoutMs s) {α : Type} {command : Command}
    {read : List Char → Option α} {x : Except Failure ProcessResult} {stdout : List Char} {v : α}
    (hx : s.answer command = some x) (hstdout : invoke command x = .ok stdout)
    (hread : read stdout = some v) : Reads (s.calls command) read v := by
  obtain ⟨r, rfl, hcode, rfl⟩ := invoke_ok hstdout
  obtain ⟨acts, hacts, -⟩ := h.calls command
  rw [State.answer, hacts] at hx
  obtain ⟨hclosed, ⟨part, hpart, hlimit, htext⟩, status, hstatus, hexit⟩ := Process.answered_run hx
  rw [hacts]
  refine ⟨hclosed, ⟨status, hstatus, ?_⟩, part, hpart, hlimit, by rw [← htext, hread]⟩
  rw [hcode] at hexit
  cases hs : status.code with
  | none => rw [hs] at hexit; exact absurd hexit (by decide)
  | some code => rw [hs] at hexit; rw [hexit]; rfl

theorem Sound.reads_command (h : Sound isUrl isoDatetime timeoutMs s) {α : Type}
    {command : Command} {schema : Json → Option α} {v : α}
    (hrun : (s.answer command).map (runCommand command schema) = some (.ok v)) :
    Reads (s.calls command) (parseJson schema) v := by
  obtain ⟨x, hx, hrun⟩ := Option.map_eq_some_iff.1 hrun
  unfold runCommand at hrun
  obtain ⟨stdout, hstdout, hrun⟩ := bind_eq_ok hrun
  refine h.reads hx hstdout ?_
  split at hrun
  · exact absurd hrun (by simp)
  · next value hvalue => rw [hvalue, Except.ok.inj hrun]

theorem Sound.reads_version (h : Sound isUrl isoDatetime timeoutMs s) {version : List Char}
    (hprobe : (s.answer .version).map probeVersion = some (.ok version)) :
    ∃ major, minimumSupportedMajor ≤ major ∧
      Reads (s.calls .version) parseVersion (version, major) := by
  obtain ⟨x, hx, hprobe⟩ := Option.map_eq_some_iff.1 hprobe
  unfold probeVersion at hprobe
  obtain ⟨stdout, hstdout, hprobe⟩ := bind_eq_ok hprobe
  split at hprobe
  · exact absurd hprobe (by simp)
  · next version' major hversion =>
    split_ifs at hprobe with hmajor
    refine ⟨major, Nat.not_lt.1 hmajor, h.reads hx hstdout ?_⟩
    rw [hversion, Except.ok.inj hprobe]

theorem validateLocalResults_ok {host : LocalHost} {projects : List Project}
    {workspaces : List Workspace} {presets : List AgentPreset} :
    validateLocalResults host projects workspaces presets = .ok () ↔
      (projects.map (·.id)).Nodup ∧ (workspaces.map (·.id)).Nodup ∧ (presets.map (·.id)).Nodup ∧
        ∀ workspace ∈ workspaces,
          workspace.hostId = host.hostId ∧ workspace.organizationId = host.organizationId := by
  unfold validateLocalResults
  split_ifs with hdouble hremote
  · simp only [false_iff]
    rintro ⟨hprojects, hworkspaces, hpresets, -⟩
    rcases hdouble with h | h | h
    · exact h hprojects
    · exact h hworkspaces
    · exact h hpresets
  · simp only [false_iff]
    rintro ⟨-, -, -, hlocal⟩
    obtain ⟨workspace, hmem, h | h⟩ := hremote
    · exact h (hlocal workspace hmem).1
    · exact h (hlocal workspace hmem).2
  · push Not at hdouble hremote
    exact ⟨fun _ => ⟨hdouble.1, hdouble.2.1, hdouble.2.2, hremote⟩, fun _ => rfl⟩

variable (isUrl isoDatetime timeoutMs) in
/-- **What holds of a discovery.**  Everything in it is read of what its commands wrote before they
ended with the code 0; the version is supported and the host well; and each of its workspaces that
has a worktree is registered, in the sense of the authorizer, with the project of its id. -/
theorem discover_result (acts : List Act) {r : SupersetDiscoveryResult}
    (h : (run (discover isUrl isoDatetime timeoutMs) {} acts).settled = some (.ok r)) :
    let s := run (discover isUrl isoDatetime timeoutMs) {} acts
    (∃ major, minimumSupportedMajor ≤ major ∧
        Reads (s.calls .version) parseVersion (r.version, major)) ∧
      Reads (s.calls .status) (parseJson (localHostSchema isUrl)) r.host ∧
      r.host.running = true ∧ r.host.healthy = true ∧
      Reads (s.calls .projects) (parseJson projectListSchema) r.projects ∧
      Reads (s.calls .workspaces) (parseJson (workspaceListSchema isoDatetime)) r.workspaces ∧
      Reads (s.calls .agents) (parseJson agentPresetListSchema) r.presets ∧
      (r.presets.map (·.id)).Nodup ∧
      ∀ workspace ∈ r.workspaces, ∀ project ∈ r.projects, project.id = workspace.projectId →
        workspace.worktreeExists = true →
        Security.Registered r.inventory workspace.registered project.registered := by
  intro s
  have hsound : Sound isUrl isoDatetime timeoutMs s := sound_run isUrl isoDatetime timeoutMs acts
  obtain ⟨hversion, hhost, hprojects, hworkspaces, hpresets, hvalid⟩ := hsound.result r h
  obtain ⟨-, hrunning, hhealthy, hstatus⟩ := hsound.host _ hhost
  obtain ⟨hids, hids', hids'', hlocal⟩ := validateLocalResults_ok.1 hvalid
  refine ⟨hsound.reads_version (hsound.version _ hversion), hsound.reads_command hstatus, hrunning,
    hhealthy, hsound.reads_command hprojects, hsound.reads_command hworkspaces,
    hsound.reads_command hpresets, hids'', ?_⟩
  intro workspace hworkspace project hproject hid hworktree
  obtain ⟨hhostId, horganization⟩ := hlocal workspace hworkspace
  refine ⟨?_, ?_, hhostId, horganization, hworktree⟩
  · have hfilter := Keyed.filter_key hids' hworkspace
    simp only [SupersetDiscoveryResult.inventory, List.filter_map]
    rw [show ((fun w : Security.Workspace => decide (w.id = workspace.registered.id)) ∘
      Workspace.registered) = fun w : Workspace => decide (w.id = workspace.id) from rfl, hfilter]
    rfl
  · have hfilter := Keyed.filter_key hids hproject
    simp only [SupersetDiscoveryResult.inventory, List.filter_map]
    rw [show ((fun p : Security.Project => decide (p.id = workspace.registered.projectId)) ∘
      Project.registered) = fun p : Project => decide (p.id = workspace.projectId) from rfl, ← hid,
      hfilter]
    rfl

def siteText : List String :=
  ["[\x7b\"id\":\"site\",\"name\":\"Site\",", "\"repo\":\"-\",\"path\":\"/site\"\x7d]"]

def site : Project where
  id := "site"
  name := "Site"
  slug := "Site"
  repoCloneUrl := none
  githubRepositoryId := none
  setUp := true
  path := some "/site"

def draftText : List String :=
  ["[\x7b\"id\":\"w\",\"organizationId\":\"org\",", "\"projectId\":\"site\",\"hostId\":\"desk\",",
    "\"name\":\"Draft\",\"branch\":\"draft\",", "\"type\":\"worktree\",\"createdByUserId\":null,",
    "\"taskId\":null,", "\"createdAt\":\"2026-01-01T00:00:00Z\",",
    "\"updatedAt\":\"2026-01-01T00:00:00Z\",", "\"worktreePath\":\"/w\",\"worktreeExists\":true,",
    "\"projectName\":\"Site\"\x7d]"]

def draft : Workspace where
  id := "w"
  organizationId := "org"
  projectId := "site"
  hostId := "desk"
  name := "Draft"
  branch := "draft"
  type := "worktree"
  createdByUserId := none
  taskId := none
  createdAt := "2026-01-01T00:00:00Z"
  updatedAt := "2026-01-01T00:00:00Z"
  worktreePath := "/w"
  worktreeExists := true
  projectName := "Site"
  hostName := "local"

/-- The answers of all commands. -/
def found : SupersetDiscoveryResult where
  version := ['1', '.', '1', '7', '.', '0']
  host := {
    running := true, healthy := true, pid := 7, port := 4500, endpoint := "http://desk:4500"
    organizationId := "org", hostId := "desk", hostName := "desk", uptimeSec := 1 }
  projects := [site]
  workspaces := [draft]
  presets := []

theorem discover_result_sample :
    Security.Registered found.inventory draft.registered site.registered :=
  (discover_result (fun _ => true) (fun _ => true) 5000
    (greeted ++ served .projects siteText 0 ++ served .agents ["[]"] 0 ++
      served .workspaces draftText 0 ++ [.next]) (r := found) (by decide +kernel)).2.2.2.2.2.2.2.2
    draft List.mem_cons_self site List.mem_cons_self rfl rfl

end AgentOrchestrator.Discovery
