import AgentOrchestrator.Coordinator.Model
import AgentOrchestrator.Library.Except
import AgentOrchestrator.Library.PosixPath
import AgentOrchestrator.Library.Utf16

/-!
# Workspace authorization

`RegisteredWorkspaceAuthorizer.authorize` turns an opaque workspace id into a directory: it asks for
the inventory, and for the canonical path and the metadata of the registered project and worktree.
`revalidate` asks again and compares.  Each question is an await, so each is answered by the
inventory and the file system of its own moment.
-/

namespace AgentOrchestrator.Security

open Coordinator (invalidArgument assertDataOperand)
open Launch (Refusal)

/-! ## What the authorizer reads -/

structure Project where
  id : String
  path : Option String
  deriving DecidableEq

structure Workspace where
  id : String
  organizationId : String
  projectId : String
  hostId : String
  createdByUserId : Option String
  worktreePath : String
  worktreeExists : Bool
  deriving DecidableEq

structure WorkspaceInventory where
  hostId : String
  organizationId : String
  projects : List Project
  workspaces : List Workspace

structure Metadata where
  isDirectory : Bool
  dev : ℕ
  ino : ℕ

/-- What the outside answers at a moment; `none` where a call of the file system throws. -/
structure Moment where
  inventory : Except Refusal WorkspaceInventory
  realpath : String → Option String
  stat : String → Option Metadata

structure ExternalWorkspaceAuthorization where
  workspaceId : String
  projectId : String
  canonicalPath : String
  deriving DecidableEq

/-- The configuration of a `RegisteredWorkspaceAuthorizer`. -/
structure Authorizer where
  externalWorkspaces : List ExternalWorkspaceAuthorization := []
  allowRegisteredExternalWorkspaces : Bool := false

/-! ## The checks -/

/-- `isAbsolute` -/
def isAbsolute (path : List Char) : Bool := path.head? = some '/'

/-- `opaqueWorkspaceId` -/
def opaqueWorkspaceId (value : String) : Except Refusal Unit :=
  let text := value.toList
  if text = [] ∨ text.contains '\x00' ∨ text.any Coordinator.isControl ∨ text.any Calls.isSpace ∨
      200 < (Utf16.toUnits value).length ∨ isAbsolute text ∨ text.contains '/' ∨
      text.contains '\\' ∨ text.contains ':' ∨ ['.', '.'].isPrefixOf text ∨
      ['~'].isPrefixOf text then
    .error (invalidArgument "Workspace target must be an opaque registered ID")
  else .ok ()

/-- `relative`, of absolute paths. -/
def relative (start target : String) : List Char :=
  PosixPath.join (PosixPath.relative (PosixPath.ofText start.toList) (PosixPath.ofText target.toList))

def contained (projectPath workspacePath : String) : Bool :=
  let child := relative projectPath workspacePath
  child = [] || (!(['.', '.', '/'].isPrefixOf child) && child ≠ ['.', '.'] && !isAbsolute child)

/-- A canonical path with the identity of the directory there. -/
structure Directory where
  path : String
  device : ℕ
  inode : ℕ
  deriving DecidableEq

/-- `canonicalDirectory`: the path is canonical at one moment, its metadata of the next. -/
def canonicalDirectory (first second : Moment) (path unavailableMessage : String) :
    Except Refusal Directory :=
  let unavailable : Except Refusal Directory := .error
    { retryable := true, reason := "WORKSPACE_UNAVAILABLE", message := unavailableMessage }
  if !isAbsolute path.toList then unavailable
  else match first.realpath path with
    | none => unavailable
    | some canonical =>
      match second.stat canonical with
      | none => unavailable
      | some metadata =>
        if !metadata.isDirectory then unavailable
        else .ok { path := canonical, device := metadata.dev, inode := metadata.ino }

/-! ## Grants -/

/-- A grant with what its `revalidate` remembers. -/
structure WorkspaceGrant where
  workspaceId : String
  hostId : String
  organizationId : String
  workspace : Workspace
  project : Project
  projectDirectory : Directory
  workspaceDirectory : Directory
  deriving DecidableEq

def WorkspaceGrant.projectId (g : WorkspaceGrant) : String := g.project.id

def WorkspaceGrant.canonicalPath (g : WorkspaceGrant) : String := g.workspaceDirectory.path

def WorkspaceGrant.ownerId (g : WorkspaceGrant) : Option String := g.workspace.createdByUserId

variable (a : Authorizer)

def externalWorkspaceAllowed (workspaceId projectId canonicalPath : String) : Bool :=
  a.externalWorkspaces.any fun authorization => authorization.workspaceId = workspaceId &&
    authorization.projectId = projectId && authorization.canonicalPath = canonicalPath

/-- The worktree may stand where it does. -/
def confined (workspaceId projectId projectPath workspacePath : String) : Bool :=
  contained projectPath workspacePath || a.allowRegisteredExternalWorkspaces ||
    externalWorkspaceAllowed a workspaceId projectId workspacePath

def securityError (reason message : String) : Refusal :=
  { retryable := false, reason := reason, message := message }

/-- `authorize`, with the answers of its five awaits. -/
def authorize (moment : ℕ → Moment) (workspaceId : String) : Except Refusal WorkspaceGrant := do
  opaqueWorkspaceId workspaceId
  let inventory ← (moment 0).inventory
  match inventory.workspaces.filter (·.id = workspaceId) with
  | [] => .error { retryable := true, reason := "WORKSPACE_UNAVAILABLE",
                   message := "Registered workspace is unavailable" }
  | [workspace] =>
    if workspace.hostId ≠ inventory.hostId ∨
        workspace.organizationId ≠ inventory.organizationId then
      .error (securityError "REMOTE_WORKSPACE"
        "Workspace is not registered to the active local host")
    else match inventory.projects.filter (·.id = workspace.projectId) with
      | [project] =>
        match workspace.worktreeExists, project.path with
        | true, some path => do
          let projectDirectory ← canonicalDirectory (moment 1) (moment 2) path
            "Registered project path is unavailable"
          let workspaceDirectory ← canonicalDirectory (moment 3) (moment 4) workspace.worktreePath
            "Registered workspace path is unavailable"
          if !confined a workspaceId project.id projectDirectory.path workspaceDirectory.path then
            .error (securityError "POLICY_DENIED"
              "Registered workspace escapes its project boundary")
          else do
            assertDataOperand workspaceDirectory.path "workspace path"
            .ok { workspaceId := workspaceId, hostId := inventory.hostId,
                  organizationId := inventory.organizationId, workspace := workspace,
                  project := project, projectDirectory := projectDirectory,
                  workspaceDirectory := workspaceDirectory }
        | _, _ => .error { retryable := true, reason := "WORKSPACE_UNAVAILABLE",
                           message := "Registered workspace is unavailable" }
      | _ => .error (securityError "AMBIGUOUS_WORKSPACE"
          "Workspace project identity is unavailable or ambiguous")
  | _ => .error (securityError "AMBIGUOUS_WORKSPACE"
      "Registered workspace identity is ambiguous")

def registrationChanged : Refusal :=
  securityError "INTEGRITY_FAILURE" "Workspace registration changed before launch"

/-- What `revalidate` compares of a registration. -/
def sameRegistration (g : WorkspaceGrant) (fresh : WorkspaceInventory) (workspace : Workspace)
    (project : Project) : Bool :=
  fresh.hostId = g.hostId && fresh.organizationId = g.organizationId &&
    workspace.hostId = g.hostId && workspace.organizationId = g.organizationId &&
    workspace.projectId = g.project.id &&
    workspace.createdByUserId = g.workspace.createdByUserId &&
    workspace.worktreePath = g.workspace.worktreePath && project.path = g.project.path &&
    workspace.worktreeExists

/-- `revalidate`, with the answers of its five awaits. -/
def revalidate (moment : ℕ → Moment) (g : WorkspaceGrant) : Except Refusal Unit := do
  let fresh ← (moment 0).inventory
  match fresh.workspaces.filter (·.id = g.workspaceId),
      fresh.projects.filter (·.id = g.project.id) with
  | [workspace], [project] =>
    if !sameRegistration g fresh workspace project then .error registrationChanged
    else do
      -- A path that is null, as one that is empty, is not absolute.
      let projectDirectory ← canonicalDirectory (moment 1) (moment 2) (project.path.getD "")
        "Registered project path is unavailable"
      let current ← canonicalDirectory (moment 3) (moment 4) workspace.worktreePath
        "Registered workspace path is unavailable"
      if !confined a g.workspaceId g.project.id projectDirectory.path current.path ||
          projectDirectory ≠ g.projectDirectory || current ≠ g.workspaceDirectory then
        .error (securityError "INTEGRITY_FAILURE" "Workspace identity changed before launch")
      else .ok ()
  | _, _ => .error registrationChanged

/-! ## Confinement -/

/-- The names on the way to a path. -/
def names (path : String) : PosixPath.Path := PosixPath.ofText path.toList

/-- A path is contained in another exactly when the other leads to it. -/
theorem contained_iff (projectPath workspacePath : String) :
    contained projectPath workspacePath = true ↔ names projectPath <+: names workspacePath := by
  rw [← PosixPath.head_relative_ne_up]
  have hparts := PosixPath.relative_slashFree (names projectPath) (names workspacePath)
  show (let child := PosixPath.join (PosixPath.relative (names projectPath) (names workspacePath))
    decide (child = []) || (!(['.', '.', '/'].isPrefixOf child) && decide (child ≠ ['.', '.']) &&
      !isAbsolute child)) = true ↔ _
  cases hway : PosixPath.relative (names projectPath) (names workspacePath) with
  | nil => simp [PosixPath.join]
  | cons part parts =>
    rw [hway] at hparts
    obtain ⟨hne, hslash⟩ := hparts part List.mem_cons_self
    have hupward := PosixPath.upward_join hslash parts
    have hchild : ∃ c more, PosixPath.join (part :: parts) = c :: more ∧ c ≠ '/' := by
      obtain ⟨c, rest, rfl⟩ := List.exists_cons_of_ne_nil hne
      have hc : c ≠ '/' := by
        rintro rfl
        exact hslash List.mem_cons_self
      rcases PosixPath.join_cons (c :: rest) parts with h | ⟨more, h⟩
      · exact ⟨c, rest, h, hc⟩
      · exact ⟨c, rest ++ '/' :: more, h, hc⟩
    obtain ⟨c, more, hjoin, hc⟩ := hchild
    rw [hjoin] at hupward ⊢
    have hstarts : ['.', '.', '/'].isPrefixOf (c :: more) =
        decide (PosixPath.up ++ ['/'] <+: c :: more) := by
      rw [Bool.eq_iff_iff, List.isPrefixOf_iff_prefix, decide_eq_true_iff]
      rfl
    have hgoal : (decide (c :: more = []) || (!(['.', '.', '/'].isPrefixOf (c :: more)) &&
        decide (c :: more ≠ PosixPath.up) && !isAbsolute (c :: more))) = true ↔
        ¬ PosixPath.Upward (c :: more) := by
      rw [hstarts]
      simp [PosixPath.Upward, isAbsolute, hc, and_comm]
    exact hgoal.trans (by simp [hupward])

/-- The entry of the configuration that lets the worktree stand where it does. -/
def WorkspaceGrant.external (g : WorkspaceGrant) : ExternalWorkspaceAuthorization :=
  { workspaceId := g.workspaceId, projectId := g.project.id,
    canonicalPath := g.workspaceDirectory.path }

/-- The worktree stands below the project, or where the configuration lets it stand. -/
structure Confined (g : WorkspaceGrant) : Prop where
  place : names g.projectDirectory.path <+: names g.workspaceDirectory.path ∨
    a.allowRegisteredExternalWorkspaces = true ∨ g.external ∈ a.externalWorkspaces

theorem confined_iff (g : WorkspaceGrant) :
    confined a g.workspaceId g.project.id g.projectDirectory.path g.workspaceDirectory.path = true ↔
      Confined a g := by
  have hexternal : externalWorkspaceAllowed a g.workspaceId g.project.id g.workspaceDirectory.path =
      true ↔ g.external ∈ a.externalWorkspaces := by
    simp only [externalWorkspaceAllowed, List.any_eq_true, Bool.and_eq_true, decide_eq_true_eq]
    constructor
    · rintro ⟨authorization, hmem, ⟨hworkspace, hproject⟩, hpath⟩
      have hexternal : authorization = g.external := by
        simp only [WorkspaceGrant.external, ← hworkspace, ← hproject, ← hpath]
      exact hexternal ▸ hmem
    · intro hmem
      exact ⟨_, hmem, ⟨rfl, rfl⟩, rfl⟩
  rw [confined, Bool.or_eq_true, Bool.or_eq_true, contained_iff, hexternal, or_assoc]
  exact ⟨fun h => ⟨h⟩, fun h => h.place⟩

/-! ## What a grant says -/

/-- The directory a path leads to, by the file system of two moments. -/
structure Found (first second : Moment) (path : String) (d : Directory) : Prop where
  absolute : isAbsolute path.toList = true
  canonical : first.realpath path = some d.path
  identity : second.stat d.path = some { isDirectory := true, dev := d.device, ino := d.inode }

theorem canonicalDirectory_ok_iff {first second : Moment} {path message : String} {d : Directory} :
    canonicalDirectory first second path message = .ok d ↔ Found first second path d := by
  constructor
  · intro h
    rw [canonicalDirectory, ite_error_eq_ok_iff] at h
    obtain ⟨habsolute, h⟩ := h
    cases hreal : first.realpath path with
    | none => simp [hreal] at h
    | some canonical =>
      cases hstat : second.stat canonical with
      | none => simp [hreal, hstat] at h
      | some metadata =>
        simp only [hreal, hstat, ite_error_eq_ok_iff, Except.ok.injEq] at h
        obtain ⟨hdirectory, rfl⟩ := h
        obtain ⟨isDirectory, dev, ino⟩ := metadata
        refine ⟨by simpa using habsolute, hreal, ?_⟩
        simp only [Bool.not_eq_true', Bool.not_eq_false] at hdirectory
        rw [hstat, hdirectory]
  · rintro ⟨habsolute, hreal, hstat⟩
    simp [canonicalDirectory, habsolute, hreal, hstat]

/-- The inventory holds one workspace with the id of this one and one project with the id of its
project, and the workspace is a worktree of the active host. -/
structure Registered (inventory : WorkspaceInventory) (workspace : Workspace) (project : Project) :
    Prop where
  only : inventory.workspaces.filter (·.id = workspace.id) = [workspace]
  onlyProject : inventory.projects.filter (·.id = workspace.projectId) = [project]
  host : workspace.hostId = inventory.hostId
  organization : workspace.organizationId = inventory.organizationId
  worktree : workspace.worktreeExists = true

/-- What stands behind a grant. -/
structure Granted (moment : ℕ → Moment) (workspaceId : String) (g : WorkspaceGrant) : Prop where
  opaqueId : opaqueWorkspaceId workspaceId = .ok ()
  id : g.workspaceId = workspaceId ∧ g.workspace.id = workspaceId
  registered : ∃ inventory, (moment 0).inventory = .ok inventory ∧
    Registered inventory g.workspace g.project ∧ inventory.hostId = g.hostId ∧
    inventory.organizationId = g.organizationId
  project : ∃ path, g.project.path = some path ∧
    Found (moment 1) (moment 2) path g.projectDirectory
  workspace : Found (moment 3) (moment 4) g.workspace.worktreePath g.workspaceDirectory
  confined : Confined a g
  operand : assertDataOperand g.workspaceDirectory.path "workspace path" = .ok ()

theorem filter_singleton {α : Type} {p : α → Bool} {l : List α} {x : α} (h : l.filter p = [x]) :
    x ∈ l ∧ p x = true := List.mem_filter.1 (h ▸ List.mem_singleton_self x)

theorem authorize_granted {moment : ℕ → Moment} {workspaceId : String} {g : WorkspaceGrant}
    (h : authorize a moment workspaceId = .ok g) : Granted a moment workspaceId g := by
  unfold authorize at h
  obtain ⟨_, hid, h⟩ := bind_eq_ok h
  obtain ⟨inventory, hinventory, h⟩ := bind_eq_ok h
  split at h
  · cases h
  · rename_i workspace hworkspace
    rw [ite_error_eq_ok_iff] at h
    obtain ⟨hlocal, h⟩ := h
    split at h
    · rename_i project hproject
      split at h
      · rename_i path hexists hpath
        obtain ⟨projectDirectory, hprojectDirectory, h⟩ := bind_eq_ok h
        obtain ⟨workspaceDirectory, hworkspaceDirectory, h⟩ := bind_eq_ok h
        rw [ite_error_eq_ok_iff] at h
        obtain ⟨hconfined, h⟩ := h
        obtain ⟨_, hoperand, h⟩ := bind_eq_ok h
        obtain rfl := Except.ok.inj h
        have hsame : workspace.id = workspaceId := by simpa using (filter_singleton hworkspace).2
        push Not at hlocal
        exact {
          opaqueId := hid
          id := ⟨rfl, hsame⟩
          registered := ⟨inventory, hinventory,
            ⟨hsame ▸ hworkspace, hproject, hlocal.1, hlocal.2, hexists⟩, rfl, rfl⟩
          project := ⟨path, hpath, canonicalDirectory_ok_iff.1 hprojectDirectory⟩
          workspace := canonicalDirectory_ok_iff.1 hworkspaceDirectory
          confined := (confined_iff a _).1 (by simpa using hconfined)
          operand := hoperand }
      · cases h
    · cases h
  · cases h

theorem granted_authorize {moment : ℕ → Moment} {workspaceId : String} {g : WorkspaceGrant}
    (h : Granted a moment workspaceId g) : authorize a moment workspaceId = .ok g := by
  obtain ⟨hid, ⟨hgid, hwid⟩, ⟨inventory, hinventory, hregistered, hhost, horganization⟩,
    ⟨path, hpath, hproject⟩, hworkspace, hconfined, hoperand⟩ := h
  obtain ⟨hworkspaces, hprojects, hlocal, hown, hexists⟩ := hregistered
  rw [← confined_iff] at hconfined
  obtain ⟨grantId, hostId, organizationId, workspace, project, projectDirectory,
    workspaceDirectory⟩ := g
  dsimp only at *
  subst hgid hhost horganization
  rw [hwid] at hworkspaces
  unfold authorize
  simp only [hid, ok_bind, hinventory, hworkspaces, hlocal, hown, hprojects, hexists, hpath,
    canonicalDirectory_ok_iff.2 hproject, canonicalDirectory_ok_iff.2 hworkspace, hconfined,
    hoperand]
  simp

/-- **What is granted.** The authorizer grants a workspace exactly when its id is opaque, one
registration of the active host has that id and one project stands behind it, and both directories
are found where they are registered, the worktree below its project or approved outside of it. -/
theorem authorize_ok_iff {moment : ℕ → Moment} {workspaceId : String} {g : WorkspaceGrant} :
    authorize a moment workspaceId = .ok g ↔ Granted a moment workspaceId g :=
  ⟨authorize_granted a, granted_authorize a⟩

/-! ## Revalidation -/

/-- The registration of a grant stands, and its two paths still lead to the same directories. -/
structure Unchanged (moment : ℕ → Moment) (g : WorkspaceGrant) : Prop where
  registered : ∃ inventory workspace project, (moment 0).inventory = .ok inventory ∧
    Registered inventory workspace project ∧ inventory.hostId = g.hostId ∧
    inventory.organizationId = g.organizationId ∧ workspace.id = g.workspaceId ∧
    workspace.projectId = g.project.id ∧ workspace.worktreePath = g.workspace.worktreePath ∧
    workspace.createdByUserId = g.workspace.createdByUserId ∧ project.path = g.project.path
  project : ∃ path, g.project.path = some path ∧
    Found (moment 1) (moment 2) path g.projectDirectory
  workspace : Found (moment 3) (moment 4) g.workspace.worktreePath g.workspaceDirectory

variable {a} in
theorem revalidate_unchanged {moment later : ℕ → Moment} {workspaceId : String} {g : WorkspaceGrant}
    (hg : Granted a moment workspaceId g) (h : revalidate a later g = .ok ()) :
    Unchanged later g := by
  unfold revalidate at h
  obtain ⟨fresh, hfresh, h⟩ := bind_eq_ok h
  split at h
  · rename_i workspace project hworkspace hproject
    rw [ite_error_eq_ok_iff] at h
    obtain ⟨hsame, h⟩ := h
    obtain ⟨projectDirectory, hprojectDirectory, h⟩ := bind_eq_ok h
    obtain ⟨current, hcurrent, h⟩ := bind_eq_ok h
    rw [ite_error_eq_ok_iff] at h
    obtain ⟨hplace, -⟩ := h
    obtain ⟨path, hpath, -⟩ := hg.project
    simp only [sameRegistration, Bool.not_eq_true', Bool.not_eq_false, Bool.and_eq_true,
      decide_eq_true_eq] at hsame
    obtain ⟨⟨⟨⟨⟨⟨⟨⟨hhost, horganization⟩, hlocal⟩, hown⟩, hprojectId⟩, howner⟩, hworktree⟩,
      hprojectPath⟩, hexists⟩ := hsame
    simp only [ne_eq, Bool.or_eq_true, Bool.not_eq_true', decide_eq_true_eq, not_or,
      Decidable.not_not] at hplace
    obtain ⟨⟨-, rfl⟩, rfl⟩ := hplace
    have hid : workspace.id = g.workspaceId := by simpa using (filter_singleton hworkspace).2
    rw [hprojectPath, hpath] at hprojectDirectory
    rw [hworktree] at hcurrent
    exact {
      registered := ⟨fresh, workspace, project, hfresh,
        ⟨hid ▸ hworkspace, hprojectId ▸ hproject, hlocal.trans hhost.symm,
          hown.trans horganization.symm, hexists⟩, hhost, horganization, hid, hprojectId, hworktree,
        howner, hprojectPath⟩
      project := ⟨path, hpath, canonicalDirectory_ok_iff.1 hprojectDirectory⟩
      workspace := canonicalDirectory_ok_iff.1 hcurrent }
  · cases h

variable {a} in
theorem unchanged_revalidate {moment later : ℕ → Moment} {workspaceId : String} {g : WorkspaceGrant}
    (hg : Granted a moment workspaceId g) (h : Unchanged later g) :
    revalidate a later g = .ok () := by
  obtain ⟨⟨fresh, workspace, project, hfresh, hregistered, hhost, horganization, hid, hprojectId,
    hworktree, howner, hprojectPath⟩, ⟨path, hpath, hproject⟩, hworkspace⟩ := h
  obtain ⟨honly, honlyProject, hlocal, hown, hexists⟩ := hregistered
  rw [hid] at honly
  rw [hprojectId] at honlyProject
  have hsame : sameRegistration g fresh workspace project = true := by
    simp [sameRegistration, hhost, horganization, hlocal, hown, hprojectId, howner, hworktree,
      hprojectPath, hexists]
  have hconfined := (confined_iff a g).2 hg.confined
  have hprojectDirectory := (@canonicalDirectory_ok_iff _ _ path
    "Registered project path is unavailable" _).2 hproject
  have hworkspaceDirectory := (@canonicalDirectory_ok_iff _ _ g.workspace.worktreePath
    "Registered workspace path is unavailable" _).2 hworkspace
  unfold revalidate
  simp [hfresh, ok_bind, honly, honlyProject, hsame, hprojectPath, hpath, hprojectDirectory,
    hworktree, hworkspaceDirectory, hconfined]

/-- **When a grant still holds.** Whatever happened to the inventory and the file system since a
workspace was granted, and between the reads of its revalidation, the revalidation succeeds exactly
when the registration stands as it was and both paths lead to the same directories as before: the
same path, on the same device, with the same inode. -/
theorem revalidate_ok_iff {moment later : ℕ → Moment} {workspaceId : String} {g : WorkspaceGrant}
    (h : authorize a moment workspaceId = .ok g) :
    revalidate a later g = .ok () ↔ Unchanged later g :=
  ⟨revalidate_unchanged (authorize_granted a h), unchanged_revalidate (authorize_granted a h)⟩

/-! ## A workspace whose directory is replaced -/

def sampleWorkspace : Workspace :=
  { id := "ws-1", organizationId := "org", projectId := "p-1", hostId := "host",
    createdByUserId := some "user", worktreePath := "/repo/.trees/../trees/one",
    worktreeExists := true }

def sampleProject : Project := { id := "p-1", path := some "/repo" }

/-- The worktree is a directory with the inode `ino`. -/
def sampleMoment (ino : ℕ) : Moment :=
  { inventory := .ok { hostId := "host", organizationId := "org", projects := [sampleProject],
                       workspaces := [sampleWorkspace] }
    realpath := fun path => if path = "/repo" then some "/repo" else some "/repo/trees/one"
    stat := fun path => some
      { isDirectory := true, dev := 1, ino := if path = "/repo" then 2 else ino } }

def sampleGranted : WorkspaceGrant :=
  { workspaceId := "ws-1", hostId := "host", organizationId := "org", workspace := sampleWorkspace,
    project := sampleProject, projectDirectory := { path := "/repo", device := 1, inode := 2 }
    workspaceDirectory := { path := "/repo/trees/one", device := 1, inode := 7 } }

theorem revalidate_ok_iff_sample :
    Unchanged (fun _ => sampleMoment 7) sampleGranted ∧
      ¬ Unchanged (fun k => sampleMoment (if k < 4 then 7 else 8)) sampleGranted := by
  have hgranted : authorize {} (fun _ => sampleMoment 7) "ws-1" = .ok sampleGranted := by
    decide +kernel
  refine ⟨(revalidate_ok_iff {} hgranted).1 (by decide +kernel), fun h => ?_⟩
  exact absurd ((revalidate_ok_iff {} hgranted).2 h) (by decide +kernel)

end AgentOrchestrator.Security
