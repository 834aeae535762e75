import AgentOrchestrator.Launch.Dispatch

/-!
# Dispatches in progress

A dispatch in progress is a frame of some dispatcher, and it owns the lock of its assignment.
`frame_origin` says where the frames after a step come from and `step_world` who can change the
state file and the provider; every invariant of the launch system is proved from these two.
-/

namespace AgentOrchestrator.Launch

open Store

variable {env : Env}

/-- The dispatch of `d` is in progress. -/
def System.FrameAt (sys : System) (d : ℕ) (f : Frame) : Prop := (sys.dispatchers d).frame = some f

/-- Every dispatch in progress owns the lock of its assignment. -/
def System.Owned (sys : System) : Prop := ∀ d f, sys.FrameAt d f → sys.owner f.id = some d

theorem System.Owned.distinct {sys : System} (h : sys.Owned) {d d' : ℕ} {f g : Frame}
    (hf : sys.FrameAt d f) (hg : sys.FrameAt d' g) (hne : d' ≠ d) : g.id ≠ f.id := by
  intro e
  have ho := h d' g hg
  rw [e, h d f hf] at ho
  exact hne (Option.some.inj ho).symm

theorem frameAt_setDispatcher {sys : System} {d d' : ℕ} {x : Dispatcher} {f : Frame}
    (h : (sys.setDispatcher d x).FrameAt d' f) :
    (d' = d ∧ x.frame = some f) ∨ (d' ≠ d ∧ sys.FrameAt d' f) := by
  unfold System.FrameAt System.setDispatcher at h
  dsimp only at h
  by_cases hd : d' = d
  · subst hd
    rw [Function.update_self] at h
    exact Or.inl ⟨rfl, h⟩
  · rw [Function.update_of_ne hd] at h
    exact Or.inr ⟨hd, h⟩

theorem frameAt_endFrame {sys : System} {d d' : ℕ} {f g : Frame} {todo : List Assignment}
    (h : (sys.endFrame d f todo).FrameAt d' g) : d' ≠ d ∧ sys.FrameAt d' g := by
  have h' : (sys.setDispatcher d { todo := todo }).FrameAt d' g := h
  rcases frameAt_setDispatcher h' with ⟨-, e⟩ | h'
  · cases e
  · exact h'

theorem System.Owned.endFrame {sys : System} (h : sys.Owned) {d : ℕ} {f : Frame}
    (hf : sys.FrameAt d f) (todo : List Assignment) : (sys.endFrame d f todo).Owned := by
  intro d' g hg
  obtain ⟨hne, hg⟩ := frameAt_endFrame hg
  show Function.update sys.owner f.id none g.id = some d'
  rw [Function.update_of_ne (h.distinct hf hg hne)]
  exact h d' g hg

/-! ## Steps -/

/-- What a step does: nothing, a call of a service, a new snapshot of an idle dispatcher, a lock
obtained, or a dispatch that goes on, comes to its end or is cut off. -/
inductive Moves (env : Env) (sys : System) : Act → System → Prop
  | idle {act : Act} (hact : ∀ d input f, act = .resume d input → ¬ sys.FrameAt d f) :
    Moves env sys act sys
  | served {c : Call} {io : WriteOutcome} (hc : serviceCall env (contents sys.disk) c = true) :
    Moves env sys (.service c io) { sys with disk := Store.step env sys.disk (c, io) }
  | listed {act : Act} {d : ℕ} (todo : List Assignment) (hframe : (sys.dispatchers d).frame = none)
      (hact : ∀ d input, act ≠ .resume d input) :
    Moves env sys act (sys.setDispatcher d { todo := todo })
  | locked {d : ℕ} (a : Assignment) (todo : List Assignment)
      (hframe : (sys.dispatchers d).frame = none) (ho : sys.owner a.id = none) :
    Moves env sys (.lock d)
      { sys.setDispatcher d
          { todo := todo, frame := some ⟨a.id, overById (contents sys.disk) a.id, .locked⟩ } with
        owner := Function.update sys.owner a.id (some d) }
  | resumed {d : ℕ} {input : Input} {f : Frame} {pc : Pc} (todo : List Assignment)
      (hf : sys.FrameAt d f) (hpc : (f.pc.resume env f.id sys.disk sys.runs input).pc = some pc) :
    Moves env sys (.resume d input)
      (({ sys with disk := (f.pc.resume env f.id sys.disk sys.runs input).disk
                   runs := (f.pc.resume env f.id sys.disk sys.runs input).runs } :
        System).setDispatcher d { todo := todo, frame := some { f with pc := pc } })
  | ended {d : ℕ} {input : Input} {f : Frame} (todo : List Assignment)
      (hf : sys.FrameAt d f) (hpc : (f.pc.resume env f.id sys.disk sys.runs input).pc = none) :
    Moves env sys (.resume d input)
      (({ sys with disk := (f.pc.resume env f.id sys.disk sys.runs input).disk
                   runs := (f.pc.resume env f.id sys.disk sys.runs input).runs } :
        System).endFrame d f todo)
  | crashed {d : ℕ} {restart : Bool} {f : Frame} (todo : List Assignment) (hf : sys.FrameAt d f) :
    Moves env sys (.crash d restart) (sys.endFrame d f todo)

theorem step_moves (sys : System) (act : Act) : Moves env sys act (step env sys act) := by
  unfold step
  cases act with
  | service c io =>
    dsimp only
    split_ifs with hc
    · exact .served hc
    · exact .idle fun _ _ _ e => by cases e
  | start d =>
    dsimp only
    split
    · rename_i hframe _
      exact .listed _ hframe fun _ _ e => by cases e
    · exact .idle fun _ _ _ e => by cases e
  | lock d =>
    dsimp only
    split
    · rename_i a todo hframe _
      split_ifs with ho
      · exact .locked a todo hframe ho
      · exact .idle fun _ _ _ e => by cases e
    · exact .idle fun _ _ _ e => by cases e
  | skip d =>
    dsimp only
    split
    · rename_i hframe
      exact .listed _ hframe fun _ _ e => by cases e
    · exact .idle fun _ _ _ e => by cases e
  | resume d input =>
    dsimp only
    split
    · rename_i hnone
      refine .idle fun d' _ f e hf => ?_
      obtain ⟨rfl, -⟩ := Act.resume.inj e
      cases hnone.symm.trans hf
    · rename_i f hf
      split
      · rename_i pc hpc
        exact .resumed _ hf hpc
      · rename_i hpc
        exact .ended _ hf hpc
  | crash d restart =>
    dsimp only
    split
    · rename_i hframe
      exact .listed _ hframe fun _ _ e => by cases e
    · rename_i f hf
      exact .crashed _ hf

/-- What the frames after a step are: frames from before, a frame that resumed, or a new frame
whose lock was just obtained. -/
theorem frame_origin {sys : System} {act : Act} {d : ℕ} {g : Frame}
    (h : (step env sys act).FrameAt d g) :
    (sys.FrameAt d g ∧ ∀ input, act ≠ .resume d input) ∨
      (∃ input f pc, act = .resume d input ∧ sys.FrameAt d f ∧
        (f.pc.resume env f.id sys.disk sys.runs input).pc = some pc ∧ g = { f with pc := pc }) ∨
      (act = .lock d ∧ sys.owner g.id = none ∧
        g.overAtLock = overById (contents sys.disk) g.id ∧ g.pc = .locked) := by
  have hmoves := @step_moves env sys act
  generalize step env sys act = sys' at h hmoves
  cases hmoves with
  | idle hact => exact Or.inl ⟨h, fun input e => hact d input g e h⟩
  | served _ => exact Or.inl ⟨h, fun _ e => by cases e⟩
  | listed todo _ hact =>
    rcases frameAt_setDispatcher h with ⟨-, e⟩ | ⟨-, h⟩
    · cases e
    · exact Or.inl ⟨h, hact d⟩
  | locked a todo _ ho =>
    rcases frameAt_setDispatcher h with ⟨rfl, e⟩ | ⟨-, h⟩
    · obtain rfl := Option.some.inj e
      exact Or.inr (Or.inr ⟨rfl, ho, rfl, rfl⟩)
    · exact Or.inl ⟨h, fun _ e => by cases e⟩
  | @resumed _ input f pc todo hf hpc =>
    rcases frameAt_setDispatcher h with ⟨rfl, e⟩ | ⟨hne, h⟩
    · exact Or.inr (Or.inl ⟨input, f, pc, rfl, hf, hpc, (Option.some.inj e).symm⟩)
    · exact Or.inl ⟨h, fun _ e => hne (Act.resume.inj e).1.symm⟩
  | ended todo hf hpc =>
    obtain ⟨hne, h⟩ := frameAt_endFrame h
    exact Or.inl ⟨h, fun _ e => hne (Act.resume.inj e).1.symm⟩
  | crashed todo hf => exact Or.inl ⟨(frameAt_endFrame h).2, fun _ e => by cases e⟩

/-- A dispatch in progress keeps its lock through every step of the system. -/
theorem owned_step {sys : System} (h : sys.Owned) (act : Act) : (step env sys act).Owned := by
  have hmoves := @step_moves env sys act
  generalize step env sys act = sys' at hmoves ⊢
  cases hmoves with
  | idle _ => exact h
  | served _ => exact h
  | listed todo _ _ =>
    intro d' f hf
    rcases frameAt_setDispatcher hf with ⟨-, e⟩ | ⟨-, hf⟩
    · cases e
    · exact h d' f hf
  | @locked d a todo _ ho =>
    intro d' f hf
    show Function.update sys.owner a.id (some d) f.id = some d'
    rcases frameAt_setDispatcher hf with ⟨rfl, e⟩ | ⟨hne, hf⟩
    · obtain rfl := Option.some.inj e
      exact Function.update_self ..
    · have hne' : f.id ≠ a.id := by
        intro e
        have := h d' f hf
        rw [e, ho] at this
        cases this
      rw [Function.update_of_ne hne']
      exact h d' f hf
  | @resumed _ _ f _ todo hf _ =>
    intro d' g hg
    rcases frameAt_setDispatcher hg with ⟨rfl, e⟩ | ⟨-, hg⟩
    · obtain rfl := Option.some.inj e
      exact h d' f hf
    · exact h d' g hg
  | ended todo hf _ => exact System.Owned.endFrame h hf todo
  | crashed todo hf => exact h.endFrame hf todo

/-! ## The state file and the provider -/

/-- Every lock is held by a dispatch in progress. -/
def System.Busy (sys : System) : Prop :=
  ∀ id d, sys.owner id = some d → ∃ f, sys.FrameAt d f ∧ f.id = id

/-- A step that is not about the dispatcher leaves its dispatch as it is. -/
theorem frame_untouched {sys : System} {act : Act} {d : ℕ} {f : Frame} (h : sys.FrameAt d f)
    (hresume : ∀ input, act ≠ .resume d input) (hcrash : ∀ restart, act ≠ .crash d restart) :
    (step env sys act).FrameAt d f := by
  have hother : ∀ {d' x}, d' ≠ d → (sys.setDispatcher d' x).FrameAt d f := by
    intro d' x hne
    show (Function.update sys.dispatchers d' x d).frame = some f
    rw [Function.update_of_ne hne.symm]
    exact h
  have hidle : ∀ {d'}, (sys.dispatchers d').frame = none → d' ≠ d := by
    rintro d' hnone rfl
    cases hnone.symm.trans h
  have hmoves := @step_moves env sys act
  generalize step env sys act = sys' at hmoves ⊢
  cases hmoves with
  | idle _ => exact h
  | served _ => exact h
  | listed todo hframe _ => exact hother (hidle hframe)
  | locked a todo hframe _ => exact hother (hidle hframe)
  | resumed todo _ _ => exact hother (fun e => hresume _ (by rw [e]))
  | ended todo _ _ => exact hother (fun e => hresume _ (by rw [e]))
  | crashed todo _ => exact hother (fun e => hcrash _ (by rw [e]))

/-- A dispatch that goes on is in progress after its step. -/
theorem frame_resumed {sys : System} {d : ℕ} {f : Frame} {input : Input} {pc : Pc}
    (h : sys.FrameAt d f) (hpc : (f.pc.resume env f.id sys.disk sys.runs input).pc = some pc) :
    (step env sys (.resume d input)).FrameAt d { f with pc := pc } := by
  unfold step
  dsimp only
  rw [show (sys.dispatchers d).frame = some f from h]
  dsimp only
  rw [hpc]
  show (Function.update sys.dispatchers d _ d).frame = _
  rw [Function.update_self]

/-- A dispatch in progress stays in progress unless it is cut off or comes to its end. -/
theorem frame_kept {sys : System} {act : Act} {d : ℕ} {f : Frame} (h : sys.FrameAt d f) :
    (∃ g, (step env sys act).FrameAt d g ∧ g.id = f.id) ∨ (∃ restart, act = .crash d restart) ∨
      (∃ input, act = .resume d input ∧
        (f.pc.resume env f.id sys.disk sys.runs input).pc = none) := by
  by_cases hresume : ∃ input, act = .resume d input
  · obtain ⟨input, rfl⟩ := hresume
    cases hpc : (f.pc.resume env f.id sys.disk sys.runs input).pc with
    | none => exact Or.inr (Or.inr ⟨input, rfl, hpc⟩)
    | some pc => exact Or.inl ⟨_, frame_resumed h hpc, rfl⟩
  · by_cases hcrash : ∃ restart, act = .crash d restart
    · exact Or.inr (Or.inl hcrash)
    · exact Or.inl ⟨f, frame_untouched h (fun input e => hresume ⟨input, e⟩)
        (fun restart e => hcrash ⟨restart, e⟩), rfl⟩

/-- A lock after a step was held before it, or is held by the dispatch that just obtained it. -/
theorem owner_origin {sys : System} {act : Act} {id : String} {d : ℕ}
    (h : (step env sys act).owner id = some d) :
    sys.owner id = some d ∨ ∃ g, (step env sys act).FrameAt d g ∧ g.id = id := by
  have hcleared : ∀ {f : Frame},
      Function.update sys.owner f.id none id = some d → sys.owner id = some d := by
    intro f e
    by_cases hid : id = f.id
    · rw [hid, Function.update_self] at e
      cases e
    · rwa [Function.update_of_ne hid] at e
  have hmoves := @step_moves env sys act
  generalize step env sys act = sys' at h hmoves
  cases hmoves with
  | idle _ => exact Or.inl h
  | served _ => exact Or.inl h
  | listed todo _ _ => exact Or.inl h
  | @locked d' a todo _ ho =>
    have h' : Function.update sys.owner a.id (some d') id = some d := h
    by_cases hid : id = a.id
    · rw [hid, Function.update_self] at h'
      obtain rfl := Option.some.inj h'
      refine Or.inr ⟨⟨a.id, overById (contents sys.disk) a.id, .locked⟩, ?_, hid.symm⟩
      show (Function.update sys.dispatchers d' _ d').frame = _
      rw [Function.update_self]
    · rw [Function.update_of_ne hid] at h'
      exact Or.inl h'
  | resumed todo _ _ => exact Or.inl h
  | ended todo _ _ => exact Or.inl (hcleared h)
  | crashed todo _ => exact Or.inl (hcleared h)

/-- A dispatch that comes to its end gives its lock back. -/
theorem owner_released {sys : System} {act : Act} {d : ℕ} {f : Frame} (h : sys.FrameAt d f)
    (hend : (∃ restart, act = .crash d restart) ∨ ∃ input, act = .resume d input ∧
      (f.pc.resume env f.id sys.disk sys.runs input).pc = none) :
    (step env sys act).owner f.id = none := by
  rcases hend with ⟨restart, rfl⟩ | ⟨input, rfl, hpc⟩
  · unfold step
    dsimp only
    rw [show (sys.dispatchers d).frame = some f from h]
    exact Function.update_self ..
  · unfold step
    dsimp only
    rw [show (sys.dispatchers d).frame = some f from h]
    dsimp only
    rw [hpc]
    exact Function.update_self ..

theorem busy_step {sys : System} (h : sys.Busy) (act : Act) : (step env sys act).Busy := by
  intro id d ho
  rcases owner_origin ho with hold | hnew
  · obtain ⟨f, hf, rfl⟩ := h id d hold
    rcases @frame_kept env sys act d f hf with hkept | hend
    · exact hkept
    · rw [owner_released hf hend] at ho
      cases ho
  · exact hnew

/-- A step changes the file and the provider only through a service call or a resumed dispatch. -/
theorem step_world (sys : System) (act : Act) :
    ((step env sys act).disk = sys.disk ∧ (step env sys act).runs = sys.runs ∧
        ∀ d input f, act = .resume d input → ¬ sys.FrameAt d f) ∨
      (∃ c io, act = .service c io ∧ serviceCall env (contents sys.disk) c = true ∧
        (step env sys act).disk = Store.step env sys.disk (c, io) ∧
        (step env sys act).runs = sys.runs) ∨
      (∃ d input f, act = .resume d input ∧ sys.FrameAt d f ∧
        (step env sys act).disk = (f.pc.resume env f.id sys.disk sys.runs input).disk ∧
        (step env sys act).runs = (f.pc.resume env f.id sys.disk sys.runs input).runs) := by
  have hmoves := @step_moves env sys act
  generalize step env sys act = sys' at hmoves ⊢
  cases hmoves with
  | idle hact => exact Or.inl ⟨rfl, rfl, hact⟩
  | @served c io hc => exact Or.inr (Or.inl ⟨c, io, rfl, hc, rfl, rfl⟩)
  | listed todo _ hact => exact Or.inl ⟨rfl, rfl, fun d input _ e => absurd e (hact d input)⟩
  | locked a todo _ _ => exact Or.inl ⟨rfl, rfl, fun _ _ _ e => by cases e⟩
  | @resumed d input f _ todo hf _ => exact Or.inr (Or.inr ⟨d, input, f, rfl, hf, rfl, rfl⟩)
  | @ended d input f todo hf _ => exact Or.inr (Or.inr ⟨d, input, f, rfl, hf, rfl, rfl⟩)
  | crashed todo _ => exact Or.inl ⟨rfl, rfl, fun _ _ _ e => by cases e⟩

end AgentOrchestrator.Launch
