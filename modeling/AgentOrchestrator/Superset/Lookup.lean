import AgentOrchestrator.Superset.Service

/-!
# What a lookup of the live adapter proves

The lookup of the adapter knows bindings only.  When it finds none, no call for the key may have
started a session exactly if every call for the key came to a conclusion: it was refused, or its
session was bound.  A call whose outcome is unknown, an answer without a session ID, a binding that
was not written and a crash after the call all leave the key unbound while a session may exist, and
the launch service then takes the lookup for a proof and records the launch as failed.
-/

namespace AgentOrchestrator.Superset

open Store (Env Assignment DurableState)

variable {env : Env}

/-! ## Conclusions of calls -/

/-- The call was refused, or its session was bound. -/
def Call.Concluded (c : Call) : Prop := c.refused = true ∨ c.bound = true

instance (c : Call) : Decidable c.Concluded :=
  inferInstanceAs (Decidable (c.refused = true ∨ c.bound = true))

theorem findByIdempotencyKey_none {key : String} {file : File} {readable : Bool}
    (h : findByIdempotencyKey key file readable = .ok none) :
    (contents file).runs key = none := by
  unfold findByIdempotencyKey readState at h
  cases readable with
  | false => cases h
  | true =>
    have h' : ((contents file).runs key).map (·.runId) = none := Except.ok.inj h
    exact Option.map_eq_none_iff.1 h'

theorem findByIdempotencyKey_of_none {key : String} {file : File}
    (h : (contents file).runs key = none) : findByIdempotencyKey key file true = .ok none := by
  show Except.ok (((contents file).runs key).map (·.runId)) = _
  rw [h]
  rfl

/-- A lookup that finds nothing is right when the calls of the key are concluded. -/
theorem Ledger.absent {state : ProviderState} {calls : List Call} (h : Ledger state calls)
    {key : String} (hconcluded : ∀ c ∈ calls, c.key = key → c.Concluded)
    (hruns : state.runs key = none) : Closed calls key := by
  rintro n c hc rfl
  rcases hconcluded c (List.mem_of_getElem? hc) rfl with hr | hb
  · exact hr
  · exact absurd hruns (h.bindings n c hc hb)

/-- Whether a lookup that finds nothing is right. -/
theorem Ledger.absent_iff {file : File} {calls : List Call} (h : Ledger (contents file) calls)
    (key : String) :
    ((∃ readable, findByIdempotencyKey key file readable = .ok none) →
        ∀ c ∈ calls, c.key = key → ¬ c.MayHaveStarted) ↔
      ∀ c ∈ calls, c.key = key → c.Concluded := by
  constructor
  · intro hright c hc hkey
    obtain ⟨n, hn⟩ := List.mem_iff_getElem?.1 hc
    by_contra hopen
    unfold Call.Concluded at hopen
    rw [not_or, Bool.not_eq_true, Bool.not_eq_true] at hopen
    have hruns := h.unbound ⟨c, hn, hkey, hopen.1, hopen.2⟩
    exact hright ⟨true, findByIdempotencyKey_of_none hruns⟩ c hc hkey (Or.inr hopen.1)
  · rintro hconcluded ⟨readable, hfound⟩ c hc hkey hmay
    obtain ⟨n, hn⟩ := List.mem_iff_getElem?.1 hc
    have hclosed := h.absent hconcluded (findByIdempotencyKey_none hfound)
    have hr := h.not_refused hn hmay
    rw [hclosed n c hn hkey] at hr
    cases hr

/-! ## Steps of the adapter -/

/-- The launches after a step of a launch in progress are those from before. -/
theorem frames_inside {sys : System} {act : Act} (ht : Trusted sys act) (hact : insideAct act = true)
    {i : ℕ} {g : Frame} (hg : (step sys act).frames i = some g) :
    ∃ f, sys.frames i = some f ∧ g.request = f.request ∧ g.process = f.process := by
  have hmoves := step_moves ht
  generalize step sys act = sys' at hmoves hg
  cases hmoves with
  | idle => exact ⟨g, hg, rfl, rfl⟩
  | entered f queue _ _ _ _ _ => cases hact
  | @locked j f target hf hpc hlock =>
    rcases frames_setFrame hg with ⟨rfl, rfl⟩ | ⟨-, hg⟩
    · exact ⟨f, hf, rfl, rfl⟩
    · exact ⟨g, hg, rfl, rfl⟩
  | @gaveUp j f target hf hpc =>
    rcases frames_setFrame hg with ⟨rfl, rfl⟩ | ⟨-, hg⟩
    · exact ⟨f, hf, rfl, rfl⟩
    · exact ⟨g, hg, rfl, rfl⟩
  | @resumed j input f hf =>
    rcases frames_setFrame hg with ⟨rfl, rfl⟩ | ⟨-, hg⟩
    · exact ⟨f, hf, rfl, rfl⟩
    · exact ⟨g, hg, rfl, rfl⟩
  | finished queue hf hpc => cases hact
  | started => exact ⟨g, hg, rfl, rfl⟩
  | crashed queue => cases hact

/-- Every other step leaves the file and the calls as they are. -/
theorem step_outside (sys : System) {act : Act} (hact : insideAct act = false) :
    Trusted sys act ∧ (step sys act).file = sys.file ∧ (step sys act).calls = sys.calls := by
  have ht : Trusted sys act := by
    cases act with
    | resume _ _ => cases hact
    | start _ => cases hact
    | compromise _ => cases hact
    | _ => trivial
  refine ⟨ht, ?_⟩
  have hmoves := step_moves ht
  generalize step sys act = sys' at hmoves
  cases hmoves with
  | resumed _ => cases hact
  | started => cases hact
  | _ => exact ⟨rfl, rfl⟩

/-- The launches after one has answered are the others. -/
theorem frames_finish {sys : System} {i j : ℕ} {f g : Frame} {reply : Reply}
    (hf : sys.frames i = some f) (hpc : f.pc = .done reply)
    (hg : (step sys (.finish i)).frames j = some g) : j ≠ i ∧ sys.frames j = some g := by
  unfold step at hg
  dsimp only at hg
  rw [hf] at hg
  dsimp only at hg
  rw [hpc] at hg
  have hg' : Function.update sys.frames i none j = some g := hg
  by_cases hj : j = i
  · rw [hj, Function.update_self] at hg'
    cases hg'
  · rw [Function.update_of_ne hj] at hg'
    exact ⟨hj, hg'⟩

/-- Changing a call but not its key, and not taking a refusal back, keeps a key closed. -/
theorem Closed.modify {calls : List Call} {key : String} (h : Closed calls key) (n : ℕ)
    {f : Call → Call} (hkey : ∀ c, (f c).key = c.key)
    (hrefused : ∀ c : Call, c.refused = true → (f c).refused = true) :
    Closed (calls.modify n f) key := by
  intro m c' hc' hk
  obtain ⟨c, hc, ⟨-, rfl⟩ | ⟨-, rfl⟩⟩ := getElem?_changed hc'
  · exact hrefused c (h m c hc ((hkey c).symm.trans hk))
  · exact h m c' hc hk

/-- A launch issues calls for its own key only. -/
theorem resumes_closed {request : LaunchRequest} {file : File} {calls : List Call} {pc : Pc}
    {input : Input} {e : Effect} {key : String} (hmove : Resumes request file calls pc input e)
    (h : Closed calls key) (hkey : request.idempotencyKey ≠ key) : Closed e.calls key := by
  cases hmove with
  | saved =>
    intro n c hc hk
    rcases getElem?_issued hc with hc | ⟨-, rfl⟩
    · exact h n c hc hk
    · exact absurd hk hkey
  | refused _ => exact h.modify _ (fun _ => rfl) (fun _ _ => rfl)
  | bound _ _ => exact h.modify _ (fun _ => rfl) (fun _ hr => hr)
  | _ => exact h

/-- A key gets a call from a launch of it only. -/
theorem closed_step {sys : System} (h : Sound sys) {act : Act} (ht : Trusted sys act)
    {key : String} (hclosed : Closed sys.calls key)
    (hkey : ∀ i f, sys.frames i = some f → f.request.idempotencyKey ≠ key) :
    Closed (step sys act).calls key := by
  have hmoves := step_moves ht
  generalize step sys act = sys' at hmoves
  cases hmoves with
  | @resumed i input f hf => exact resumes_closed (h.resumes hf input) hclosed (hkey i f hf)
  | started => exact hclosed.modify _ (fun _ => rfl) (fun _ hr => hr)
  | _ => exact hclosed

/-- A launch that answers with a session answers with the bound one. -/
def Replied (sys : System) : Prop :=
  ∀ i f runId, sys.frames i = some f → f.pc = .done (.ok runId) →
    ∃ record, (contents sys.file).runs f.request.idempotencyKey = some record ∧
      record.runId = runId

theorem resumes_replied {request : LaunchRequest} {file : File} {calls : List Call} {pc : Pc}
    {input : Input} {e : Effect}
    (hpc : pc.Expects request.idempotencyKey (contents file) calls)
    (hmove : Resumes request file calls pc input e) {runId : String}
    (hdone : e.pc = .done (.ok runId)) :
    pc = .done (.ok runId) ∨
      ∃ record, (contents e.file).runs request.idempotencyKey = some record ∧
        record.runId = runId := by
  cases hmove with
  | waiting => exact Or.inl hdone
  | @found _ _ record hruns => exact Or.inr ⟨record, hruns, Except.ok.inj (Pc.done.inj hdone)⟩
  | bound reply hreply =>
    obtain ⟨-, record, hid, -, rfl⟩ := hpc
    refine Or.inr ⟨record, Function.update_self .., ?_⟩
    rw [Pc.done.inj hdone] at hreply
    rcases hreply with e | e
    · exact hid.trans (Except.ok.inj e).symm
    · cases e
  | _ => cases hdone

theorem replied_step {sys : System} (h : Sound sys) (hreplied : Replied sys) {act : Act}
    (ht : Trusted sys act) : Replied (step sys act) := by
  intro i g runId hg hdone
  -- an answer from before the step stands
  have hold : sys.frames i = some g →
      ∃ record, (contents (step sys act).file).runs g.request.idempotencyKey = some record ∧
        record.runId = runId := by
    intro hg
    obtain ⟨record, hruns, hid⟩ := hreplied i g runId hg hdone
    exact ⟨record, step_runs h ht hruns, hid⟩
  have hmoves := step_moves ht
  generalize step sys act = sys' at hmoves hg hold ⊢
  cases hmoves with
  | idle => exact hold hg
  | entered f queue _ _ _ _ hpc =>
    rcases frames_setFrame hg with ⟨-, rfl⟩ | ⟨-, hg⟩
    · rcases hpc with ⟨target, e⟩ | ⟨failure, e, -⟩
      · rw [e] at hdone
        cases hdone
      · rw [e] at hdone
        cases hdone
    · exact hold hg
  | locked hf hpc hlock =>
    rcases frames_setFrame hg with ⟨-, rfl⟩ | ⟨-, hg⟩
    · cases hdone
    · exact hold hg
  | gaveUp hf hpc =>
    rcases frames_setFrame hg with ⟨-, rfl⟩ | ⟨-, hg⟩
    · cases hdone
    · exact hold hg
  | @resumed j input f hf =>
    rcases frames_setFrame hg with ⟨rfl, rfl⟩ | ⟨-, hg⟩
    · have hmove := h.resumes hf input
      rcases resumes_replied (h.frames i f hf) hmove hdone with hdone | hbound
      · obtain ⟨record, hruns, hid⟩ := hreplied i f runId hf hdone
        exact ⟨record, resumes_runs h.ledger (h.frames i f hf) hmove hruns, hid⟩
      · exact hbound
    · exact hold hg
  | @finished j f reply queue hf hpc =>
    have hg' : Function.update sys.frames j none i = some g := hg
    by_cases hj : i = j
    · rw [hj, Function.update_self] at hg'
      cases hg'
    · rw [Function.update_of_ne hj] at hg'
      exact hold hg'
  | started => exact hold hg
  | crashed queue => exact hold (Option.filter_eq_some_iff.1 hg).1

/-! ## The service -/

/-- The assumptions about the lock and about refusals. -/
def Service.Trusted (sys : Service) : ServiceAct → Prop
  | .adapter act => Superset.Trusted sys.adapter act
  | _ => True

instance (sys : Service) (act : ServiceAct) : Decidable (sys.Trusted act) := by
  unfold Service.Trusted
  split <;> infer_instance

/-- A dispatch looks a key up when its calls are concluded, and no launch under recovery is refused
for good while a session for it may exist. -/
def Service.Settled (sys : Service) : ServiceAct → Prop
  | .lookup d _ => ∀ key ∈ (pcOf sys.launch d).bind lookupKey?,
      ∀ c ∈ sys.adapter.calls, c.key = key → c.Concluded
  | .launch act => ¬ Launch.BlindRefusal sys.view act
  | _ => True

instance (sys : Service) (act : ServiceAct) : Decidable (sys.Settled act) := by
  unfold Service.Settled
  split <;> infer_instance

/-- What a step of the service does. -/
inductive ServiceMoves (env : Env) (sys : Service) : ServiceAct → Service → Prop
  | idle {act : ServiceAct} : ServiceMoves env sys act sys
  | own {act : Launch.Act} (hact : ownAct act = true) :
    ServiceMoves env sys (.launch act) { sys with launch := Launch.step env sys.launch act }
  | called {d : ℕ} {revalidation : Option Thrown} {f : Launch.Frame} {a : Assignment}
      {grant : Launch.Grant} {request : Launch.LaunchRequest} (hf : sys.launch.FrameAt d f)
      (hpc : f.pc = .calling a grant request) :
    ServiceMoves env sys (.call d revalidation) { sys with
      adapter := step sys.adapter (.launch d d (liveRequest request) revalidation) }
  | inside {act : Act} (hact : insideAct act = true) :
    ServiceMoves env sys (.adapter act) { sys with adapter := step sys.adapter act }
  | answered {d : ℕ} {g : Frame} {reply : Reply} (hg : sys.adapter.frames d = some g)
      (hdone : g.pc = .done reply) :
    ServiceMoves env sys (.answer d)
      { launch := Launch.step env sys.launch (.resume d (.launch none (replyHandle reply)))
        adapter := step sys.adapter (.finish d) }
  | looked {d : ℕ} {readable : Bool} {f : Launch.Frame} {key : String}
      (hf : sys.launch.FrameAt d f) (hkey : lookupKey? f.pc = some key) :
    ServiceMoves env sys (.lookup d readable) { sys with
      launch := Launch.step env sys.launch (.resume d (.lookup
        (lookupHandle (findByIdempotencyKey key sys.adapter.file readable)))) }
  | crashed {d : ℕ} {restart : Bool} :
    ServiceMoves env sys (.crash d restart)
      { launch := Launch.step env sys.launch (.crash d restart)
        adapter := step sys.adapter (.crash d) }

theorem launchRequest?_eq_some {pc : Launch.Pc} {request : Launch.LaunchRequest}
    (h : launchRequest? pc = some request) : ∃ a grant, pc = .calling a grant request := by
  cases pc with
  | calling a grant r =>
    obtain rfl := Option.some.inj h
    exact ⟨a, grant, rfl⟩
  | _ => cases h

theorem reply?_eq_some {pc : Pc} {reply : Reply} (h : pc.reply? = some reply) :
    pc = .done reply := by
  cases pc with
  | done r => rw [Option.some.inj h]
  | _ => cases h

/-- A dispatch of which something is known is in progress. -/
theorem frameAt_of_pcOf {α : Type} {sys : Launch.System} {d : ℕ} {k : Launch.Pc → Option α} {x : α}
    (h : (pcOf sys d).bind k = some x) : ∃ f, sys.FrameAt d f ∧ k f.pc = some x := by
  obtain ⟨pc, hpc, hk⟩ := Option.bind_eq_some_iff.1 h
  obtain ⟨f, hf, rfl⟩ := Option.map_eq_some_iff.1 hpc
  exact ⟨f, hf, hk⟩

theorem service_moves (sys : Service) (act : ServiceAct) :
    ServiceMoves env sys act (sys.step env act) := by
  unfold Service.step
  cases act with
  | launch act =>
    dsimp only
    split_ifs with hact
    · exact .own hact
    · exact .idle
  | call d revalidation =>
    dsimp only
    split
    · rename_i request hr
      obtain ⟨f, hf, hpc⟩ := frameAt_of_pcOf hr
      obtain ⟨a, grant, hpc⟩ := launchRequest?_eq_some hpc
      exact .called hf hpc
    · exact .idle
  | adapter act =>
    dsimp only
    split_ifs with hact
    · exact .inside hact
    · exact .idle
  | answer d =>
    dsimp only
    split
    · rename_i reply hr
      obtain ⟨g, hg, hreply⟩ := Option.bind_eq_some_iff.1 hr
      exact .answered hg (reply?_eq_some hreply)
    · exact .idle
  | lookup d readable =>
    dsimp only
    split
    · rename_i key hk
      obtain ⟨f, hf, hkey⟩ := frameAt_of_pcOf hk
      exact .looked hf hkey
    · exact .idle
  | crash d restart => exact .crashed

/-- **The invariant of the service.** -/
structure Linked (env : Env) (sys : Service) : Prop where
  launch : Launch.Sound env sys.view
  adapter : Sound sys.adapter
  replied : Replied sys.adapter
  /-- A launch of the adapter is the call of the dispatch of the same number. -/
  calls : ∀ d g, sys.adapter.frames d = some g → g.process = d ∧
    ∃ f a grant request, sys.launch.FrameAt d f ∧ f.pc = .calling a grant request ∧
      g.request = liveRequest request

/-- The view after a step of the launch system that creates no run. -/
theorem view_step {sys : Service} {act : Launch.Act}
    (h : StepCreatesNothing act) {adapter : System}
    (hfile : adapter.file = sys.adapter.file) (hcalls : adapter.calls = sys.adapter.calls) :
    Service.view ⟨Launch.step env sys.launch act, adapter⟩ = Launch.step env sys.view act := by
  have hsessions : sessions adapter = sessions sys.adapter := by
    unfold sessions
    rw [hfile, hcalls]
  show ({ Launch.step env sys.launch act with runs := sessions adapter } : Launch.System) = _
  rw [hsessions]
  exact (step_withRuns sys.launch (sessions sys.adapter) h).symm

/-- The key of a launch of the adapter is that of an assignment on file as launching. -/
theorem Linked.launching {sys : Service} (h : Linked env sys) {d : ℕ} {g : Frame}
    (hg : sys.adapter.frames d = some g) : ∃ f a grant request, sys.launch.FrameAt d f ∧
      f.pc = .calling a grant request ∧ a.idempotencyKey = g.request.idempotencyKey ∧
      Launch.On (Store.contents sys.launch.disk) f.id a .launching := by
  obtain ⟨-, f, a, grant, request, hf, hpc, hrequest⟩ := h.calls d g hg
  have hexp := h.launch.frames d f hf
  rw [hpc] at hexp
  refine ⟨f, a, grant, request, hf, hpc, ?_, hexp.1⟩
  rw [hrequest]
  exact hexp.2.symm

/-- A dispatch in progress keeps its launch of the adapter while the others go on. -/
theorem Linked.calls_untouched {sys : Service} (h : Linked env sys) {act : Launch.Act} {d : ℕ}
    {g : Frame} (hg : sys.adapter.frames d = some g) (hresume : ∀ input, act ≠ .resume d input)
    (hcrash : ∀ restart, act ≠ .crash d restart) :
    g.process = d ∧ ∃ f a grant request, (Launch.step env sys.launch act).FrameAt d f ∧
      f.pc = .calling a grant request ∧ g.request = liveRequest request := by
  obtain ⟨hprocess, f, a, grant, request, hf, hrest⟩ := h.calls d g hg
  exact ⟨hprocess, f, a, grant, request, Launch.frame_untouched hf hresume hcrash, hrest⟩

/-- Steps of the adapter give a session only to an assignment that was begun in the store. -/
theorem Linked.launch_adapter {sys : Service} (h : Linked env sys) {act : Act}
    (ht : Trusted sys.adapter act) :
    Launch.Sound env (Service.view ⟨sys.launch, step sys.adapter act⟩) := by
  refine ⟨h.launch.valid, h.launch.keys, h.launch.owned, h.launch.frames, ?_⟩
  intro k hk
  by_cases hclosed : Closed sys.adapter.calls k
  · -- the call is new, so a launch of the key is in progress
    have hopen : ∃ i g, sys.adapter.frames i = some g ∧ g.request.idempotencyKey = k := by
      by_contra hnone
      refine hk ((sessions_eq_none_iff (sound_step h.adapter ht).ledger).2
        (closed_step h.adapter ht hclosed ?_))
      intro i g hg hkey
      exact hnone ⟨i, g, hg, hkey⟩
    obtain ⟨i, g, hg, hkey⟩ := hopen
    obtain ⟨f, a, grant, request, -, -, hak, -, b, hb, -, hbk, -, hst⟩ := h.launching hg
    refine ⟨b, hb, hbk.trans (hak.trans hkey), ?_⟩
    rw [hst]
    exact fun e => by cases e
  · exact h.launch.evidence k (fun e => hclosed ((sessions_eq_none_iff h.adapter.ledger).1 e))

theorem calling_waits {input : Launch.Input} {d : ℕ} (hact : ownAct (.resume d input) = true)
    (a : Assignment) (grant : Launch.Grant) (request : Launch.LaunchRequest) (id : String)
    (disk : Store.Disk) (runs : Launch.ProviderRuns) :
    ((Launch.Pc.calling a grant request).resume env id disk runs input).pc =
      some (.calling a grant request) := by
  cases input with
  | lookup _ => cases hact
  | launch _ _ => cases hact
  | _ => rfl

theorem ownAct_creates {act : Launch.Act} (hact : ownAct act = true) : StepCreatesNothing act := by
  cases act with
  | resume d input =>
    cases input with
    | launch _ _ => cases hact
    | _ => trivial
  | _ => trivial

/-- A step of the launch system keeps the calls of the other dispatches. -/
theorem Linked.calls_own {sys : Service} (h : Linked env sys) {act : Launch.Act}
    (hact : ownAct act = true) (d : ℕ) (g : Frame) (hg : sys.adapter.frames d = some g) :
    g.process = d ∧ ∃ f a grant request, (Launch.step env sys.launch act).FrameAt d f ∧
      f.pc = .calling a grant request ∧ g.request = liveRequest request := by
  by_cases hresume : ∃ input, act = .resume d input
  · obtain ⟨input, rfl⟩ := hresume
    obtain ⟨hprocess, f, a, grant, request, hf, hpc, hrequest⟩ := h.calls d g hg
    have hwaits := @calling_waits env input d hact a grant request f.id sys.launch.disk
      sys.launch.runs
    rw [← hpc] at hwaits
    exact ⟨hprocess, _, a, grant, request, Launch.frame_resumed hf hwaits, hpc, hrequest⟩
  · refine h.calls_untouched hg (fun input e => hresume ⟨input, e⟩) ?_
    rintro restart rfl
    cases hact

theorem linked_step {sys : Service} (h : Linked env sys) {act : ServiceAct}
    (ht : sys.Trusted act) : Linked env (sys.step env act) := by
  have hmoves := @service_moves env sys act
  generalize sys.step env act = sys' at hmoves
  cases hmoves with
  | idle => exact h
  | own hact =>
    refine ⟨?_, h.adapter, h.replied, h.calls_own hact⟩
    rw [view_step (ownAct_creates hact) rfl rfl]
    exact Launch.sound_step h.launch _
  | @called d revalidation f a grant request hf hpc =>
    obtain ⟨hta, hfile, hcalls⟩ :=
      @step_outside sys.adapter (.launch d d (liveRequest request) revalidation) rfl
    refine ⟨h.launch_adapter hta, sound_step h.adapter hta, replied_step h.adapter h.replied hta, ?_⟩
    have hmoves := step_moves hta
    intro d' g hg
    generalize step sys.adapter _ = adapter at hmoves hg
    cases hmoves with
    | idle => exact h.calls d' g hg
    | entered f' queue hnone hprocess hrequest _ _ =>
      rcases frames_setFrame hg with ⟨rfl, rfl⟩ | ⟨-, hg⟩
      · exact ⟨hprocess, f, a, grant, request, hf, hpc, hrequest⟩
      · exact h.calls d' g hg
  | @inside act hact =>
    have hta : Trusted sys.adapter act := ht
    refine ⟨h.launch_adapter hta, sound_step h.adapter hta, replied_step h.adapter h.replied hta, ?_⟩
    intro d g hg
    obtain ⟨g₀, hg₀, hrequest, hprocess⟩ := frames_inside hta hact hg
    rw [hrequest, hprocess]
    exact h.calls d g₀ hg₀
  | @answered d g reply hg hdone =>
    obtain ⟨hta, hfile, hcalls⟩ := @step_outside sys.adapter (.finish d) rfl
    refine ⟨?_, sound_step h.adapter hta, replied_step h.adapter h.replied hta, ?_⟩
    · rw [view_step (by exact rfl) hfile hcalls]
      exact Launch.sound_step h.launch _
    · intro d' g' hg'
      obtain ⟨hne, hg'⟩ := frames_finish hg hdone hg'
      refine h.calls_untouched hg' ?_ (fun _ e => by cases e)
      rintro input ⟨⟩
      exact hne rfl
  | @looked d readable f key hf hkey =>
    refine ⟨?_, h.adapter, h.replied, ?_⟩
    · rw [view_step (by exact trivial) rfl rfl]
      exact Launch.sound_step h.launch _
    · intro d' g hg
      refine h.calls_untouched hg ?_ (fun _ e => by cases e)
      rintro input ⟨⟩
      -- the dispatch that looks up has no launch of the adapter
      obtain ⟨-, f', a, grant, request, hf', hpc, -⟩ := h.calls d g hg
      obtain rfl := Option.some.inj (hf.symm.trans hf')
      rw [hpc] at hkey
      cases hkey
  | @crashed d restart =>
    obtain ⟨hta, hfile, hcalls⟩ := @step_outside sys.adapter (.crash d) rfl
    refine ⟨?_, sound_step h.adapter hta, replied_step h.adapter h.replied hta, ?_⟩
    · rw [view_step (by exact trivial) hfile hcalls]
      exact Launch.sound_step h.launch _
    · intro d' g hg
      obtain ⟨hg, hp⟩ := Option.filter_eq_some_iff.1 hg
      have hprocess := (h.calls d' g hg).1
      refine h.calls_untouched hg (fun _ e => by cases e) ?_
      rintro restart' ⟨⟩
      exact of_decide_eq_true hp hprocess

/-! ## Dispatches about to record a failure -/

/-- A dispatch that is not at its call shares its assignment with no launch of the adapter. -/
theorem Linked.no_call {sys : Service} (h : Linked env sys) {d : ℕ} {f : Launch.Frame}
    (hf : sys.launch.FrameAt d f) (hpc : ∀ a grant request, f.pc ≠ .calling a grant request)
    {a : Assignment} (hon : Launch.On (Store.contents sys.launch.disk) f.id a .launching)
    (i : ℕ) (g : Frame) (hg : sys.adapter.frames i = some g) :
    g.request.idempotencyKey ≠ a.idempotencyKey := by
  intro hkey
  obtain ⟨f', a', grant, request, hf', hpc', hak', -, b', hb', hid', hbk', -⟩ := h.launching hg
  obtain ⟨-, b, hb, hid, hbk, -⟩ := hon
  have hsame : b' = b :=
    Keyed.eq_of_key h.launch.keys hb' hb (by rw [hbk', hak', hkey, hbk])
  by_cases hd : i = d
  · subst hd
    obtain rfl := Option.some.inj (hf.symm.trans hf')
    exact hpc a' grant request hpc'
  · exact h.launch.owned.distinct hf hf' hd (by rw [← hid', ← hid, hsame])

/-- A step of the adapter gives no session to an assignment about to be recorded as failed. -/
theorem Linked.clear_adapter {sys : Service} (h : Linked env sys) (hclear : Launch.AllClear sys.view)
    {act : Act} (ht : Trusted sys.adapter act) :
    Launch.AllClear (Service.view ⟨sys.launch, step sys.adapter act⟩) := by
  intro d f hf
  have hkept : ∀ {a : Assignment}, (∀ a grant request, f.pc ≠ .calling a grant request) →
      Launch.On (Store.contents sys.launch.disk) f.id a .launching →
      sessions sys.adapter a.idempotencyKey = none →
      sessions (step sys.adapter act) a.idempotencyKey = none := by
    intro a hpc hon hnone
    rw [sessions_eq_none_iff h.adapter.ledger] at hnone
    rw [sessions_eq_none_iff (sound_step h.adapter ht).ledger]
    exact closed_step h.adapter ht hnone (h.no_call hf hpc hon)
  have hexp := h.launch.frames d f hf
  have hcl := hclear d f hf
  generalize f.pc = pc at hexp hcl hkept ⊢
  cases pc with
  | failingRefused a refusal => exact hkept (fun _ _ _ e => by cases e) hexp hcl
  | failing a grant message code => exact hkept (fun _ _ _ e => by cases e) hexp hcl
  | _ => trivial

/-- An answer of the adapter honours the contract of a launch. -/
theorem Linked.honest_launch {sys : Service} (h : Linked env sys) {d : ℕ} {g : Frame}
    {reply : Reply} (hg : sys.adapter.frames d = some g) (hdone : g.pc = .done reply) :
    Launch.HonestLaunch (sessions sys.adapter) g.request.idempotencyKey none
      (replyHandle reply) := by
  cases reply with
  | error e => exact ⟨(fun _ => (nomatch ·)), (nomatch ·)⟩
  | ok runId =>
    obtain ⟨record, hruns, rfl⟩ := h.replied d g runId hg hdone
    exact ⟨(fun _ => (nomatch ·)), (h.adapter.ledger.sources _ record hruns).1,
      sessions_of_bound hruns⟩

/-- A lookup of the adapter honours the contract when the calls of the key are concluded. -/
theorem Linked.honest_lookup {sys : Service} (h : Linked env sys) {key : String}
    (hconcluded : ∀ c ∈ sys.adapter.calls, c.key = key → c.Concluded) (readable : Bool) :
    Launch.HonestLookup (sessions sys.adapter) key
      (lookupHandle (findByIdempotencyKey key sys.adapter.file readable)) := by
  unfold findByIdempotencyKey readState
  cases readable with
  | false => exact fun he => by cases he
  | true =>
    show Launch.HonestLookup (sessions sys.adapter) key
      (lookupHandle (.ok (((contents sys.adapter.file).runs key).map (·.runId))))
    cases hruns : (contents sys.adapter.file).runs key with
    | none => exact (sessions_eq_none_iff h.adapter.ledger).2 (h.adapter.ledger.absent hconcluded hruns)
    | some record =>
      exact ⟨(h.adapter.ledger.sources key record hruns).1, sessions_of_bound hruns⟩

theorem ownAct_contract {sys : Launch.System} {act : Launch.Act} (hact : ownAct act = true) :
    Launch.Contract sys act := by
  cases act with
  | resume d input =>
    intro f _
    generalize f.pc = pc
    cases input with
    | lookup _ => cases hact
    | launch _ _ => cases hact
    | _ => cases pc <;> trivial
  | _ => trivial

/-- Only the answer of the authorizer refuses a launch. -/
theorem not_blindRefusal {sys : Launch.System} {d : ℕ} {input : Launch.Input}
    (hinput : ∀ answer, input ≠ .authorizer answer) :
    ¬ Launch.BlindRefusal sys (.resume d input) := by
  rintro ⟨f, -, hb⟩
  generalize f.pc = pc at hb
  cases input with
  | authorizer answer => exact hinput answer rfl
  | _ => cases pc <;> exact hb

theorem clear_step {sys : Service} (h : Linked env sys) (hclear : Launch.AllClear sys.view)
    {act : ServiceAct} (ht : sys.Trusted act) (hs : sys.Settled act) :
    Launch.AllClear (sys.step env act).view := by
  have hmoves := @service_moves env sys act
  generalize sys.step env act = sys' at hmoves
  cases hmoves with
  | idle => exact hclear
  | own hact =>
    rw [view_step (ownAct_creates hact) rfl rfl]
    exact Launch.allClear_step h.launch hclear (ownAct_contract hact) hs
  | called hf hpc => exact h.clear_adapter hclear (step_outside sys.adapter rfl).1
  | inside hact => exact h.clear_adapter hclear ht
  | @answered d g reply hg hdone =>
    obtain ⟨-, hfile, hcalls⟩ := @step_outside sys.adapter (.finish d) rfl
    rw [view_step (by exact rfl) hfile hcalls]
    refine Launch.allClear_step h.launch hclear ?_ (not_blindRefusal (fun _ e => by cases e))
    intro f hf
    obtain ⟨-, f', a, grant, request, hf', hpc, hrequest⟩ := h.calls d g hg
    obtain rfl := Option.some.inj (hf'.symm.trans hf)
    rw [hpc]
    have honest := h.honest_launch hg hdone
    rw [hrequest] at honest
    exact honest
  | @looked d readable f key hf hkey =>
    rw [view_step (by exact trivial) rfl rfl]
    refine Launch.allClear_step h.launch hclear ?_ (not_blindRefusal (fun _ e => by cases e))
    intro f' hf'
    obtain rfl := Option.some.inj (hf.symm.trans hf')
    have hlooked : (pcOf sys.launch d).bind lookupKey? = some key := by
      unfold pcOf
      rw [show (sys.launch.dispatchers d).frame = some f from hf]
      exact hkey
    have honest := h.honest_lookup (hs key hlooked) readable
    generalize f.pc = pc at hkey
    cases pc with
    | lookingUp a grant =>
      obtain rfl := Option.some.inj hkey
      exact honest
    | recovering a grant error =>
      obtain rfl := Option.some.inj hkey
      exact honest
    | _ => cases hkey
  | @crashed d restart =>
    obtain ⟨-, hfile, hcalls⟩ := @step_outside sys.adapter (.crash d) rfl
    rw [view_step (by exact trivial) hfile hcalls]
    exact Launch.allClear_step h.launch hclear trivial (fun hb => hb)

/-! ## Whole runs -/

theorem linked_init : Linked env {} := by
  refine ⟨?_, sound_init, ?_, ?_⟩
  · exact Launch.sound_init
  · intro i f runId hf
    cases hf
  · intro d g hg
    cases hg

/-- The steps under which the service takes no lookup for more than it is. -/
def Service.Careful (sys : Service) (act : ServiceAct) : Prop := sys.Trusted act ∧ sys.Settled act

instance (sys : Service) (act : ServiceAct) : Decidable (sys.Careful act) :=
  inferInstanceAs (Decidable (sys.Trusted act ∧ sys.Settled act))

theorem clear_run {acts : List ServiceAct}
    (h : Runs.Admissible (Service.step env) Service.Careful {} acts) :
    Linked env (Runs.run (Service.step env) {} acts) ∧
      Launch.AllClear (Runs.run (Service.step env) {} acts).view := by
  refine Runs.run_invariant_of (Service.step env)
    (P := fun sys => Linked env sys ∧ Launch.AllClear sys.view) ?_ ⟨linked_init, ?_⟩ h
  · intro sys act hsys hact
    exact ⟨linked_step hsys.1 hact.1, clear_step hsys.1 hsys.2 hact.1 hact.2⟩
  · intro d f hf
    cases hf

/-- A step of the service that records a failure records it for a key without a session. -/
theorem service_failed {sys : Service} (h : Linked env sys) (hclear : Launch.AllClear sys.view)
    {act : ServiceAct} {a a' : Assignment}
    (ha : a ∈ (Store.contents sys.launch.disk).assignments)
    (ha' : a' ∈ (Store.contents (sys.step env act).launch.disk).assignments) (hid : a'.id = a.id)
    (hst : a.status ≠ .failed) (hst' : a'.status = .failed) :
    Closed sys.adapter.calls a.idempotencyKey := by
  have hsame : sys.launch.disk = (sys.step env act).launch.disk →
      Closed sys.adapter.calls a.idempotencyKey := by
    intro e
    rw [← e] at ha'
    rw [Keyed.eq_of_key h.launch.valid.uniqueAssignments ha' ha hid] at hst'
    exact absurd hst' hst
  have hlaunch : ∀ {lact : Launch.Act}, StepCreatesNothing lact →
      (sys.step env act).launch = Launch.step env sys.launch lact →
      Closed sys.adapter.calls a.idempotencyKey := by
    intro lact hcreates e
    rw [e] at ha'
    have hview := @view_step env sys lact hcreates sys.adapter rfl rfl
    have hdisk : (Launch.step env sys.view lact).disk = (Launch.step env sys.launch lact).disk := by
      rw [← hview]
      rfl
    rw [← hdisk] at ha'
    exact (sessions_eq_none_iff h.adapter.ledger).1
      (Launch.step_failed h.launch hclear ha ha' hid hst hst')
  have hmoves := @service_moves env sys act
  generalize sys.step env act = sys' at hmoves hsame hlaunch
  cases hmoves with
  | idle => exact hsame rfl
  | own hact => exact hlaunch (ownAct_creates hact) rfl
  | called _ _ => exact hsame rfl
  | inside _ => exact hsame rfl
  | @answered d g reply _ _ =>
    exact @hlaunch (.resume d (.launch none (replyHandle reply))) rfl rfl
  | @looked d readable f key _ _ =>
    exact @hlaunch (.resume d (.lookup (lookupHandle
      (findByIdempotencyKey key sys.adapter.file readable)))) trivial rfl
  | @crashed d restart => exact @hlaunch (.crash d restart) trivial rfl

/-- **A lookup proves absence exactly when the calls of the key are concluded.** In every state of
the adapter, a lookup that finds nothing shows that no call for the key may have started a session
if and only if every call for the key was refused or its session was bound.  When every lookup of a
dispatch is made in such a state and no launch under recovery is refused for good while a session
for it may exist, no assignment is recorded as failed while a session for its key may exist. -/
theorem lookup_right_iff_concluded :
    (∀ acts, Runs.Admissible step Trusted {} acts → ∀ key,
      ((∃ readable, findByIdempotencyKey key (Runs.run step {} acts).file readable = .ok none) →
          ∀ c ∈ (Runs.run step {} acts).calls, c.key = key → ¬ c.MayHaveStarted) ↔
        ∀ c ∈ (Runs.run step {} acts).calls, c.key = key → c.Concluded) ∧
    ∀ acts act, Runs.Admissible (Service.step env) Service.Careful {} (acts ++ [act]) →
      ∀ a ∈ (Store.contents (Runs.run (Service.step env) {} acts).launch.disk).assignments,
      ∀ a' ∈ (Store.contents
        (Runs.run (Service.step env) {} (acts ++ [act])).launch.disk).assignments,
        a'.id = a.id → a.status ≠ .failed → a'.status = .failed →
        ∀ c ∈ (Runs.run (Service.step env) {} acts).adapter.calls,
          c.key = a.idempotencyKey → ¬ c.MayHaveStarted := by
  refine ⟨?_, ?_⟩
  · intro acts h key
    exact (sound_run sound_init h).ledger.absent_iff key
  · intro acts act h a ha a' ha' hid hst hst' c hc hkey hmay
    obtain ⟨hlinked, hclear⟩ := clear_run ((Runs.admissible_append (Service.step env)).1 h).1
    rw [Runs.run_append, Runs.run_cons, Runs.run_nil] at ha'
    have hclosed := service_failed hlinked hclear ha ha' hid hst hst'
    obtain ⟨n, hn⟩ := List.mem_iff_getElem?.1 hc
    have hr := hlinked.adapter.ledger.not_refused hn hmay
    rw [hclosed n c hn hkey] at hr
    cases hr

/-! ## A launch over the live adapter -/

/-- The sample launch is dispatched and its `agents_create` comes back. -/
def sampleDispatched (answer : ToolAnswer) : List ServiceAct :=
  Launch.sampleReserved.map .launch ++ [.call 0 none, .adapter (.acquire 0 true),
    .adapter (.resume 0 (.read true "u" "t1")), .adapter (.resume 0 (.write .written)),
    .adapter (.resume 0 (.answer answer "t2"))]

/-- The call is rejected, and the launch service looks the key up. -/
def sampleRefused : List ServiceAct :=
  sampleDispatched (.toolError .rejected "PROVIDER_UNAVAILABLE" "invalid params") ++
    [.adapter (.resume 0 (.write .written)), .answer 0, .lookup 0 true]

/-- The launch service records the failure. -/
def sampleRecorded : ServiceAct := .launch (.resume 0 (Launch.stored "u4"))

theorem lookup_right_iff_concluded_sample :
    (∀ c ∈ (Runs.run step {} sampleBound).calls, c.key = "key-1" → c.Concluded) ∧
    ∃ a ∈ (Store.contents
        (Runs.run (Service.step Store.plainEnv) {} sampleRefused).launch.disk).assignments,
      ∀ c ∈ (Runs.run (Service.step Store.plainEnv) {} sampleRefused).adapter.calls,
        c.key = a.idempotencyKey → ¬ c.MayHaveStarted := by
  have hbound : Runs.Admissible step Trusted {} sampleBound := by decide +kernel
  have hrun : Runs.Admissible (Service.step Store.plainEnv) Service.Careful {}
      (sampleRefused ++ [sampleRecorded]) := by decide +kernel
  have hfailed : ∃ a ∈ (Store.contents
        (Runs.run (Service.step Store.plainEnv) {} sampleRefused).launch.disk).assignments,
      ∃ a' ∈ (Store.contents (Runs.run (Service.step Store.plainEnv) {}
        (sampleRefused ++ [sampleRecorded])).launch.disk).assignments,
        a'.id = a.id ∧ a.status ≠ .failed ∧ a'.status = .failed := by decide +kernel
  obtain ⟨a, ha, a', ha', hid, hst, hst'⟩ := hfailed
  have hmain := @lookup_right_iff_concluded Store.plainEnv
  refine ⟨(hmain.1 sampleBound hbound "key-1").1 ?_, a, ha,
    hmain.2 sampleRefused sampleRecorded hrun a ha a' ha' hid hst hst'⟩
  rintro ⟨readable, hnone⟩
  cases readable <;> cases hnone

/-- The call times out after its dispatch although the session is started; a second pass finds the
key pending and records the launch as failed. -/
def sampleTimedOut : List ServiceAct :=
  sampleDispatched (.toolError .unknown "PROVIDER_UNAVAILABLE" "timed out after 30000ms") ++
    [.adapter (.start 0), .answer 0, .lookup 0 true, .launch (.start 0), .launch (.lock 0),
      .launch (.resume 0 .read), .launch (.resume 0 (.authorizer (.ok Launch.sampleGrant))),
      .lookup 0 true, .launch (.resume 0 (Launch.stored "u4")), .call 0 none,
      .adapter (.acquire 0 true), .adapter (.resume 0 (.read true "u5" "t3")), .answer 0,
      .lookup 0 true]

/-- A call with unknown outcome is not found, and its assignment is recorded as failed although
its session was started. -/
theorem session_started_recorded_failed :
    Runs.Admissible (Service.step Store.plainEnv) Service.Trusted {}
      (sampleTimedOut ++ [sampleRecorded]) ∧
    ∃ a ∈ (Store.contents
        (Runs.run (Service.step Store.plainEnv) {} sampleTimedOut).launch.disk).assignments,
    ∃ a' ∈ (Store.contents (Runs.run (Service.step Store.plainEnv) {}
        (sampleTimedOut ++ [sampleRecorded])).launch.disk).assignments,
      a'.id = a.id ∧ a.status ≠ .failed ∧ a'.status = .failed ∧
      (Runs.run (Service.step Store.plainEnv) {} sampleTimedOut).adapter.calls.any
        (fun c => c.key = a.idempotencyKey && c.started) = true ∧
      (findByIdempotencyKey a.idempotencyKey
        (Runs.run (Service.step Store.plainEnv) {} sampleTimedOut).adapter.file true).toOption =
          some none := by
  decide +kernel

end AgentOrchestrator.Superset
