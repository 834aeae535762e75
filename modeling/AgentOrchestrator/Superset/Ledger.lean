import AgentOrchestrator.Superset.Model

/-!
# The calls of the adapter and its file

A call that came back neither `not_dispatched` nor `rejected` may have started a session.  Such a
call leaves its key on file, as an intent or as a binding: whoever holds the lock next finds the
key taken and issues no second call.  That is the invariant `Ledger`, and every step of a launch
under the lock keeps it (`resumes_ledger`), whether its writes fail before or after the rename.
-/

namespace AgentOrchestrator.Superset

open Store (WriteOutcome)

/-! ## How a launch goes on -/

variable {request : LaunchRequest} {file : File} {calls : List Call}

/-- One step of a launch that has not lost its lock. -/
inductive Resumes (request : LaunchRequest) (file : File) (calls : List Call) :
    Pc → Input → Effect → Prop
  /-- An input the launch does not wait for changes nothing. -/
  | waiting {pc : Pc} {input : Input} : Resumes request file calls pc input ⟨file, calls, pc⟩
  | unread {target : Target} {input : Input} :
    Resumes request file calls (.reading target) input ⟨file, calls, .done (.error .read)⟩
  | found {target : Target} {input : Input} {record : BoundRecord}
      (hruns : (contents file).runs request.idempotencyKey = some record) :
    Resumes request file calls (.reading target) input ⟨file, calls, .done (.ok record.runId)⟩
  | blocked {target : Target} {input : Input} {pending : PendingRecord}
      (hruns : (contents file).runs request.idempotencyKey = none) :
    Resumes request file calls (.reading target) input
      ⟨file, calls, .done (.error (.unknownOutcome pending))⟩
  | planned {target : Target} {input : Input} (record : PendingRecord)
      (hruns : (contents file).runs request.idempotencyKey = none)
      (hpending : (contents file).pending request.idempotencyKey = none) :
    Resumes request file calls (.reading target) input
      ⟨file, calls, .savingIntent target
        ((contents file).setPending request.idempotencyKey record)⟩
  | saved {target : Target} {state : ProviderState} {input : Input} :
    Resumes request file calls (.savingIntent target state) input
      ⟨some state, calls ++ [issue request target], .calling target state calls.length⟩
  | notSaved {target : Target} {state : ProviderState} {input : Input} {file' : File}
      (hfile : file' = file ∨ file' = some state) :
    Resumes request file calls (.savingIntent target state) input
      ⟨file', calls, .withdrawing (state.clearPending request.idempotencyKey)⟩
  | withdrawn {state : ProviderState} {input : Input} {file' : File}
      (hfile : file' = file ∨ file' = some state) :
    Resumes request file calls (.withdrawing state) input ⟨file', calls, .done (.error .persist)⟩
  /-- The call ended in a way that leaves it open whether a session was started. -/
  | inDoubt {target : Target} {state : ProviderState} {call : ℕ} {input : Input}
      (failure : Failure) :
    Resumes request file calls (.calling target state call) input
      ⟨file, calls, .done (.error failure)⟩
  | refused {target : Target} {state : ProviderState} {call : ℕ} {outcome : ToolOutcome}
      {code message now : String} (houtcome : outcome ≠ .unknown) :
    Resumes request file calls (.calling target state call)
      (.answer (.toolError outcome code message) now)
      ⟨file, calls.modify call fun c => { c with refused := true },
        .clearing (state.clearPending request.idempotencyKey) outcome code message⟩
  | created {target : Target} {state : ProviderState} {call : ℕ} {input : Input}
      (record : BoundRecord) (hid : record.runId ≠ "") :
    Resumes request file calls (.calling target state call) input
      ⟨file, calls, .binding
        ((state.clearPending request.idempotencyKey).setRun request.idempotencyKey record)
        call record.runId⟩
  | cleared {state : ProviderState} {outcome : ToolOutcome} {code message : String}
      {input : Input} {file' : File} (failure : Failure)
      (hfile : file' = file ∨ file' = some state) :
    Resumes request file calls (.clearing state outcome code message) input
      ⟨file', calls, .done (.error failure)⟩
  | unbound {state : ProviderState} {call : ℕ} {sessionId : String} {input : Input} :
    Resumes request file calls (.binding state call sessionId) input
      ⟨file, calls, .done (.error (.bindingNotPersisted sessionId))⟩
  | bound {state : ProviderState} {call : ℕ} {sessionId : String} {input : Input} (reply : Reply)
      (hreply : reply = .ok sessionId ∨ reply = .error (.bindingNotPersisted sessionId)) :
    Resumes request file calls (.binding state call sessionId) input
      ⟨some state, calls.modify call fun c => { c with bound := true }, .done reply⟩

theorem writeState_file (state : ProviderState) (io : WriteOutcome) (file : File) :
    (writeState state io file).1 = file ∨ (writeState state io file).1 = some state := by
  cases io with
  | written => exact Or.inr rfl
  | failedBeforeRename => exact Or.inl rfl
  | failedAfterRename => exact Or.inr rfl

theorem createResult_spec {sessionId : Option String} {id : String}
    (h : createResult sessionId = some id) : id ≠ "" := by
  have hid := (Option.filter_eq_some_iff.1 h).2
  exact of_decide_eq_true hid

/-- Every step of a launch that has not lost its lock is one of these. -/
theorem resume_resumes (pc : Pc) (input : Input) :
    Resumes request file calls pc input (pc.resume request false file calls input) := by
  cases pc <;> cases input <;> try exact .waiting
  case reading.read target readable uuid now =>
    unfold Pc.resume readState
    dsimp only
    cases readable with
    | false => exact .unread
    | true =>
      rw [if_pos rfl]
      split
      · rename_i e
        cases e
      · rename_i state e
        obtain rfl := Except.ok.inj e
        split
        · rename_i existing hruns
          exact .found hruns
        · rename_i hruns
          split
          · exact .blocked hruns
          · rename_i hpending
            exact .planned _ hruns hpending
  case savingIntent.write target state io =>
    cases io with
    | written => exact .saved
    | failedBeforeRename => exact .notSaved (Or.inl rfl)
    | failedAfterRename => exact .notSaved (Or.inr rfl)
  case withdrawing.write state io => exact .withdrawn (writeState_file state io file)
  case calling.answer target state call answer now =>
    cases answer with
    | value sessionId =>
      unfold Pc.resume
      dsimp only
      split
      · exact .inDoubt _
      · rename_i id hid
        exact .created _ (createResult_spec hid)
    | toolError outcome code message =>
      cases outcome with
      | unknown => exact .inDoubt _
      | notDispatched => exact .refused (fun e => by cases e)
      | rejected => exact .refused (fun e => by cases e)
    | otherError error => exact .inDoubt _
  case clearing.write state outcome code message io =>
    exact .cleared _ (writeState_file state io file)
  case binding.write state call sessionId io =>
    cases io with
    | written => exact .bound _ (Or.inl rfl)
    | failedBeforeRename => exact .unbound
    | failedAfterRename => exact .bound _ (Or.inr rfl)

/-! ## The calls and the file -/

/-- A session was started for the call, or may have been. -/
def Call.MayHaveStarted (c : Call) : Prop := c.started = true ∨ c.refused = false

instance (c : Call) : Decidable c.MayHaveStarted :=
  inferInstanceAs (Decidable (c.started = true ∨ c.refused = false))

/-- What the file says about the calls issued so far. -/
structure Ledger (state : ProviderState) (calls : List Call) : Prop where
  truthful : ∀ (n : ℕ) (c : Call), calls[n]? = some c → c.started = true → c.refused = false
  /-- Only one call for a key may have started. -/
  single : ∀ (n m : ℕ) (c d : Call), calls[n]? = some c → calls[m]? = some d → c.key = d.key →
    c.refused = false → d.refused = false → n = m
  intents : ∀ (n : ℕ) (c : Call), calls[n]? = some c → c.refused = false → c.bound = false →
    state.pending c.key ≠ none
  bindings : ∀ (n : ℕ) (c : Call), calls[n]? = some c → c.bound = true → state.runs c.key ≠ none
  sources : ∀ key record, state.runs key = some record → record.runId ≠ "" ∧
    ∃ (n : ℕ) (c : Call), calls[n]? = some c ∧ c.key = key ∧ c.refused = false ∧ c.bound = true

/-- Every call for the key was refused. -/
def Closed (calls : List Call) (key : String) : Prop :=
  ∀ (n : ℕ) (c : Call), calls[n]? = some c → c.key = key → c.refused = true

/-- The call is for the key, and neither refused nor bound. -/
def OpenAt (calls : List Call) (key : String) (n : ℕ) : Prop :=
  ∃ c : Call, calls[n]? = some c ∧ c.key = key ∧ c.refused = false ∧ c.bound = false

variable {state : ProviderState} {key : String}

/-- A key that is not on file has no call that may have started. -/
theorem Ledger.closed (h : Ledger state calls) (hruns : state.runs key = none)
    (hpending : state.pending key = none) : Closed calls key := by
  rintro n c hc rfl
  by_contra hrefused
  rw [Bool.not_eq_true] at hrefused
  cases hbound : c.bound with
  | false => exact h.intents n c hc hrefused hbound hpending
  | true => exact h.bindings n c hc hbound hruns

/-- A key with an open call is not bound. -/
theorem Ledger.unbound (h : Ledger state calls) {n : ℕ} (hopen : OpenAt calls key n) :
    state.runs key = none := by
  obtain ⟨c, hc, hkey, hrefused, hbound⟩ := hopen
  cases hruns : state.runs key with
  | none => rfl
  | some record =>
    obtain ⟨-, m, d, hd, hdkey, hdrefused, hdbound⟩ := h.sources key record hruns
    obtain rfl := h.single n m c d hc hd (hkey.trans hdkey.symm) hrefused hdrefused
    rw [hc] at hd
    obtain rfl := Option.some.inj hd
    rw [hbound] at hdbound
    cases hdbound

/-- A call that may have started was not refused. -/
theorem Ledger.not_refused (h : Ledger state calls) {n : ℕ} {c : Call} (hc : calls[n]? = some c)
    (hmay : c.MayHaveStarted) : c.refused = false := by
  rcases hmay with hs | hr
  · exact h.truthful n c hc hs
  · exact hr

theorem Ledger.savePending (h : Ledger state calls) (record : PendingRecord) :
    Ledger (state.setPending key record) calls := by
  refine ⟨h.truthful, h.single, ?_, h.bindings, h.sources⟩
  intro n c hc hrefused hbound
  show Function.update state.pending key (some record) c.key ≠ none
  by_cases hkey : c.key = key
  · rw [hkey, Function.update_self]
    exact Option.some_ne_none record
  · rw [Function.update_of_ne hkey]
    exact h.intents n c hc hrefused hbound

/-- An intent may be dropped when every call for its key was refused. -/
theorem Ledger.clearPending (h : Ledger state calls) (hclosed : Closed calls key) :
    Ledger (state.clearPending key) calls := by
  refine ⟨h.truthful, h.single, ?_, h.bindings, h.sources⟩
  intro n c hc hrefused hbound
  show Function.update state.pending key none c.key ≠ none
  have hkey : c.key ≠ key := by
    intro e
    rw [hclosed n c hc e] at hrefused
    cases hrefused
  rw [Function.update_of_ne hkey]
  exact h.intents n c hc hrefused hbound

/-- A call of the list with one more call. -/
theorem getElem?_issued {c d : Call} {n : ℕ} (h : (calls ++ [d])[n]? = some c) :
    calls[n]? = some c ∨ (n = calls.length ∧ c = d) := by
  rw [List.getElem?_append] at h
  split_ifs at h with hn
  · exact Or.inl h
  · obtain ⟨hzero, rfl⟩ := List.getElem?_eq_some_iff.1 h
    have hlen : n - calls.length = 0 := by simpa using hzero
    refine Or.inr ⟨by omega, ?_⟩
    simp [hlen]

/-- A call of the list with one call changed. -/
theorem getElem?_changed {f : Call → Call} {n m : ℕ} {c' : Call}
    (h : (calls.modify n f)[m]? = some c') :
    ∃ c, calls[m]? = some c ∧ ((m = n ∧ c' = f c) ∨ (m ≠ n ∧ c' = c)) := by
  rw [List.getElem?_modify] at h
  obtain ⟨c, hc, rfl⟩ := Option.map_eq_some_iff.1 h
  refine ⟨c, hc, ?_⟩
  by_cases hnm : n = m
  · rw [if_pos hnm]
    exact Or.inl ⟨hnm.symm, rfl⟩
  · rw [if_neg hnm]
    exact Or.inr ⟨fun e => hnm e.symm, rfl⟩

theorem getElem?_change {f : Call → Call} {n m : ℕ} {c : Call} (h : calls[m]? = some c) :
    (calls.modify n f)[m]? = some (if n = m then f c else c) := by
  rw [List.getElem?_modify, h]
  rfl

/-- A call is issued under an intent, for a key whose calls were all refused. -/
theorem Ledger.issue (h : Ledger state calls) (hclosed : Closed calls key)
    (hpending : state.pending key ≠ none) {d : Call} (hd : d.key = key)
    (hstarted : d.started = false) (hrefused : d.refused = false) (hbound : d.bound = false) :
    Ledger state (calls ++ [d]) := by
  have hother : ∀ (n : ℕ) (c : Call), calls[n]? = some c → c.refused = false → c.key ≠ d.key := by
    intro n c hc hr e
    rw [hclosed n c hc (e.trans hd)] at hr
    cases hr
  refine ⟨?_, ?_, ?_, ?_, ?_⟩
  · intro n c hc hs
    rcases getElem?_issued hc with hc | ⟨-, rfl⟩
    · exact h.truthful n c hc hs
    · exact hrefused
  · intro n m c e hc he hkey hcr her
    rcases getElem?_issued hc with hold | ⟨rfl, rfl⟩ <;>
      rcases getElem?_issued he with hold' | ⟨rfl, rfl⟩
    · exact h.single n m c e hold hold' hkey hcr her
    · exact absurd hkey (hother n c hold hcr)
    · exact absurd hkey.symm (hother m e hold' her)
    · rfl
  · intro n c hc hr hb
    rcases getElem?_issued hc with hc | ⟨-, rfl⟩
    · exact h.intents n c hc hr hb
    · rw [hd]
      exact hpending
  · intro n c hc hb
    rcases getElem?_issued hc with hc | ⟨-, rfl⟩
    · exact h.bindings n c hc hb
    · rw [hbound] at hb
      cases hb
  · intro k record hruns
    obtain ⟨hid, n, c, hc, hrest⟩ := h.sources k record hruns
    refine ⟨hid, n, c, ?_, hrest⟩
    rw [List.getElem?_append_left (List.getElem?_eq_some_iff.1 hc).1]
    exact hc

/-- An open call is refused. -/
theorem Ledger.refuse (h : Ledger state calls) {n : ℕ} (hopen : OpenAt calls key n)
    (hstarted : ∀ c : Call, calls[n]? = some c → c.started = false) :
    Ledger state (calls.modify n fun c => { c with refused := true }) := by
  refine ⟨?_, ?_, ?_, ?_, ?_⟩
  · intro m c' hc' hs
    obtain ⟨c, hc, ⟨rfl, rfl⟩ | ⟨-, rfl⟩⟩ := getElem?_changed hc'
    · have hs' : c.started = true := hs
      rw [hstarted c hc] at hs'
      cases hs'
    · exact h.truthful m c' hc hs
  · intro m m' c' d' hc' hd' hkey hcr hdr
    obtain ⟨c, hc, ⟨-, rfl⟩ | ⟨-, rfl⟩⟩ := getElem?_changed hc'
    · cases hcr
    · obtain ⟨d, hd, ⟨-, rfl⟩ | ⟨-, rfl⟩⟩ := getElem?_changed hd'
      · cases hdr
      · exact h.single m m' c' d' hc hd hkey hcr hdr
  · intro m c' hc' hr hb
    obtain ⟨c, hc, ⟨-, rfl⟩ | ⟨-, rfl⟩⟩ := getElem?_changed hc'
    · cases hr
    · exact h.intents m c' hc hr hb
  · intro m c' hc' hb
    obtain ⟨c, hc, ⟨-, rfl⟩ | ⟨-, rfl⟩⟩ := getElem?_changed hc'
    · exact h.bindings m c hc hb
    · exact h.bindings m c' hc hb
  · intro k record hruns
    obtain ⟨hid, m, c, hc, hkey, hr, hb⟩ := h.sources k record hruns
    refine ⟨hid, m, c, ?_, hkey, hr, hb⟩
    have hne : n ≠ m := by
      rintro rfl
      obtain ⟨d, hd, -, -, hdb⟩ := hopen
      obtain rfl := Option.some.inj (hc.symm.trans hd)
      rw [hb] at hdb
      cases hdb
    rw [getElem?_change hc, if_neg hne]

/-- A session is started for a call that was not refused. -/
theorem Ledger.start (h : Ledger state calls) {n : ℕ}
    (hrefused : ∀ c : Call, calls[n]? = some c → c.refused = false) :
    Ledger state (calls.modify n fun c => { c with started := true }) := by
  have hsource : ∀ {m : ℕ} {c' : Call}, (calls.modify n fun c => { c with started := true })[m]? = some c' →
      ∃ c : Call, calls[m]? = some c ∧ c'.key = c.key ∧ c'.refused = c.refused ∧ c'.bound = c.bound := by
    intro m c' hc'
    obtain ⟨c, hc, ⟨-, rfl⟩ | ⟨-, rfl⟩⟩ := getElem?_changed hc'
    · exact ⟨c, hc, rfl, rfl, rfl⟩
    · exact ⟨c', hc, rfl, rfl, rfl⟩
  refine ⟨?_, ?_, ?_, ?_, ?_⟩
  · intro m c' hc' hs
    obtain ⟨c, hc, ⟨rfl, rfl⟩ | ⟨-, rfl⟩⟩ := getElem?_changed hc'
    · exact hrefused c hc
    · exact h.truthful m c' hc hs
  · intro m m' c' d' hc' hd' hkey hcr hdr
    obtain ⟨c, hc, hck, hcr', -⟩ := hsource hc'
    obtain ⟨d, hd, hdk, hdr', -⟩ := hsource hd'
    exact h.single m m' c d hc hd (by rw [← hck, ← hdk, hkey]) (hcr' ▸ hcr) (hdr' ▸ hdr)
  · intro m c' hc' hr hb
    obtain ⟨c, hc, hck, hcr, hcb⟩ := hsource hc'
    rw [hck]
    exact h.intents m c hc (hcr ▸ hr) (hcb ▸ hb)
  · intro m c' hc' hb
    obtain ⟨c, hc, hck, -, hcb⟩ := hsource hc'
    rw [hck]
    exact h.bindings m c hc (hcb ▸ hb)
  · intro k record hruns
    obtain ⟨hid, m, c, hc, hkey, hr, hb⟩ := h.sources k record hruns
    refine ⟨hid, m, _, getElem?_change hc, ?_⟩
    split_ifs <;> exact ⟨hkey, hr, hb⟩

/-- The session of an open call is bound. -/
theorem Ledger.bind (h : Ledger state calls) {n : ℕ} (hopen : OpenAt calls key n)
    {record : BoundRecord} (hid : record.runId ≠ "") :
    Ledger ((state.clearPending key).setRun key record)
      (calls.modify n fun c => { c with bound := true }) := by
  obtain ⟨c₀, hc₀, hkey₀, hr₀, hb₀⟩ := hopen
  have hruns : ∀ k, ((state.clearPending key).setRun key record).runs k =
      Function.update state.runs key (some record) k := fun _ => rfl
  have hset : ∀ k, k = key ∨ state.runs k ≠ none →
      ((state.clearPending key).setRun key record).runs k ≠ none := by
    intro k hk
    rw [hruns]
    by_cases e : k = key
    · rw [e, Function.update_self]
      exact Option.some_ne_none record
    · rw [Function.update_of_ne e]
      exact hk.resolve_left e
  refine ⟨?_, ?_, ?_, ?_, ?_⟩
  · intro m c' hc' hs
    obtain ⟨c, hc, ⟨-, rfl⟩ | ⟨-, rfl⟩⟩ := getElem?_changed hc'
    · exact h.truthful m c hc hs
    · exact h.truthful m c' hc hs
  · intro m m' c' d' hc' hd' hkey hcr hdr
    obtain ⟨c, hc, ⟨-, rfl⟩ | ⟨-, rfl⟩⟩ := getElem?_changed hc' <;>
      obtain ⟨d, hd, ⟨-, rfl⟩ | ⟨-, rfl⟩⟩ := getElem?_changed hd' <;>
      exact h.single m m' _ _ hc hd hkey hcr hdr
  · intro m c' hc' hr hb
    obtain ⟨c, hc, ⟨-, rfl⟩ | ⟨hne, rfl⟩⟩ := getElem?_changed hc'
    · cases hb
    · show Function.update state.pending key none c'.key ≠ none
      have hkey : c'.key ≠ key := fun e => hne (h.single m n c' c₀ hc hc₀ (e.trans hkey₀.symm) hr hr₀)
      rw [Function.update_of_ne hkey]
      exact h.intents m c' hc hr hb
  · intro m c' hc' hb
    refine hset c'.key ?_
    obtain ⟨c, hc, ⟨rfl, rfl⟩ | ⟨-, rfl⟩⟩ := getElem?_changed hc'
    · obtain rfl := Option.some.inj (hc₀.symm.trans hc)
      exact Or.inl hkey₀
    · exact Or.inr (h.bindings m c' hc hb)
  · intro k r hk
    rw [hruns] at hk
    by_cases e : k = key
    · rw [e, Function.update_self] at hk
      obtain rfl := Option.some.inj hk
      refine ⟨hid, n, _, getElem?_change hc₀, ?_⟩
      rw [if_pos rfl]
      exact ⟨hkey₀.trans e.symm, hr₀, rfl⟩
    · rw [Function.update_of_ne e] at hk
      obtain ⟨hrid, m, c, hc, hkey, hr, hb⟩ := h.sources k r hk
      refine ⟨hrid, m, _, getElem?_change hc, ?_⟩
      split_ifs <;> exact ⟨hkey, hr, by first | exact hb | rfl⟩

/-! ## One step of a launch -/

/-- The call a launch waits for. -/
def Pc.call? : Pc → Option ℕ
  | .calling _ _ call => some call
  | _ => none

/-- What a launch that holds the lock knows at each point. -/
def Pc.Expects (key : String) (state : ProviderState) (calls : List Call) : Pc → Prop
  | .queued _ | .reading _ | .done _ => True
  | .savingIntent _ mine => state.runs key = none ∧ state.pending key = none ∧
      ∃ record, mine = state.setPending key record
  | .withdrawing mine | .clearing mine _ _ _ =>
    Closed calls key ∧ mine = state.clearPending key
  | .calling _ mine call => mine = state ∧ OpenAt calls key call
  | .binding mine call sessionId => OpenAt calls key call ∧
      ∃ record, record.runId = sessionId ∧ sessionId ≠ "" ∧
        mine = (state.clearPending key).setRun key record

/-- The launch is between obtaining the lock and its last write. -/
def Pc.Locked : Pc → Prop
  | .queued _ | .done _ => False
  | _ => True

@[simp] theorem contents_some (state : ProviderState) : contents (some state) = state := rfl

theorem ProviderState.clearPending_setPending (state : ProviderState) (key : String)
    (record : PendingRecord) :
    (state.setPending key record).clearPending key = state.clearPending key := by
  unfold ProviderState.clearPending ProviderState.setPending
  rw [Function.update_idem]

theorem ProviderState.setPending_pending (state : ProviderState) (key : String)
    (record : PendingRecord) : (state.setPending key record).pending key = some record :=
  Function.update_self ..

/-- A write that ends either way ends in one of two states. -/
theorem contents_of_written {file' : File} {P : ProviderState → Prop}
    (hfile : file' = file ∨ file' = some state) (hold : P (contents file)) (hnew : P state) :
    P (contents file') := by
  rcases hfile with rfl | rfl
  · exact hold
  · exact hnew

/-- Every step of a launch keeps the ledger, and the launch knows where it stands. -/
theorem resumes_ledger {pc : Pc} {input : Input} {e : Effect}
    (h : Ledger (contents file) calls)
    (hpc : pc.Expects request.idempotencyKey (contents file) calls)
    (htrusted : ∀ outcome code message now, input = .answer (.toolError outcome code message) now →
      outcome ≠ .unknown → ∀ call ∈ pc.call?, ∀ c : Call, calls[call]? = some c →
        c.started = false)
    (hmove : Resumes request file calls pc input e) :
    Ledger (contents e.file) e.calls ∧
      e.pc.Expects request.idempotencyKey (contents e.file) e.calls := by
  cases hmove with
  | waiting => exact ⟨h, hpc⟩
  | unread => exact ⟨h, trivial⟩
  | found _ => exact ⟨h, trivial⟩
  | blocked _ => exact ⟨h, trivial⟩
  | planned record hruns hpending => exact ⟨h, hruns, hpending, record, rfl⟩
  | saved =>
    obtain ⟨hruns, hpending, record, rfl⟩ := hpc
    have hclosed := h.closed hruns hpending
    have hset : ((contents file).setPending request.idempotencyKey record).pending
        request.idempotencyKey ≠ none := by
      rw [ProviderState.setPending_pending]
      exact Option.some_ne_none record
    refine ⟨(h.savePending record).issue hclosed hset rfl rfl rfl rfl, rfl, ?_⟩
    exact ⟨_, List.getElem?_concat_length, rfl, rfl, rfl⟩
  | notSaved hfile =>
    obtain ⟨hruns, hpending, record, rfl⟩ := hpc
    have hclosed := h.closed hruns hpending
    refine ⟨contents_of_written (P := (Ledger · calls)) hfile h (h.savePending record), hclosed, ?_⟩
    rcases hfile with rfl | rfl
    · exact ProviderState.clearPending_setPending ..
    · rfl
  | withdrawn hfile =>
    obtain ⟨hclosed, rfl⟩ := hpc
    exact ⟨contents_of_written (P := (Ledger · calls)) hfile h (h.clearPending hclosed), trivial⟩
  | inDoubt failure => exact ⟨h, trivial⟩
  | @refused _ _ call outcome code message now houtcome =>
    obtain ⟨rfl, hopen⟩ := hpc
    refine ⟨h.refuse hopen (htrusted _ _ _ _ rfl houtcome call rfl), ?_, rfl⟩
    intro n c' hc' hkey
    obtain ⟨c, hc, ⟨-, rfl⟩ | ⟨hne, rfl⟩⟩ := getElem?_changed hc'
    · rfl
    · by_contra hr
      obtain ⟨d, hd, hdkey, hdr, -⟩ := hopen
      exact hne (h.single n call c' d hc hd (hkey.trans hdkey.symm) (Bool.not_eq_true _ ▸ hr) hdr)
  | created record hid =>
    obtain ⟨rfl, hopen⟩ := hpc
    exact ⟨h, hopen, record, rfl, hid, rfl⟩
  | cleared failure hfile =>
    obtain ⟨hclosed, rfl⟩ := hpc
    exact ⟨contents_of_written (P := (Ledger · calls)) hfile h (h.clearPending hclosed), trivial⟩
  | unbound => exact ⟨h, trivial⟩
  | bound reply hreply =>
    obtain ⟨hopen, record, rfl, hid, rfl⟩ := hpc
    exact ⟨h.bind hopen hid, trivial⟩

/-- No step of a launch takes a binding away. -/
theorem resumes_runs {pc : Pc} {input : Input} {e : Effect} (h : Ledger (contents file) calls)
    (hpc : pc.Expects request.idempotencyKey (contents file) calls)
    (hmove : Resumes request file calls pc input e) {k : String} {record : BoundRecord}
    (hk : (contents file).runs k = some record) : (contents e.file).runs k = some record := by
  cases hmove with
  | saved =>
    obtain ⟨-, -, intent, rfl⟩ := hpc
    exact hk
  | notSaved hfile =>
    obtain ⟨-, -, intent, rfl⟩ := hpc
    exact contents_of_written (P := fun s => s.runs k = some record) hfile hk hk
  | withdrawn hfile =>
    obtain ⟨-, rfl⟩ := hpc
    exact contents_of_written (P := fun s => s.runs k = some record) hfile hk hk
  | cleared failure hfile =>
    obtain ⟨-, rfl⟩ := hpc
    exact contents_of_written (P := fun s => s.runs k = some record) hfile hk hk
  | bound reply hreply =>
    obtain ⟨hopen, new, rfl, hid, rfl⟩ := hpc
    show Function.update (contents file).runs request.idempotencyKey (some new) k = some record
    have hne : k ≠ request.idempotencyKey := by
      rintro rfl
      rw [h.unbound hopen] at hk
      cases hk
    rw [Function.update_of_ne hne]
    exact hk
  | _ => exact hk

/-- A launch that goes on under the lock held it before. -/
theorem resumes_locked {pc : Pc} {input : Input} {e : Effect}
    (hmove : Resumes request file calls pc input e) (h : e.pc.Locked) : pc.Locked := by
  cases hmove with
  | waiting => exact h
  | found _ => exact h.elim
  | unread => exact h.elim
  | blocked _ => exact h.elim
  | withdrawn _ => exact h.elim
  | inDoubt _ => exact h.elim
  | cleared _ _ => exact h.elim
  | unbound => exact h.elim
  | bound _ _ => exact h.elim
  | _ => trivial

/-- A launch that does not hold the lock neither writes nor calls. -/
theorem resumes_idle {pc : Pc} {input : Input} {e : Effect}
    (hmove : Resumes request file calls pc input e) (h : ¬ pc.Locked) :
    e.file = file ∧ e.calls = calls := by
  cases hmove with
  | waiting => exact ⟨rfl, rfl⟩
  | _ => exact absurd trivial h

end AgentOrchestrator.Superset
