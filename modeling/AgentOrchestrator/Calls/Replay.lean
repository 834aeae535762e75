import AgentOrchestrator.Calls.AuditTrail
import AgentOrchestrator.Library.Blocks

/-!
# Replays of recorded runs

A run that succeeds is a list of calls, each with its node, its tool, the input it was resolved to
and its output.  A record run issues a record for each of its calls, and a replay run takes the
output of each call from the record at its position.
-/

namespace AgentOrchestrator.Calls.Replay

section Records

variable {platform : Platform}

/-! ## Hashes -/

theorem hexDigit_injective : ∀ m n : Fin 16, hexDigit m = hexDigit n → m = n := by decide

/-- A digest is written two digits a byte. -/
theorem toHex_eq : toHex = List.flatMap fun b => [hexDigit (b.val / 16), hexDigit (b.val % 16)] := by
  funext bytes
  simp only [toHex, List.bind_eq_flatMap, List.pure_def, List.flatMap_assoc, List.flatMap_cons,
    List.flatMap_nil, List.append_nil]

theorem toHex_injective : Function.Injective toHex := by
  rw [toHex_eq]
  refine Blocks.flatMap_injective (fun x y h => ?_) (fun _ _ => rfl) fun _ => List.cons_ne_nil _ _
  obtain ⟨hhigh, hrest⟩ := List.cons.inj h
  obtain ⟨hlow, -⟩ := List.cons.inj hrest
  have hhigh := hexDigit_injective ⟨x / 16, by omega⟩ ⟨y / 16, by omega⟩ hhigh
  have hlow := hexDigit_injective ⟨x % 16, by omega⟩ ⟨y % 16, by omega⟩ hlow
  rw [Fin.mk.injEq] at hhigh hlow
  exact Fin.ext (show x.val = y.val by omega)

/-- With an injective hash, values of one hash have one copy. -/
theorem cloneJson_of_hashJson (hsha : Function.Injective platform.sha256) {a b : Json}
    (h : hashJson platform a = hashJson platform b) : cloneJson a = cloneJson b :=
  cloneJson_eq_of_canonicalJson (hsha (toHex_injective (String.ofList_injective h)))

/-! ## Cores -/

@[simp] theorem clone_clone (record : ReplayRecord) : record.clone.clone = record.clone := by
  simp [ReplayRecord.clone, cloneJson_cloneJson]

@[simp] theorem canonical_clone (record : ReplayRecord) :
    canonical platform record.clone.core = canonical platform record.core := by
  simp [canonical, canonicalJson, ReplayRecord.core, ReplayRecord.clone, cloneJson, cloneFields,
    cloneJson_cloneJson]

theorem authenticated_clone (record : ReplayRecord) (signature key : String) :
    authenticated platform record.clone.core signature key =
      authenticated platform record.core signature key := by
  unfold authenticated authenticate
  rw [canonical_clone]

/-- Cores of one text are equal, up to the keys of their outputs. -/
theorem core_of_canonical {a b : ReplayRecord}
    (h : canonical platform a.core = canonical platform b.core) :
    a.clone.core = b.clone.core := by
  have hfields : ∀ {l m : List (String × Json)}, cloneJson (.obj l) = cloneJson (.obj m) →
      ∀ key, (l.lookup key).map cloneJson = (m.lookup key).map cloneJson := by
    intro l m hlm key
    rw [← lookup_cloneFields, ← lookup_cloneFields, Json.obj.inj hlm]
  have hlookup := hfields (cloneJson_eq_of_canonicalJson h)
  have hsequence := Json.num.inj (Option.some.inj (hlookup "sequence"))
  have hid := Json.str.inj (Option.some.inj (hlookup "nodeId"))
  have htool := Json.str.inj (Option.some.inj (hlookup "tool"))
  have hinput := Json.str.inj (Option.some.inj (hlookup "inputHash"))
  have houtput := Option.some.inj (hlookup "output")
  have hhash := Json.str.inj (Option.some.inj (hlookup "toolHash"))
  simp [ReplayRecord.core, ReplayRecord.clone, hsequence, hid, htool, hinput, houtput, hhash]

theorem core_inj {a b : ReplayRecord} (h : a.core = b.core) :
    a.sequence = b.sequence ∧ a.nodeId = b.nodeId ∧ a.tool = b.tool ∧
      a.inputHash = b.inputHash ∧ a.output = b.output ∧ a.toolHash = b.toolHash := by
  simpa [ReplayRecord.core] using h

/-- What `verifyReplay` checks. -/
theorem verifyReplay_eq_ok {record : ReplayRecord} {sequence : ℕ} {node : CallNode}
    {input tool output : Json} {key : String} :
    verifyReplay platform record sequence node input tool key = .ok output ↔
      authenticated platform record.core record.recordHash key = true ∧
        record.sequence = sequence ∧ record.nodeId = node.id ∧ record.tool = node.tool ∧
        record.inputHash = hashJson platform input ∧ record.toolHash = hashJson platform tool ∧
        cloneJson record.output = output := by
  unfold verifyReplay
  split_ifs with h
  · refine ⟨nofun, ?_⟩
    rintro ⟨hauthenticated, hsequence, hid, htool, hinput, hhash, -⟩
    simp [hauthenticated, hsequence, hid, htool, hinput, hhash] at h
  · simp only [Bool.not_eq_true', not_or, Bool.not_eq_false, not_not] at h
    obtain ⟨hauthenticated, hsequence, hid, htool, hinput, hhash⟩ := h
    simp [hauthenticated, hsequence, hid, htool, hinput, hhash]

theorem makeReplay_clone (sequence : ℕ) (node : CallNode) (input output tool : Json)
    (key : String) : (makeReplay platform sequence node input output tool key).clone =
      makeReplay platform sequence node input output tool key := by
  simp [makeReplay, ReplayRecord.clone, cloneJson_cloneJson]

/-- A record that was issued for a call is accepted for it. -/
theorem verifyReplay_makeReplay (sequence : ℕ) (node : CallNode) (input output tool : Json)
    (key : String) :
    verifyReplay platform (makeReplay platform sequence node input output tool key) sequence node
      input tool key = .ok (cloneJson output) := by
  rw [verifyReplay_eq_ok]
  refine ⟨?_, rfl, rfl, rfl, rfl, rfl, cloneJson_cloneJson output⟩
  exact decide_eq_true rfl

end Records

/-! ## Calls -/

/-- A call that gave an output. -/
structure Call where
  node : CallNode
  tool : Json
  input : Json
  output : Json

/-- The input of a node after some outputs. -/
def callInput (outputs : Outputs) (node : CallNode) : Option Json :=
  (resolveReferences outputs node.arguments).map cloneJson

/-- The nodes are called in turn, after some outputs, which become the final ones. -/
inductive Performs (tools : List (String × Json)) :
    List CallNode → Outputs → List Call → Outputs → Prop where
  | nil {outputs} : Performs tools [] outputs [] outputs
  | cons {node rest outputs tool input output calls final}
      (htool : tools.lookup node.tool = some tool) (hinput : callInput outputs node = some input)
      (hrest : Performs tools rest (outputs ++ [(node.id, output)]) calls final) :
      Performs tools (node :: rest) outputs (⟨node, tool, input, output⟩ :: calls) final

namespace Performs

variable {tools : List (String × Json)} {rest : List CallNode} {outputs final : Outputs}
  {calls : List Call}

theorem outputs_eq (h : Performs tools rest outputs calls final) :
    final = outputs ++ calls.map fun call => (call.node.id, call.output) := by
  induction h with
  | nil => simp
  | cons htool hinput hrest ih => rw [ih, List.append_assoc, List.map_cons]; rfl

theorem nodes_eq (h : Performs tools rest outputs calls final) : calls.map Call.node = rest := by
  induction h with
  | nil => rfl
  | cons htool hinput hrest ih => rw [List.map_cons, ih]

/-- The outputs determine the calls. -/
theorem unique {calls' : List Call} (h : Performs tools rest outputs calls final)
    (h' : Performs tools rest outputs calls' final) : calls = calls' := by
  induction h generalizing calls' with
  | nil =>
    cases h'
    rfl
  | @cons node rest outputs tool input output calls final htool hinput hrest ih =>
    cases h' with
    | @cons _ _ _ tool' input' output' calls' _ htool' hinput' hrest' =>
      have houtput := hrest.outputs_eq.symm.trans hrest'.outputs_eq
      rw [List.append_assoc, List.append_assoc, List.append_cancel_left_eq] at houtput
      obtain rfl : output = output' := congrArg Prod.snd (List.cons.inj houtput).1
      rw [ih hrest', Option.some.inj (htool.symm.trans htool'),
        Option.some.inj (hinput.symm.trans hinput')]

/-- Inputs are copies. -/
theorem input_clone (h : Performs tools rest outputs calls final) :
    ∀ call ∈ calls, cloneJson call.input = call.input := by
  induction h with
  | nil => nofun
  | cons htool hinput hrest ih =>
    refine List.forall_mem_cons.2 ⟨?_, ih⟩
    obtain ⟨value, -, rfl⟩ := Option.map_eq_some_iff.1 hinput
    exact cloneJson_cloneJson value

/-- Tools out of a copied registry are copies. -/
theorem tool_clone (h : Performs (cloneFields tools) rest outputs calls final) :
    ∀ call ∈ calls, cloneJson call.tool = call.tool := by
  induction h with
  | nil => nofun
  | cons htool hinput hrest ih =>
    refine List.forall_mem_cons.2 ⟨?_, ih⟩
    rw [lookup_cloneFields] at htool
    obtain ⟨value, -, rfl⟩ := Option.map_eq_some_iff.1 htool
    exact cloneJson_cloneJson value

end Performs

section Runs

variable {platform : Platform} {sandbox : Sandbox} {policy : ExecutionPolicy}
  {tools : List (String × Json)} {records : List ReplayRecord}

/-! ## One call -/

/-- A call that succeeded. -/
theorem executeNode_ok {sequence : ℕ} {node : CallNode} {progress next : Progress}
    (h : executeNode platform sandbox policy tools records sequence node progress = .ok next) :
    ∃ tool input output audit, tools.lookup node.tool = some tool ∧
      callInput progress.outputs node = some input ∧
      (if policy.mode = .replay then
        replayCall platform policy records[sequence]? sequence node input tool progress.audit
      else liveCall platform sandbox policy sequence node input tool progress.audit) =
        .ok (output, audit) ∧
      next = progress.add platform policy sequence node input tool output audit := by
  unfold executeNode at h
  split at h
  · next tool value htool hvalue =>
    dsimp only at h
    split at h
    · cases h
    · next output audit hcall =>
      refine ⟨tool, cloneJson value, output, audit, htool, ?_, hcall, (Except.ok.inj h).symm⟩
      rw [callInput, hvalue]
      rfl
  · cases h

/-- The output of a live call passes its checks and is copied. -/
theorem liveCall_ok {sequence : ℕ} {node : CallNode} {input tool : Json}
    {audit : List AuditEntry} {result : Json × List AuditEntry}
    (h : liveCall platform sandbox policy sequence node input tool audit = .ok result) :
    ∃ output, checkOutput platform policy node tool output = .ok () ∧
      result.1 = cloneJson output := by
  obtain ⟨⟨output, audit'⟩, houtput, h⟩ := bind_eq_ok h
  obtain ⟨audit'', -, h⟩ := bind_eq_ok h
  obtain ⟨audit₁, -, houtput⟩ := bind_eq_ok houtput
  obtain ⟨output', -, houtput⟩ := bind_eq_ok houtput
  obtain ⟨u, hcheck, houtput⟩ := bind_eq_ok houtput
  obtain ⟨rfl, -⟩ := Prod.mk.inj (Except.ok.inj houtput)
  exact ⟨output', mapError_eq_ok hcheck, (congrArg Prod.fst (Except.ok.inj h)).symm⟩

/-- The output of a replayed call is that of its record. -/
theorem replayCall_ok {record : Option ReplayRecord} {sequence : ℕ} {node : CallNode}
    {input tool : Json} {audit : List AuditEntry} {result : Json × List AuditEntry}
    (h : replayCall platform policy record sequence node input tool audit = .ok result) :
    ∃ r, record = some r ∧
      verifyReplay platform r sequence node input tool policy.key = .ok result.1 := by
  obtain ⟨⟨output, audit'⟩, houtput, h⟩ := bind_eq_ok h
  obtain ⟨audit'', -, h⟩ := bind_eq_ok h
  obtain ⟨output', hverify, houtput⟩ := bind_eq_ok houtput
  obtain ⟨u, -, houtput⟩ := bind_eq_ok houtput
  obtain ⟨rfl, -⟩ := Prod.mk.inj (Except.ok.inj houtput)
  obtain rfl : output' = result.1 := congrArg Prod.fst (Except.ok.inj h)
  have hverify := mapError_eq_ok hverify
  cases record with
  | none => cases hverify
  | some r => exact ⟨r, rfl, hverify⟩

theorem checkOutput_eq_ok {node : CallNode} {tool output : Json} :
    checkOutput platform policy node tool output = .ok () ↔
      validateOutput platform.isUrl node (readTool tool) output = true ∧
        ¬ policy.maxOutputBytes < byteLength (canonical platform output) := by
  unfold checkOutput assertOutputSize
  split_ifs <;> simp [bind, Except.bind, *]

/-- A copy of an output that passes its checks passes them. -/
theorem checkOutput_cloneJson {node : CallNode} (hid : node.id ≠ "") {tool output : Json}
    (h : checkOutput platform policy node tool output = .ok ()) :
    checkOutput platform policy node tool (cloneJson output) = .ok () := by
  rw [checkOutput_eq_ok] at h ⊢
  refine ⟨validateOutput_cloneJson hid h.1, ?_⟩
  rw [canonical, canonicalJson_cloneJson]
  exact h.2

/-- The callback throws at no entry of a replayed call. -/
def AcceptsReplays (policy : ExecutionPolicy) : Prop :=
  ∀ callback ∈ policy.audit, ∀ entry : AuditEntry, entry.decision = .replayed →
    callback entry = none

theorem appendAudit_of_replayed (h : AcceptsReplays policy) (audit : List AuditEntry)
    {entry : AuditEntry} (hentry : entry.decision = .replayed) :
    appendAudit policy audit entry = .ok (audit ++ [complete audit entry]) := by
  have hthrown : thrown policy audit entry = none := by
    unfold thrown
    cases haudit : policy.audit with
    | none => rfl
    | some callback => exact h callback haudit (complete audit entry) hentry
  unfold appendAudit
  rw [hthrown]

/-- A replayed call succeeds when its record is accepted and its output passes the checks. -/
theorem replayCall_of_record (haudit : AcceptsReplays policy) {record : ReplayRecord}
    {sequence : ℕ} {node : CallNode} {input tool output : Json} (audit : List AuditEntry)
    (hverify : verifyReplay platform record sequence node input tool policy.key = .ok output)
    (hcheck : checkOutput platform policy node tool output = .ok ()) :
    ∃ audit', replayCall platform policy (some record) sequence node input tool audit =
      .ok (output, audit') := by
  have happend := appendAudit_of_replayed haudit audit
    (show (callEntry node tool input .replayed output).decision = .replayed from rfl)
  refine ⟨audit ++ [complete audit (callEntry node tool input .replayed output)], ?_⟩
  unfold replayCall replayOutput verifyRecord
  dsimp only
  rw [hverify]
  dsimp only [Except.mapError, bind, Except.bind]
  rw [hcheck]
  dsimp only [pure, Except.pure]
  rw [happend]

/-! ## Record runs -/

/-- The records of the calls from a position on. -/
def issue (platform : Platform) (key : String) : ℕ → List Call → List ReplayRecord
  | _, [] => []
  | sequence, call :: calls =>
    makeReplay platform sequence call.node call.input call.output call.tool key ::
      issue platform key (sequence + 1) calls

theorem issue_length (key : String) (sequence : ℕ) (calls : List Call) :
    (issue platform key sequence calls).length = calls.length := by
  induction calls generalizing sequence with
  | nil => rfl
  | cons call calls ih => rw [issue, List.length_cons, ih, List.length_cons]

theorem issue_getElem? (key : String) (sequence i : ℕ) (calls : List Call) :
    (issue platform key sequence calls)[i]? = calls[i]?.map fun call =>
      makeReplay platform (sequence + i) call.node call.input call.output call.tool key := by
  induction calls generalizing sequence i with
  | nil => rfl
  | cons call calls ih =>
    cases i with
    | zero => rfl
    | succ i =>
      rw [issue, List.getElem?_cons_succ, List.getElem?_cons_succ, ih, Nat.add_right_comm]
      rfl

/-- What a record run has checked of a call; its output is a copy. -/
structure Checked (platform : Platform) (policy : ExecutionPolicy) (call : Call) : Prop where
  copied : cloneJson call.output = call.output
  checked : checkOutput platform policy call.node call.tool call.output = .ok ()

/-- A record run issues the records of its calls. -/
theorem performs_of_record (hmode : policy.mode = .record) {rest : List CallNode}
    (hids : ∀ node ∈ rest, node.id ≠ "") {sequence : ℕ} {progress final : Progress}
    (h : executeNodes platform sandbox policy tools records rest sequence progress = .ok final) :
    ∃ calls, Performs tools rest progress.outputs calls final.outputs ∧
      (∀ call ∈ calls, Checked platform policy call) ∧
      final.generated = progress.generated ++ issue platform policy.key sequence calls := by
  induction rest generalizing sequence progress with
  | nil =>
    obtain rfl := Except.ok.inj h
    exact ⟨[], .nil, nofun, (List.append_nil _).symm⟩
  | cons node rest ih =>
    rw [List.forall_mem_cons] at hids
    obtain ⟨next, hnode, hrest⟩ := bind_eq_ok h
    obtain ⟨tool, input, result, audit, htool, hinput, hcall, rfl⟩ := executeNode_ok hnode
    rw [if_neg (by rw [hmode]; nofun)] at hcall
    obtain ⟨output, hcheck, hresult⟩ := liveCall_ok hcall
    obtain rfl : result = cloneJson output := hresult
    obtain ⟨calls, hperforms, hchecked, hgenerated⟩ := ih hids.2 hrest
    have hclone : cloneJson (cloneJson output) = cloneJson output := cloneJson_cloneJson output
    refine ⟨⟨node, tool, input, cloneJson output⟩ :: calls, .cons htool hinput ?_,
      List.forall_mem_cons.2 ⟨⟨hclone, checkOutput_cloneJson hids.1 hcheck⟩, hchecked⟩, ?_⟩
    · rw [Progress.add, hclone] at hperforms
      exact hperforms
    · rw [hgenerated, Progress.add]
      dsimp only
      rw [if_pos hmode, hclone, List.append_assoc]
      rfl

/-! ## Replay runs -/

/-- The records from a position on are accepted for the calls, whose outputs they hold. -/
def Verified (platform : Platform) (key : String) (records : List ReplayRecord) :
    ℕ → List Call → Prop
  | _, [] => True
  | sequence, call :: calls =>
    (∃ record, records[sequence]? = some record ∧
      verifyReplay platform record sequence call.node call.input call.tool key = .ok call.output) ∧
    Verified platform key records (sequence + 1) calls

theorem Verified.record {key : String} {sequence i : ℕ} {calls : List Call} {call : Call}
    (h : Verified platform key records sequence calls) (hcall : calls[i]? = some call) :
    ∃ record, records[sequence + i]? = some record ∧
      verifyReplay platform record (sequence + i) call.node call.input call.tool key =
        .ok call.output := by
  induction calls generalizing sequence i with
  | nil => cases hcall
  | cons first calls ih =>
    cases i with
    | zero =>
      obtain rfl := Option.some.inj hcall
      exact h.1
    | succ i =>
      rw [Nat.add_succ, ← Nat.succ_add]
      exact ih h.2 hcall

/-- A replay run takes the outputs of its calls from the records. -/
theorem performs_of_replay (hmode : policy.mode = .replay) {rest : List CallNode} {sequence : ℕ}
    {progress final : Progress}
    (h : executeNodes platform sandbox policy tools records rest sequence progress = .ok final) :
    ∃ calls, Performs tools rest progress.outputs calls final.outputs ∧
      Verified platform policy.key records sequence calls := by
  induction rest generalizing sequence progress with
  | nil =>
    obtain rfl := Except.ok.inj h
    exact ⟨[], .nil, trivial⟩
  | cons node rest ih =>
    obtain ⟨next, hnode, hrest⟩ := bind_eq_ok h
    obtain ⟨tool, input, output, audit, htool, hinput, hcall, rfl⟩ := executeNode_ok hnode
    rw [if_pos hmode] at hcall
    obtain ⟨record, hrecord, hverify⟩ := replayCall_ok hcall
    obtain ⟨calls, hperforms, hverified⟩ := ih hrest
    have hcopied : cloneJson output = output := by
      have houtput : cloneJson record.output = output := (verifyReplay_eq_ok.1 hverify).2.2.2.2.2.2
      rw [← houtput, cloneJson_cloneJson]
    rw [Progress.add, hcopied] at hperforms
    exact ⟨⟨node, tool, input, output⟩ :: calls, .cons htool hinput hperforms,
      ⟨record, hrecord, hverify⟩, hverified⟩

/-- Calls whose records are accepted are replayed. -/
theorem executeNodes_of_verified (hmode : policy.mode = .replay) (haudit : AcceptsReplays policy)
    {rest : List CallNode} {outputs final : Outputs} {calls : List Call}
    (h : Performs tools rest outputs calls final) {sequence : ℕ}
    (hverified : Verified platform policy.key records sequence calls)
    (hchecked : ∀ call ∈ calls, Checked platform policy call) {progress : Progress}
    (houtputs : progress.outputs = outputs) :
    ∃ last, executeNodes platform sandbox policy tools records rest sequence progress = .ok last ∧
      last.outputs = final := by
  induction h generalizing sequence progress with
  | nil => exact ⟨progress, rfl, houtputs⟩
  | @cons node rest outputs tool input output calls final htool hinput hrest ih =>
    rw [List.forall_mem_cons] at hchecked
    obtain ⟨⟨record, hrecord, hverify⟩, hverified⟩ := hverified
    obtain ⟨audit, hcall⟩ :=
      replayCall_of_record haudit progress.audit hverify hchecked.1.checked
    have hnode : executeNode platform sandbox policy tools records sequence node progress =
        .ok (progress.add platform policy sequence node input tool output audit) := by
      obtain ⟨value, hvalue, rfl⟩ := Option.map_eq_some_iff.1 hinput
      unfold executeNode
      rw [htool, houtputs, hvalue, hrecord]
      dsimp only
      rw [if_pos hmode, hcall]
    have hnext : (progress.add platform policy sequence node input tool output audit).outputs =
        outputs ++ [(node.id, output)] := by
      rw [Progress.add, houtputs]
      exact congrArg (fun o => outputs ++ [(node.id, o)]) hchecked.1.copied
    obtain ⟨last, hlast, hfinal⟩ := ih hverified hchecked.2 hnext
    refine ⟨last, ?_, hfinal⟩
    rw [executeNodes, hnode]
    exact hlast

/-- The records that were issued for calls are accepted for them. -/
theorem verified_issue {key : String} {calls : List Call}
    (hcopied : ∀ call ∈ calls, cloneJson call.output = call.output) {sequence : ℕ}
    (hrecords : records.drop sequence = issue platform key sequence calls) :
    Verified platform key records sequence calls := by
  induction calls generalizing sequence with
  | nil => trivial
  | cons call calls ih =>
    rw [List.forall_mem_cons] at hcopied
    have hrecord : records[sequence]? = some
        (makeReplay platform sequence call.node call.input call.output call.tool key) := by
      rw [← List.head?_drop, hrecords]
      rfl
    have hrest : records.drop (sequence + 1) = issue platform key (sequence + 1) calls := by
      rw [← List.tail_drop, hrecords]
      rfl
    refine ⟨⟨_, hrecord, ?_⟩, ih hcopied.2 hrest⟩
    rw [verifyReplay_makeReplay, hcopied.1]

theorem issue_clone (key : String) (sequence : ℕ) (calls : List Call) :
    (issue platform key sequence calls).map ReplayRecord.clone =
      issue platform key sequence calls := by
  induction calls generalizing sequence with
  | nil => rfl
  | cons call calls ih => rw [issue, List.map_cons, makeReplay_clone, ih]

/-! ## Before the first call -/

/-- The policy in replay mode. -/
def ExecutionPolicy.replaying (policy : ExecutionPolicy) : ExecutionPolicy :=
  { policy with replayMode := some .replay }

@[simp] theorem replaying_mode (policy : ExecutionPolicy) : policy.replaying.mode = .replay := rfl

theorem assertPolicy_replaying (hmode : policy.mode = .record) :
    assertPolicy policy.replaying = assertPolicy policy := by
  have hkey : policy.replaying.key = policy.key := rfl
  unfold assertPolicy
  rw [replaying_mode, hmode, hkey]
  simp [ExecutionPolicy.replaying]

theorem checkCapabilities_replaying (nodes : List CallNode) :
    checkCapabilities policy.replaying tools nodes = checkCapabilities policy tools nodes := by
  induction nodes with
  | nil => rfl
  | cons node rest ih =>
    rw [checkCapabilities, checkCapabilities, ih]
    rfl

theorem prepare_replaying {graph : Json} {ordered : List CallNode}
    (hmode : policy.mode = .record)
    (h : prepare platform graph tools policy records = .ok ordered)
    {replayRecords : List ReplayRecord} (hlength : replayRecords.length = ordered.length) :
    prepare platform graph tools policy.replaying replayRecords = .ok ordered := by
  have hnodes : policy.replaying.maxNodes = policy.maxNodes := rfl
  unfold prepare at h ⊢
  rw [assertPolicy_replaying hmode, hnodes]
  obtain ⟨u, hpolicy, h⟩ := bind_eq_ok h
  rw [hpolicy, ok_bind]
  dsimp only at h ⊢
  split_ifs at h ⊢ with hmany hvalid hreplay
  · exact absurd rfl hreplay.1
  · cases horder : topologicalOrder platform.depth (graphNodes (cloneJson graph)) with
    | error stop =>
      rw [horder] at h
      cases stop <;> cases h
    | ok ordered' =>
      rw [horder] at h
      dsimp only at h ⊢
      rw [if_neg (by rw [hmode]; simp)] at h
      obtain ⟨v, hcapabilities, h⟩ := bind_eq_ok h
      obtain rfl : ordered' = ordered := Except.ok.inj h
      rw [if_neg (by simp [hlength]), checkCapabilities_replaying, hcapabilities]
      rfl

/-- The nodes of a run have ids. -/
theorem id_ne_of_prepare {graph : Json} {ordered : List CallNode}
    (h : prepare platform graph tools policy records = .ok ordered) :
    ∀ node ∈ ordered, node.id ≠ "" := by
  obtain ⟨hvalid, hordered⟩ := prepare_ok platform policy tools h
  obtain ⟨hperm, -⟩ := order_of_ok (checked_of_valid hvalid).ids hordered
  intro node hnode
  obtain ⟨candidate, -, hcandidate⟩ := List.mem_filterMap.1 (hperm.mem_iff.1 hnode)
  exact id_ne_of_node? hcandidate

/-- A record run that succeeded. -/
theorem performs_of_recorded {graph : Json} {result : ExecutionResult}
    (hmode : policy.mode = .record)
    (h : executeCallGraph platform sandbox graph tools policy records = .ok result) :
    ∃ ordered calls, prepare platform graph tools policy records = .ok ordered ∧
      Performs (cloneFields tools) ordered [] calls result.outputs ∧
      (∀ call ∈ calls, Checked platform policy call) ∧
      result.replay = issue platform policy.key 0 calls := by
  obtain ⟨ordered, hprepare, h⟩ := bind_eq_ok h
  obtain ⟨progress, hrun, h⟩ := bind_eq_ok h
  obtain ⟨calls, hperforms, hchecked, hgenerated⟩ :=
    performs_of_record hmode (id_ne_of_prepare hprepare) hrun
  obtain rfl := Except.ok.inj h
  exact ⟨ordered, calls, hprepare, hperforms, hchecked, hgenerated⟩

/-- **Replaying the records of a run reproduces its outputs.** -/
theorem replay_of_recorded {graph : Json} {result : ExecutionResult} (sandbox' : Sandbox)
    (hmode : policy.mode = .record) (haudit : AcceptsReplays policy)
    (h : executeCallGraph platform sandbox graph tools policy records = .ok result) :
    ∃ replayed, executeCallGraph platform sandbox' graph tools policy.replaying result.replay =
      .ok replayed ∧ replayed.outputs = result.outputs := by
  obtain ⟨ordered, calls, hprepare, hperforms, hchecked, hreplay⟩ := performs_of_recorded hmode h
  have hlength : result.replay.length = ordered.length := by
    rw [hreplay, issue_length, ← hperforms.nodes_eq, List.length_map]
  have hverified : Verified platform policy.replaying.key (result.replay.map ReplayRecord.clone) 0
      calls := by
    rw [hreplay, issue_clone]
    exact verified_issue (fun call hcall => (hchecked call hcall).copied) rfl
  have hreplayed : ∀ call ∈ calls, Checked platform policy.replaying call := fun call hcall =>
    ⟨(hchecked call hcall).copied, (hchecked call hcall).checked⟩
  obtain ⟨last, hlast, hfinal⟩ := @executeNodes_of_verified platform sandbox' policy.replaying _ _
    (replaying_mode policy) haudit _ _ _ _ hperforms 0 hverified hreplayed {} rfl
  refine ⟨{ outputs := last.outputs, audit := last.audit, replay := last.generated }, ?_, hfinal⟩
  unfold executeCallGraph
  rw [prepare_replaying hmode hprepare hlength, ok_bind]
  dsimp only
  rw [hlast]
  rfl

/-- A replay run that succeeded. -/
theorem performs_of_replayed {graph : Json} {result : ExecutionResult}
    (hmode : policy.mode = .replay)
    (h : executeCallGraph platform sandbox graph tools policy records = .ok result) :
    ∃ ordered calls, prepare platform graph tools policy records = .ok ordered ∧
      Performs (cloneFields tools) ordered [] calls result.outputs ∧
      Verified platform policy.key (records.map ReplayRecord.clone) 0 calls := by
  obtain ⟨ordered, hprepare, h⟩ := bind_eq_ok h
  obtain ⟨progress, hrun, h⟩ := bind_eq_ok h
  obtain ⟨calls, hperforms, hverified⟩ := performs_of_replay hmode hrun
  obtain rfl := Except.ok.inj h
  exact ⟨ordered, calls, hprepare, hperforms, hverified⟩

/-- The number of records is that of the nodes. -/
theorem length_of_prepare {graph : Json} {ordered : List CallNode} (hmode : policy.mode = .replay)
    (h : prepare platform graph tools policy records = .ok ordered) :
    records.length = ordered.length := by
  unfold prepare at h
  obtain ⟨u, -, h⟩ := bind_eq_ok h
  dsimp only at h
  split_ifs at h with hmany hvalid hnone
  split at h
  · cases h
  · cases h
  · split_ifs at h with hlength
    obtain ⟨v, -, h⟩ := bind_eq_ok h
    obtain rfl := Except.ok.inj h
    rw [hmode] at hlength
    simpa using hlength

end Runs

/-! ## Issued records -/

/-- The record of the call at a position of a run that was recorded under the key and succeeded. -/
structure Issued (platform : Platform) (key : String) (sequence : ℕ) (call : Call)
    (record : ReplayRecord) : Prop where
  run : ∃ sandbox graph tools policy replayRecords ordered result calls,
    policy.mode = .record ∧ policy.key = key ∧
    prepare platform graph tools policy replayRecords = .ok ordered ∧
    executeCallGraph platform sandbox graph tools policy replayRecords = .ok result ∧
    Performs (cloneFields tools) ordered [] calls result.outputs ∧
    calls[sequence]? = some call ∧ result.replay[sequence]? = some record

/-- No record was forged: the text of one that is authenticated under the key is that of a record
that was issued under it. -/
def Unforged (platform : Platform) (key : String) (records : List ReplayRecord) : Prop :=
  ∀ record ∈ records, authenticated platform record.core record.recordHash key = true →
    ∃ sequence call issued, Issued platform key sequence call issued ∧
      canonical platform issued.core = canonical platform record.core

/-- Two calls of the same node and tool with the same input. -/
structure Call.Agrees (a b : Call) : Prop where
  id : a.node.id = b.node.id
  toolName : a.node.tool = b.node.tool
  tool : a.tool = b.tool
  input : a.input = b.input

section Issued

variable {platform : Platform} {key : String}

/-- An issued record is the one the run makes of its call. -/
theorem Issued.eq {sequence : ℕ} {call : Call} {record : ReplayRecord}
    (h : Issued platform key sequence call record) :
    cloneJson call.input = call.input ∧ cloneJson call.tool = call.tool ∧
      record = makeReplay platform sequence call.node call.input call.output call.tool key := by
  obtain ⟨sandbox, graph, tools, policy, replayRecords, ordered, result, calls, hmode, rfl, hprepare,
    hrun, hperforms, hcall, hrecord⟩ := h.run
  obtain ⟨ordered', calls', hprepare', hperforms', -, hreplay⟩ := performs_of_recorded hmode hrun
  obtain rfl : ordered = ordered' := Except.ok.inj (hprepare.symm.trans hprepare')
  obtain rfl := hperforms.unique hperforms'
  have hmem := List.mem_of_getElem? hcall
  refine ⟨hperforms.input_clone call hmem, hperforms.tool_clone call hmem, ?_⟩
  rw [hreplay, issue_getElem?, hcall, Nat.zero_add] at hrecord
  exact (Option.some.inj hrecord).symm

/-- A record that is accepted for a call and was not forged was issued for it. -/
theorem issued_of_verified (hsha : Function.Injective platform.sha256) {record : ReplayRecord}
    (hunforged : Unforged platform key [record]) {sequence : ℕ} {call : Call}
    (hinput : cloneJson call.input = call.input) (htool : cloneJson call.tool = call.tool)
    (hverify : verifyReplay platform record.clone sequence call.node call.input call.tool key =
      .ok call.output) :
    ∃ call' issued, Issued platform key sequence call' issued ∧ call'.Agrees call ∧
      record.clone.core = issued.core := by
  obtain ⟨hauthenticated, hsequence, hid, hname, hinputHash, htoolHash, -⟩ :=
    verifyReplay_eq_ok.1 hverify
  rw [authenticated_clone] at hauthenticated
  obtain ⟨position, call', issued, hissued, hcanonical⟩ :=
    hunforged record List.mem_cons_self hauthenticated
  obtain ⟨hinput', htool', rfl⟩ := hissued.eq
  have hcore := core_of_canonical hcanonical
  rw [makeReplay_clone] at hcore
  obtain ⟨hposition, hid', hname', hinputHash', -, htoolHash'⟩ := core_inj hcore
  obtain rfl : position = sequence := Rat.natCast_inj.1 (hposition.trans hsequence)
  have hsameInput := cloneJson_of_hashJson hsha (hinputHash'.trans hinputHash)
  have hsameTool := cloneJson_of_hashJson hsha (htoolHash'.trans htoolHash)
  rw [hinput', hinput] at hsameInput
  rw [htool', htool] at hsameTool
  exact ⟨call', _, hissued, ⟨hid'.trans hid, hname'.trans hname, hsameTool, hsameInput⟩, hcore.symm⟩

/-- The records a run has issued are not forged. -/
theorem unforged_of_recorded {sandbox : Sandbox} {graph : Json} {tools : List (String × Json)}
    {policy : ExecutionPolicy} {replayRecords : List ReplayRecord} {result : ExecutionResult}
    (hmode : policy.mode = .record)
    (h : executeCallGraph platform sandbox graph tools policy replayRecords = .ok result) :
    Unforged platform policy.key result.replay := by
  intro record hrecord _
  obtain ⟨ordered, calls, hprepare, hperforms, -, hreplay⟩ := performs_of_recorded hmode h
  obtain ⟨i, hi⟩ := List.mem_iff_getElem?.1 hrecord
  have hcall := hi
  rw [hreplay, issue_getElem?] at hcall
  obtain ⟨call, hcall, -⟩ := Option.map_eq_some_iff.1 hcall
  exact ⟨i, call, record, ⟨sandbox, graph, tools, policy, replayRecords, ordered, result, calls, hmode,
    rfl, hprepare, h, hperforms, hcall, hi⟩, rfl⟩

end Issued

/-! ## Record, then replay -/

/-- **Record, then replay.**  The records of a run reproduce its outputs, unless the callback throws
at an entry of a replayed call; and every record a replay has used is the one that was issued under
the key for its position and for a call of its node and tool with its input, when hashes are
injective and no record was forged. -/
theorem record_then_replay (platform : Platform) (graph : Json) (tools : List (String × Json))
    (policy : ExecutionPolicy) :
    (∀ sandbox sandbox' replayRecords result, policy.mode = .record → AcceptsReplays policy →
      executeCallGraph platform sandbox graph tools policy replayRecords = .ok result →
      ∃ replayed, executeCallGraph platform sandbox' graph tools policy.replaying result.replay =
        .ok replayed ∧ replayed.outputs = result.outputs) ∧
    (∀ sandbox records result, policy.mode = .replay → Function.Injective platform.sha256 →
      Unforged platform policy.key records →
      executeCallGraph platform sandbox graph tools policy records = .ok result →
      ∃ ordered calls, prepare platform graph tools policy records = .ok ordered ∧
        Performs (cloneFields tools) ordered [] calls result.outputs ∧
        calls.length = records.length ∧
        ∀ i call record, calls[i]? = some call → records[i]? = some record →
          call.output = cloneJson record.output ∧
          ∃ call' issued, Issued platform policy.key i call' issued ∧ call'.Agrees call ∧
            record.clone.core = issued.core) := by
  refine ⟨fun sandbox sandbox' _ result hmode haudit h => replay_of_recorded sandbox' hmode haudit h,
    fun sandbox records result hmode hsha hunforged h => ?_⟩
  obtain ⟨ordered, calls, hprepare, hperforms, hverified⟩ := performs_of_replayed hmode h
  refine ⟨ordered, calls, hprepare, hperforms, ?_, fun i call record hcall hrecord => ?_⟩
  · rw [length_of_prepare hmode hprepare, ← hperforms.nodes_eq, List.length_map]
  · obtain ⟨copy, hcopy, hverify⟩ := hverified.record hcall
    rw [Nat.zero_add] at hcopy hverify
    obtain rfl : record.clone = copy := by
      rw [List.getElem?_map, hrecord] at hcopy
      exact Option.some.inj hcopy
    have hmem := List.mem_of_getElem? hcall
    have houtput := (verifyReplay_eq_ok.1 hverify).2.2.2.2.2.2
    refine ⟨?_, issued_of_verified hsha (fun r hr => ?_) (hperforms.input_clone call hmem)
      (hperforms.tool_clone call hmem) hverify⟩
    · rw [← houtput]
      exact cloneJson_cloneJson record.output
    · rw [List.mem_singleton.1 hr]
      exact hunforged record (List.mem_of_getElem? hrecord)

/-- Three bytes for each character. -/
def charBytes (text : List Char) : List (Fin 256) :=
  text.flatMap fun c => [Fin.ofNat 256 c.toNat, Fin.ofNat 256 (c.toNat / 256),
    Fin.ofNat 256 (c.toNat / 65536)]

theorem toNat_lt (c : Char) : c.toNat < 0x110000 := by
  have hrange : c.toNat < 0xD800 ∨ (0xDFFF < c.toNat ∧ c.toNat < 0x110000) := c.valid
  omega

theorem charBytes_injective : Function.Injective charBytes := by
  refine @Blocks.flatMap_injective Char (Fin 256) (fun c => [Fin.ofNat 256 c.toNat,
    Fin.ofNat 256 (c.toNat / 256), Fin.ofNat 256 (c.toNat / 65536)])
    (fun x y h => ?_) (fun _ _ => rfl) fun _ => List.cons_ne_nil _ _
  obtain ⟨hlow, hrest⟩ := List.cons.inj h
  obtain ⟨hmiddle, hrest⟩ := List.cons.inj hrest
  obtain ⟨hhigh, -⟩ := List.cons.inj hrest
  have hx := toNat_lt x
  have hy := toNat_lt y
  simp only [Fin.ofNat, Fin.mk.injEq] at hlow hmiddle hhigh
  exact Char.toNat_inj.1 (by omega : x.toNat = y.toNat)

/-- A platform whose hashes keep the text. -/
def bytesPlatform : Platform :=
  { plainPlatform with
    sha256 := charBytes
    hmacSha256 := fun key text => charBytes (key.toList ++ text) }

/-- A record run whose callback throws at some decision. -/
def recordingPolicy (refused : AuditDecision) : ExecutionPolicy where
  allowedCapabilities := some ["files"]
  timeoutMs := 1000
  maxOutputBytes := 1024
  replayMode := some .record
  replayKey := some "0123456789abcdef0123456789abcdef"
  audit := some fun entry => if entry.decision = refused then some "disk full" else none

theorem record_then_replay_sample : ∃ result replayed,
    executeCallGraph bytesPlatform objectSandbox readerGraph readerTools
        (recordingPolicy .failed) [] = .ok result ∧
      executeCallGraph bytesPlatform objectSandbox readerGraph readerTools
        (recordingPolicy .failed).replaying result.replay = .ok replayed ∧
      replayed.outputs = result.outputs ∧
      ∀ record ∈ result.replay, ∃ i call issued,
        Issued bytesPlatform (recordingPolicy .failed).key i call issued ∧
          record.clone.core = issued.core := by
  have haudit : AcceptsReplays (recordingPolicy .failed) := by
    intro callback hcallback entry hentry
    obtain rfl := Option.some.inj hcallback
    simp [hentry]
  have hok : (executeCallGraph bytesPlatform objectSandbox readerGraph readerTools
      (recordingPolicy .failed) []).isOk = true := by
    decide +kernel
  cases hrun : executeCallGraph bytesPlatform objectSandbox readerGraph readerTools
      (recordingPolicy .failed) [] with
  | error error =>
    rw [hrun] at hok
    cases hok
  | ok result =>
    obtain ⟨replayed, hreplayed, houtputs⟩ :=
      (record_then_replay bytesPlatform readerGraph readerTools (recordingPolicy .failed)).1
        objectSandbox objectSandbox [] result rfl haudit hrun
    have hunforged : Unforged bytesPlatform (recordingPolicy .failed).key result.replay :=
      unforged_of_recorded rfl hrun
    obtain ⟨ordered, calls, -, -, hlength, hissued⟩ :=
      (record_then_replay bytesPlatform readerGraph readerTools
        (recordingPolicy .failed).replaying).2 objectSandbox result.replay replayed rfl
        charBytes_injective hunforged hreplayed
    refine ⟨result, replayed, rfl, hreplayed, houtputs, fun record hrecord => ?_⟩
    obtain ⟨i, hi, hget⟩ := List.mem_iff_getElem.1 hrecord
    have hcall : calls[i]? = some calls[i] := List.getElem?_eq_getElem (hlength ▸ hi)
    obtain ⟨-, call, issued, hcallIssued, -, hcore⟩ :=
      hissued i _ record hcall (hget ▸ List.getElem?_eq_getElem hi)
    exact ⟨i, call, issued, hcallIssued, hcore⟩

/-- Whether the records of a run are replayed, if it succeeds. -/
def replays (platform : Platform) (sandbox : Sandbox) (graph : Json) (tools : List (String × Json))
    (policy : ExecutionPolicy) : Option Bool :=
  (executeCallGraph platform sandbox graph tools policy []).toOption.map fun result =>
    (executeCallGraph platform sandbox graph tools policy.replaying result.replay).toOption.isSome

theorem replays_of_replaying {platform : Platform} {sandbox : Sandbox} {graph : Json}
    {tools : List (String × Json)} {policy : ExecutionPolicy}
    (h : ∀ result, executeCallGraph platform sandbox graph tools policy [] = .ok result →
      ∃ replayed, executeCallGraph platform sandbox graph tools policy.replaying result.replay =
        .ok replayed) :
    replays platform sandbox graph tools policy ≠ some false := by
  intro hreplays
  obtain ⟨result, hresult, hreplay⟩ := Option.map_eq_some_iff.1 hreplays
  cases hrun : executeCallGraph platform sandbox graph tools policy [] with
  | error error =>
    rw [hrun] at hresult
    cases hresult
  | ok recorded =>
    rw [hrun] at hresult
    obtain rfl : recorded = result := Option.some.inj hresult
    obtain ⟨replayed, hreplayed⟩ := h recorded hrun
    rw [hreplayed] at hreplay
    cases hreplay

theorem refused_replay : replays plainPlatform objectSandbox readerGraph readerTools
    (recordingPolicy .replayed) = some false := by
  decide +kernel

theorem replayed_entry_refused : ¬ ∀ (platform : Platform) (sandbox : Sandbox) (graph : Json)
    (tools : List (String × Json)) (policy : ExecutionPolicy) (result : ExecutionResult),
    policy.mode = .record →
    executeCallGraph platform sandbox graph tools policy [] = .ok result →
    ∃ replayed, executeCallGraph platform sandbox graph tools policy.replaying result.replay =
      .ok replayed ∧ replayed.outputs = result.outputs := by
  intro h
  refine replays_of_replaying (fun result hresult => ?_) refused_replay
  obtain ⟨replayed, hreplayed, -⟩ := h plainPlatform objectSandbox readerGraph readerTools
    (recordingPolicy .replayed) result rfl hresult
  exact ⟨replayed, hreplayed⟩

end AgentOrchestrator.Calls.Replay
