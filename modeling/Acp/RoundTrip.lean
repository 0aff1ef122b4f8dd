import Acp.MessagesOk
import Acp.Reference
import Mathlib.Tactic.FinCases
/-!
# RoundTrip — what a payload is when it has crossed the wire

Every payload comes back as its normal form (`sessionUpdateMsg_roundTrip`, `otherPayload_roundTrip`,
`initialize_roundTrip`), and what was decoded once stays what it is (`decoded_stable`).
-/
namespace Acp

open Wire

/-! ## The payloads -/

/-- The params and results of every method and note but initialize, session/update and elicitation/create. -/
inductive OtherPayload : (α : Type) → [CodecOf α] → [Normal α] → Prop where
  | nothing                 : OtherPayload Unit
  | authenticateParams      : OtherPayload AuthenticateParams
  | newSessionParams        : OtherPayload NewSessionParams
  | newSessionResult        : OtherPayload NewSessionResult
  | loadSessionParams       : OtherPayload LoadSessionParams
  | resumeSessionResult     : OtherPayload ResumeSessionResult
  | sessionRef              : OtherPayload SessionRef
  | listSessionsParams      : OtherPayload ListSessionsParams
  | listSessionsResult      : OtherPayload ListSessionsResult
  | promptParams            : OtherPayload PromptParams
  | promptResult            : OtherPayload PromptResult
  | setModeParams           : OtherPayload SetModeParams
  | setConfigOptionParams   : OtherPayload SetConfigOptionParams
  | setConfigOptionResult   : OtherPayload SetConfigOptionResult
  | requestPermissionParams : OtherPayload RequestPermissionParams
  | requestPermissionResult : OtherPayload RequestPermissionResult
  | readTextFileParams      : OtherPayload ReadTextFileParams
  | readTextFileResult      : OtherPayload ReadTextFileResult
  | writeTextFileParams     : OtherPayload WriteTextFileParams
  | createTerminalParams    : OtherPayload CreateTerminalParams
  | createTerminalResult    : OtherPayload CreateTerminalResult
  | terminalRef             : OtherPayload TerminalRef
  | terminalOutputResult    : OtherPayload TerminalOutputResult
  | terminalExitStatus      : OtherPayload TerminalExitStatus
  | cancelRequestParams     : OtherPayload CancelRequestParams

/-- The payloads whose decoded values are in normal form: all but the initialize result. -/
inductive StablePayload : (α : Type) → [CodecOf α] → [Normal α] → Prop where
  | sessionUpdateMsg : StablePayload SessionUpdateMsg
  | initializeParams (b : Build) : StablePayload (InitializeParams b)
  | elicitation : StablePayload Json
  | other {α : Type} [CodecOf α] [Normal α] (h : OtherPayload α) : StablePayload α

theorem OtherPayload.conforms {α : Type} [CodecOf α] [Normal α] (h : OtherPayload α) : Conforms α := by
  cases h <;> infer_instance

theorem StablePayload.conforms {α : Type} [CodecOf α] [Normal α] (h : StablePayload α) : Conforms α := by
  cases h with
  | other h => exact h.conforms
  | _ => infer_instance

/-- **The payloads are those of the protocol**: what a method other than initialize and elicitation/create sends either
way, and what a note other than session/update sends, is one of them. -/
theorem otherPayload_of_mem (b : Build) :
    (∀ M ∈ methods b, M.name ≠ "initialize" → M.name ≠ "elicitation/create" →
      (∃ n : Normal M.Params, @OtherPayload M.Params M.paramsCodec n) ∧
        ∃ n : Normal M.Result, @OtherPayload M.Result M.resultCodec n) ∧
    ∀ N ∈ notes, N.name ≠ "session/update" → ∃ n : Normal N.Params, @OtherPayload N.Params N.paramsCodec n := by
  constructor
  · intro M hM h1 h2
    fin_cases hM
    · exact absurd rfl h1
    · exact ⟨⟨_, .authenticateParams⟩, ⟨_, .nothing⟩⟩
    · exact ⟨⟨_, .nothing⟩, ⟨_, .nothing⟩⟩
    · exact ⟨⟨_, .newSessionParams⟩, ⟨_, .newSessionResult⟩⟩
    · exact ⟨⟨_, .loadSessionParams⟩, ⟨_, .resumeSessionResult⟩⟩
    · exact ⟨⟨_, .loadSessionParams⟩, ⟨_, .resumeSessionResult⟩⟩
    · exact ⟨⟨_, .loadSessionParams⟩, ⟨_, .newSessionResult⟩⟩
    · exact ⟨⟨_, .sessionRef⟩, ⟨_, .nothing⟩⟩
    · exact ⟨⟨_, .sessionRef⟩, ⟨_, .nothing⟩⟩
    · exact ⟨⟨_, .listSessionsParams⟩, ⟨_, .listSessionsResult⟩⟩
    · exact ⟨⟨_, .promptParams⟩, ⟨_, .promptResult⟩⟩
    · exact ⟨⟨_, .setModeParams⟩, ⟨_, .nothing⟩⟩
    · exact ⟨⟨_, .setConfigOptionParams⟩, ⟨_, .setConfigOptionResult⟩⟩
    · exact ⟨⟨_, .requestPermissionParams⟩, ⟨_, .requestPermissionResult⟩⟩
    · exact ⟨⟨_, .readTextFileParams⟩, ⟨_, .readTextFileResult⟩⟩
    · exact ⟨⟨_, .writeTextFileParams⟩, ⟨_, .nothing⟩⟩
    · exact ⟨⟨_, .createTerminalParams⟩, ⟨_, .createTerminalResult⟩⟩
    · exact ⟨⟨_, .terminalRef⟩, ⟨_, .terminalOutputResult⟩⟩
    · exact ⟨⟨_, .terminalRef⟩, ⟨_, .terminalExitStatus⟩⟩
    · exact ⟨⟨_, .terminalRef⟩, ⟨_, .nothing⟩⟩
    · exact ⟨⟨_, .terminalRef⟩, ⟨_, .nothing⟩⟩
    · exact absurd rfl h2
  · intro N hN h
    fin_cases hN
    · exact ⟨_, .sessionRef⟩
    · exact absurd rfl h
    · exact ⟨_, .cancelRequestParams⟩

/-! ## There and back -/

/-- **A session update comes back as its normal form**, and so two of them that are sent alike have one normal form. -/
theorem sessionUpdateMsg_roundTrip (L : Jsonrpc) (hL : L.Lawful) (m : SessionUpdateMsg) (hm : metaOk m) :
    L.fromJson SessionUpdateMsg (L.toJson m) = .ok (norm m) ∧
      ∀ m' : SessionUpdateMsg, metaOk m' → L.toJson m = L.toJson m' → norm m = norm m' := by
  have hr : Retract (L.codec SessionUpdateMsg) metaOk norm := Conforms.retract hL
  exact ⟨hr.loop m hm, fun m' hm' he => hr.norm_eq_of_encode_eq hm hm' he⟩

theorem sessionUpdateMsg_roundTrip_toolCallUpdate :
    reference.fromJson SessionUpdateMsg (reference.toJson
      { sessionId := ⟨"s"⟩,
        update := .toolCallUpdate ⟨{ toolCallId := ⟨"t"⟩, content := some [], rawInput := some .null }⟩ :
          SessionUpdateMsg }) =
      .ok { sessionId := ⟨"s"⟩, update := .toolCallUpdate ⟨{ toolCallId := ⟨"t"⟩, content := some [] }⟩ } :=
  (sessionUpdateMsg_roundTrip reference reference_lawful
    { sessionId := ⟨"s"⟩,
      update := .toolCallUpdate ⟨{ toolCallId := ⟨"t"⟩, content := some [], rawInput := some .null }⟩ }
    (by simp [metaOk, Json.object])).1

/-- **Every other payload comes back as its normal form.** -/
theorem otherPayload_roundTrip (L : Jsonrpc) (hL : L.Lawful) {α : Type} [CodecOf α] [Normal α] (h : OtherPayload α)
    (v : α) (hv : metaOk v) : L.fromJson α (L.toJson v) = .ok (norm v) := by
  have := h.conforms
  exact (Conforms.retract hL).loop v hv

theorem otherPayload_roundTrip_newSessionParams :
    reference.fromJson NewSessionParams (reference.toJson
      { cwd := "/", mcpServers := [.stdio { name := "a", command := "c", args := ["x", "x"] },
          .http { name := "a", url := "u" }, .sse { name := "a", url := "u" }] : NewSessionParams }) =
      .ok { cwd := "/", mcpServers := [.stdio { name := "a", command := "c", args := ["x", "x"] },
          .http { name := "a", url := "u" }, .sse { name := "a", url := "u" }] } :=
  otherPayload_roundTrip reference reference_lawful .newSessionParams
    { cwd := "/", mcpServers := [.stdio { name := "a", command := "c", args := ["x", "x"] },
        .http { name := "a", url := "u" }, .sse { name := "a", url := "u" }] } rfl

/-- Nothing of `args` and `env` of a non-terminal method is sent. -/
theorem initializeResult_encode_norm {L : Jsonrpc} (hL : L.Lawful) {b : Build} (r : InitializeResult b)
    (hr : metaOk r) : L.toJson (norm r) = L.toJson r := by
  by_cases hnil : r.authMethods = []
  · have hr : norm r = r := by
      show { r with authMethods := r.authMethods.map norm } = r
      rw [hnil, List.map_nil, ← hnil]
    rw [hr]
  · have hnn : (norm r).authMethods ≠ [] := fun h => hnil (List.map_eq_nil_iff.1 h)
    have henc : (L.codec (List AuthMethod)).encode (norm r).authMethods =
        (L.codec (List AuthMethod)).encode r.authMethods := by
      refine (hL.list_encode _ _).trans (Eq.trans ?_ (hL.list_encode _ _).symm)
      show Json.arr ((r.authMethods.map norm).map _) = _
      rw [List.map_map]
      exact congrArg Json.arr (List.map_congr_left (fun m _ => authMethod_encode_norm L m))
    have hw : ∀ w : InitializeResult b, w.authMethods ≠ [] →
        L.write (L.defaulted "authMethods"
            ⟨InitializeResult.authMethods, fun v a => { v with authMethods := a }⟩ []) w =
          some ((L.codec (List AuthMethod)).encode w.authMethods) := fun w hw =>
      (hL.write_defaulted _ _ _ _ w).resolve_right (fun h => hw h.1)
    show (L.record _ _).encode (norm r) = (L.record _ _).encode r
    rw [hL.record_encode, hL.record_encode]
    refine congrArg Json.obj (writeAll_congr (v := norm r) (w := r) ?_ ∅)
    exact .cons ⟨rfl, hL.write_defaulted_congr _ _ _ _ _ _ rfl⟩ <|
      .cons ⟨rfl, hL.write_defaulted_congr _ _ _ _ _ _ rfl⟩ <| .cons ⟨rfl, hL.write_optional_congr rfl⟩ <|
      .cons ⟨rfl, (hw _ hnn).trans ((congrArg some henc).trans (hw _ hnil).symm)⟩ <|
      .cons ⟨rfl, hL.write_meta_congr rfl hr.2.2⟩ .nil

/-- **The initialize payloads come back**: the params as they are, the result as its normal form, which is sent
alike. -/
theorem initialize_roundTrip (L : Jsonrpc) (hL : L.Lawful) (b : Build) :
    (∀ p : InitializeParams b, metaOk p → L.fromJson (InitializeParams b) (L.toJson p) = .ok p) ∧
      ∀ r : InitializeResult b, metaOk r →
        L.fromJson (InitializeResult b) (L.toJson r) = .ok (norm r) ∧ L.toJson (norm r) = L.toJson r :=
  ⟨fun p hp => (Conforms.retract hL).loop p hp,
    fun r hr => ⟨initializeResult_loop hL r hr, initializeResult_encode_norm hL r hr⟩⟩

theorem initialize_roundTrip_agentMethod :
    reference.fromJson (InitializeParams {}) (reference.toJson
      { protocolVersion := 1,
        clientCapabilities := { authTerminal := true, elicitUrl := true } : InitializeParams {} }) =
        .ok { protocolVersion := 1, clientCapabilities := { authTerminal := true, elicitUrl := true } } ∧
      reference.fromJson (InitializeResult {}) (reference.toJson
        { protocolVersion := 1, authMethods := [{ id := "m", name := "M", args := ["x"] }] : InitializeResult {} }) =
          .ok { protocolVersion := 1, authMethods := [{ id := "m", name := "M" }] } :=
  ⟨(initialize_roundTrip reference reference_lawful {}).1
      { protocolVersion := 1, clientCapabilities := { authTerminal := true, elicitUrl := true } } ⟨⟨rfl, rfl⟩, rfl⟩,
    ((initialize_roundTrip reference reference_lawful {}).2
      { protocolVersion := 1, authMethods := [{ id := "m", name := "M", args := ["x"] }] }
      (by simp [metaOk, Json.object])).1⟩

/-- **What was decoded stays what it is**: sent on, it is accepted and read as the same value. -/
theorem decoded_stable (L : Jsonrpc) (hL : L.Lawful) {α : Type} [CodecOf α] [Normal α] (h : StablePayload α) (j : Json)
    (v : α) (hj : L.fromJson α j = .ok v) : L.fromJson α (L.toJson v) = .ok v := by
  have := h.conforms
  exact (Conforms.retract hL).stable hj

/-- A boolean option that carries options, an ill-typed description and a member nobody declared. -/
theorem decoded_stable_configOption :
    reference.fromJson SetConfigOptionResult (reference.toJson
      { configOptions := [{ id := "x", name := "X", type := "boolean", currentBool := true }] :
        SetConfigOptionResult }) =
      .ok { configOptions := [{ id := "x", name := "X", type := "boolean", currentBool := true }] } :=
  decoded_stable reference reference_lawful (.other .setConfigOptionResult)
    (.obj ((∅ : Json.Members).insert "configOptions" (.arr [.obj (((((((∅ : Json.Members).insert "id" (.str "x")).insert
      "name" (.str "X")).insert "type" (.str "boolean")).insert "currentValue" (.bool true)).insert
      "description" (.int 3)).insert "options" .null |>.insert "unknown" .null)])))
    { configOptions := [{ id := "x", name := "X", type := "boolean", currentBool := true }] } rfl

theorem initializeResult_norm_iff {b : Build} (r : InitializeResult b) :
    norm r = r ↔ ∀ m ∈ r.authMethods, m.type ≠ "terminal" → m.args = [] ∧ m.env = ∅ := by
  have hlist : norm r = r ↔ r.authMethods.map norm = r.authMethods.map id := by
    rw [List.map_id]
    refine ⟨fun h => congrArg InitializeResult.authMethods h, fun h => ?_⟩
    show { r with authMethods := r.authMethods.map norm } = r
    rw [h]
  rw [hlist, List.map_inj_left]
  exact forall₂_congr (fun m _ => authMethod_norm_iff m)

/-- **An initialize result that is relayed keeps all but what a non-terminal method has of `args` and `env`**, and so
it keeps everything exactly when no such method has any. -/
theorem initializeResult_relayed (L : Jsonrpc) (hL : L.Lawful) (b : Build) (j : Json) (r : InitializeResult b)
    (hj : L.fromJson (InitializeResult b) j = .ok r) :
    L.fromJson (InitializeResult b) (L.toJson r) = .ok (norm r) ∧
      (L.fromJson (InitializeResult b) (L.toJson r) = .ok r ↔
        ∀ m ∈ r.authMethods, m.type ≠ "terminal" → m.args = [] ∧ m.env = ∅) := by
  have hback : L.fromJson (InitializeResult b) (L.toJson r) = .ok (norm r) :=
    initializeResult_loop hL r (initializeResult_metaOk hL hj)
  refine ⟨hback, ?_⟩
  rw [hback, Except.ok.injEq]
  exact initializeResult_norm_iff r

/-- A result with one method, of the type and with the arguments given. -/
def oneMethod (type arg : String) : Json :=
  .obj ((∅ : Json.Members).insert "authMethods" (.arr [.obj ((((∅ : Json.Members).insert "id" (.str "m")).insert
    "name" (.str "M")).insert "type" (.str type) |>.insert "args" (.arr [.str arg]))]))

theorem initializeResult_relayed_terminal :
    reference.fromJson (InitializeResult {}) (reference.toJson
      { authMethods := [{ id := "m", name := "M", type := "terminal", args := ["x"] }] : InitializeResult {} }) =
      .ok { authMethods := [{ id := "m", name := "M", type := "terminal", args := ["x"] }] } :=
  (initializeResult_relayed reference reference_lawful {} (oneMethod "terminal" "x")
    { authMethods := [{ id := "m", name := "M", type := "terminal", args := ["x"] }] } rfl).2.2 (by simp)

/-- The arguments of an agent's method are read, and not sent on. -/
theorem agent_args_dropped :
    ¬ ∀ (j : Json) (r : InitializeResult {}), reference.fromJson (InitializeResult {}) j = .ok r →
      reference.fromJson (InitializeResult {}) (reference.toJson r) = .ok r := by
  intro h
  have hb := h (oneMethod "agent" "x") { authMethods := [{ id := "m", name := "M", args := ["x"] }] } rfl
  have hd : reference.fromJson (InitializeResult {}) (reference.toJson
      { authMethods := [{ id := "m", name := "M", args := ["x"] }] : InitializeResult {} }) =
      .ok { authMethods := [{ id := "m", name := "M" }] } := rfl
  rw [hd] at hb
  cases hb

end Acp
