import Acp.CapsOk
import Mathlib.Tactic.FinCases
/-!
# MessagesOk — session updates, params and results conform

The fourteen arms of a session update skip the key `sessionUpdate`; the flattened ones because their tool call does.
Every params and result record conforms, but for the initialize result: a decoded authentication method need not be in
normal form, so it only gives back its normal form (`initializeResult_loop`).
-/
namespace Acp

open Wire

/-! ## Session updates -/

instance : RecordOk MessageChunk where
  fits hL := .required hL <| .optional hL .nil

instance : RecordOk SuPlan where
  fits hL := .required hL <| .meta_ hL .nil

instance : Skips ToolCall "sessionUpdate" := .record
instance : Skips ToolCallUpdate "sessionUpdate" := .record

theorem suToolCall_decode {L : Jsonrpc} (j : Json) :
    (L.codec SuToolCall).decode j = SuToolCall.mk <$> (L.codec ToolCall).decode j := rfl

theorem suToolCallUpdate_decode {L : Jsonrpc} (j : Json) :
    (L.codec SuToolCallUpdate).decode j = SuToolCallUpdate.mk <$> (L.codec ToolCallUpdate).decode j := rfl

instance : Conforms SuToolCall where
  retract hL := (Conforms.retract hL).wrap SuToolCall.mk SuToolCall.toolCall suToolCall_decode (fun _ => rfl)
    (fun _ => rfl)
  proto hL := .suToolCall (Conforms.proto hL)

instance : Skips SuToolCall "sessionUpdate" where
  object hL v := Skips.object hL v.toolCall
  skips hL o x := by rw [suToolCall_decode, suToolCall_decode, Skips.skips hL]

instance : Conforms SuToolCallUpdate where
  retract hL := (Conforms.retract hL).wrap SuToolCallUpdate.mk SuToolCallUpdate.update suToolCallUpdate_decode
    (fun _ => rfl) (fun _ => rfl)
  proto hL := .suToolCallUpdate (Conforms.proto hL)

instance : Skips SuToolCallUpdate "sessionUpdate" where
  object hL v := Skips.object hL v.update
  skips hL o x := by rw [suToolCallUpdate_decode, suToolCallUpdate_decode, Skips.skips hL]

instance : RecordOk SuAvailableCommands where
  fits hL := .required hL <| .meta_ hL .nil

instance : RecordOk SuCurrentMode where
  fits hL := .required hL <| .meta_ hL .nil

instance : RecordOk SuConfigOptions where
  fits hL := .required hL <| .meta_ hL .nil

instance : RecordOk SuSessionInfo where
  fits hL := .optional hL <| .optional hL <| .meta_ hL .nil

instance : RecordOk SuUsage where
  fits hL := .required hL <| .required hL <| .optional hL .nil

instance : RecordOk SuNotice where
  fits hL := .required hL <| .required hL <| .optional hL <| .meta_ hL .nil

instance : RecordOk SuCompaction where
  fits hL := .required hL <| .required hL <| .optional hL <| .optional hL <| .meta_ hL .nil

instance : RecordOk SuCompactionSummaryChunk where
  fits hL := .required hL <| .required hL <| .meta_ hL .nil

instance : Skips MessageChunk "sessionUpdate" := .record
instance : Skips SuPlan "sessionUpdate" := .record
instance : Skips SuAvailableCommands "sessionUpdate" := .record
instance : Skips SuCurrentMode "sessionUpdate" := .record
instance : Skips SuConfigOptions "sessionUpdate" := .record
instance : Skips SuSessionInfo "sessionUpdate" := .record
instance : Skips SuUsage "sessionUpdate" := .record
instance : Skips SuNotice "sessionUpdate" := .record
instance : Skips SuCompaction "sessionUpdate" := .record
instance : Skips SuCompactionSummaryChunk "sessionUpdate" := .record

instance : SumOk SessionUpdate where
  fits hL := show AllArms _ "sessionUpdate" _ from .arm hL <| .arm hL <| .arm hL <| .arm hL <| .arm hL <| .arm hL <|
    .arm hL <| .arm hL <| .arm hL <| .arm hL <| .arm hL <| .arm hL <| .arm hL <| .arm hL .nil

instance : RecordOk SessionUpdateMsg where
  fits hL := .required hL <| .required hL <| .meta_ hL .nil

/-! ## Initialize -/

instance (b : Build) : RecordOk (InitializeParams b) where
  fits hL := .defaulted hL <| .defaulted hL <| .optional hL <| .meta_ hL .nil

/-- The fields of an initialize result give back what they write. -/
theorem initializeResult_loops {L : Jsonrpc} (hL : L.Lawful) (b : Build) :
    ∀ f ∈ (Record.fields L : List (FieldSpec (InitializeResult b))), Loops L f := by
  have hauth : ∀ ms : List AuthMethod, metaOk ms → (L.codec (List AuthMethod)).decode
      ((L.codec (List AuthMethod)).encode ms) = .ok (norm ms) := hL.list_loop (authMethod_loop L)
  intro f hf
  fin_cases hf
  · exact .defaulted hL (Conforms.retract hL).loop (NeverNull.ne_null hL) {} rfl
  · exact .defaulted hL (Conforms.retract hL).loop (NeverNull.ne_null hL) {} rfl
  · exact .optional hL (Conforms.retract hL).loop (NeverNull.ne_null hL) {}
  · exact .defaulted hL hauth (NeverNull.ne_null hL) {} rfl
  · exact .meta_ hL {}

theorem initializeResult_nodup (L : Jsonrpc) (b : Build) :
    ((Record.fields L : List (FieldSpec (InitializeResult b))).map FieldSpec.key).Nodup := by
  simp [Record.fields, FieldSpec.key, Jsonrpc.optional, Jsonrpc.defaulted, metaField]

theorem initializeResult_loop {L : Jsonrpc} (hL : L.Lawful) {b : Build} (r : InitializeResult b) (hr : metaOk r) :
    (L.codec (InitializeResult b)).decode ((L.codec (InitializeResult b)).encode r) = .ok (norm r) :=
  hL.record_loop (initializeResult_nodup L b) (fun f hf t => initializeResult_loops hL b f hf r t hr)
    (fun _ _ => rfl)

/-- Every `_meta` of a decoded initialize result is an object. -/
theorem initializeResult_metaOk {L : Jsonrpc} (hL : L.Lawful) {b : Build} {j : Json} {r : InitializeResult b}
    (h : (L.codec (InitializeResult b)).decode j = .ok r) : metaOk r := by
  refine hL.record_lands (P := metaOk) (by simp [metaOk, Record.init, Json.object]) (fun f hf x t t' ht hr => ?_) h
  fin_cases hf
  · obtain ⟨_, rfl⟩ := hL.read_defaulted_sets hr
    exact ht
  · rcases hL.read_defaulted_inv hr with ⟨-, rfl⟩ | ⟨y, a, -, ha, rfl⟩
    · exact ⟨rfl, ht.2⟩
    · exact ⟨((Conforms.retract hL).lands y a ha).1, ht.2⟩
  · obtain ⟨_, rfl⟩ := hL.read_optional_sets hr
    exact ht
  · rcases hL.read_defaulted_inv hr with ⟨-, rfl⟩ | ⟨y, ms, -, hms, rfl⟩
    · exact ⟨ht.1, fun _ hm => (by cases hm), ht.2.2⟩
    · exact ⟨ht.1, hL.list_decode_forall (fun _ _ => authMethod_metaOk) hms, ht.2.2⟩
  · obtain ⟨_, rfl⟩ := hL.read_meta_inv hr
    exact ⟨ht.1, ht.2.1, rfl⟩

theorem initializeResult_proto {L : Jsonrpc} (hL : L.Lawful) (b : Build) : Proto L (L.codec (InitializeResult b)) := by
  refine .record _ _ (initializeResult_nodup L b) ?_ (fun f hf => ?_)
  · simp [Record.fields, FieldSpec.key, Jsonrpc.optional, Jsonrpc.defaulted, metaField]
  fin_cases hf
  · rintro _ _ _ ⟨⟩; exact Conforms.proto hL
  · rintro _ _ _ ⟨⟩; exact Conforms.proto hL
  · rintro _ _ _ ⟨⟩; exact Conforms.proto hL
  · rintro _ _ _ ⟨⟩; exact .list .authMethod
  · rintro _ _ _ ⟨⟩

/-! ## The other params and results -/

instance : EnumOk StopReason := ⟨by decide, by decide, fun e => by cases e <;> simp [StringEnum.mappings]⟩

instance : RecordOk CancelRequestParams where
  fits hL := .required hL <| .meta_ hL .nil

instance : RecordOk AuthenticateParams where
  fits hL := .required hL <| .meta_ hL .nil

instance : RecordOk NewSessionParams where
  fits hL := .required hL <| .defaulted hL <| .optional hL <| .meta_ hL .nil

instance : RecordOk NewSessionResult where
  fits hL := .required hL <| .optional hL <| .optional hL <| .meta_ hL .nil

instance : RecordOk LoadSessionParams where
  fits hL := .required hL <| .required hL <| .defaulted hL <| .optional hL <| .meta_ hL .nil

instance : RecordOk ResumeSessionResult where
  fits hL := .optional hL <| .optional hL <| .meta_ hL .nil

instance : RecordOk SessionRef where
  fits hL := .required hL <| .meta_ hL .nil

instance : RecordOk ListSessionsParams where
  fits hL := .optional hL <| .optional hL <| .meta_ hL .nil

instance : RecordOk ListSessionsResult where
  fits hL := .defaulted hL <| .optional hL <| .meta_ hL .nil

instance : RecordOk PromptParams where
  fits hL := .required hL <| .required hL <| .meta_ hL .nil

instance : RecordOk PromptResult where
  fits hL := .required hL <| .meta_ hL .nil

instance : RecordOk SetModeParams where
  fits hL := .required hL <| .required hL <| .meta_ hL .nil

instance : RecordOk SetConfigOptionParams where
  fits hL := .required hL <| .required hL <| .required hL <| .meta_ hL .nil

instance : RecordOk SetConfigOptionResult where
  fits hL := .required hL <| .meta_ hL .nil

instance : RecordOk RequestPermissionParams where
  fits hL := .required hL <| .required hL <| .required hL <| .meta_ hL .nil

instance : RecordOk RequestPermissionResult where
  fits hL := .required hL <| .meta_ hL .nil

instance : RecordOk ReadTextFileParams where
  fits hL := .required hL <| .required hL <| .optional hL <| .optional hL <| .meta_ hL .nil

instance : RecordOk ReadTextFileResult where
  fits hL := .required hL <| .meta_ hL .nil

instance : RecordOk WriteTextFileParams where
  fits hL := .required hL <| .required hL <| .required hL <| .meta_ hL .nil

instance : RecordOk CreateTerminalParams where
  fits hL := .required hL <| .required hL <| .defaulted hL <| .defaulted hL <| .optional hL <| .optional hL <|
    .meta_ hL .nil

instance : RecordOk CreateTerminalResult where
  fits hL := .required hL <| .meta_ hL .nil

instance : RecordOk TerminalRef where
  fits hL := .required hL <| .required hL <| .meta_ hL .nil

instance : RecordOk TerminalExitStatus where
  fits hL := .optional hL <| .optional hL <| .meta_ hL .nil

instance : RecordOk TerminalOutputResult where
  fits hL := .required hL <| .defaulted hL <| .optional hL <| .meta_ hL .nil

end Acp
