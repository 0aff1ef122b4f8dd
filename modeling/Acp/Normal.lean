import Acp.Protocol
/-!
# Normal — what every value of the schema is taken to, and taken for granted

`metaOk v` says that every `_meta` inside `v` is an object.  `norm v` is the value a peer reads when it is sent `v`:
most types come back as they are, and the few that do not are the ones with two forms in memory and one on the wire.
-/
namespace Acp

open Wire

class Normal (α : Type) where
  metaOk : α → Prop := fun _ => True
  norm   : α → α := id

export Normal (metaOk norm)

/-- Every `_meta` is an object, and the value is its own normal form. -/
def Good {α : Type} [Normal α] (v : α) : Prop := metaOk v ∧ norm v = v

instance : Normal Bool where
instance : Normal Int32 where
instance : Normal Int64 where
instance : Normal Double where
instance : Normal String where
instance : Normal Unit where
instance : Normal Json where

instance {α : Type} [StringEnum α] : Normal α where
instance {Tag : Type} : Normal (Newtype Tag String) where

instance {α : Type} [Normal α] : Normal (List α) where
  metaOk vs := ∀ v ∈ vs, metaOk v
  norm := List.map norm

instance {α : Type} [Normal α] : Normal (Option α) where
  metaOk v := ∀ a ∈ v, metaOk a
  norm := Option.map norm

/-- `Just(null)` is Nothing on the wire. -/
def dropNull : Option Json → Option Json
  | some .null => none
  | x          => x

/-! ## Content and tools -/

instance : Normal Annotations where
  metaOk v := v.meta_.isObject = true

instance : Normal TextResource where
  metaOk v := v.meta_.isObject = true

instance : Normal BlobResource where
  metaOk v := v.meta_.isObject = true

instance : Normal EmbeddedResource where
  metaOk
    | .text x => metaOk x
    | .blob x => metaOk x

instance : Normal TextContent where
  metaOk v := metaOk v.annotations ∧ v.meta_.isObject = true

instance : Normal ImageContent where
  metaOk v := metaOk v.annotations ∧ v.meta_.isObject = true

instance : Normal AudioContent where
  metaOk v := metaOk v.annotations ∧ v.meta_.isObject = true

instance : Normal ResourceLinkContent where
  metaOk v := metaOk v.annotations ∧ v.meta_.isObject = true

instance : Normal ResourceContent where
  metaOk v := metaOk v.resource ∧ metaOk v.annotations ∧ v.meta_.isObject = true

instance : Normal ContentBlock where
  metaOk
    | .text x         => metaOk x
    | .image x        => metaOk x
    | .audio x        => metaOk x
    | .resourceLink x => metaOk x
    | .resource x     => metaOk x

instance : Normal TccContent where
  metaOk v := metaOk v.content ∧ v.meta_.isObject = true

instance : Normal TccDiff where
  metaOk v := v.meta_.isObject = true

instance : Normal TccTerminal where
  metaOk v := v.meta_.isObject = true

instance : Normal ToolCallContent where
  metaOk
    | .content x  => metaOk x
    | .diff x     => metaOk x
    | .terminal x => metaOk x

instance : Normal ToolCallLocation where
  metaOk v := v.meta_.isObject = true

instance : Normal ToolCall where
  metaOk v := metaOk v.content ∧ metaOk v.locations ∧ v.meta_.isObject = true
  norm v := { v with rawInput := dropNull v.rawInput, rawOutput := dropNull v.rawOutput }

instance : Normal ToolCallUpdate where
  metaOk v := metaOk v.content ∧ metaOk v.locations ∧ v.meta_.isObject = true
  norm v := { v with rawInput := dropNull v.rawInput, rawOutput := dropNull v.rawOutput }

instance : Normal PlanEntry where
  metaOk v := v.meta_.isObject = true

instance : Normal PermissionOption where
  metaOk v := v.meta_.isObject = true

instance : Normal PoCancelled where

instance : Normal PoSelected where
  metaOk v := v.meta_.isObject = true

instance : Normal RequestPermissionOutcome where
  metaOk
    | .cancelled x => metaOk x
    | .selected x  => metaOk x

/-! ## Session types -/

instance : Normal KeyValue where
instance : Normal StdioMcpServer where
instance : Normal HttpMcpServer where
instance : Normal SseMcpServer where
instance : Normal McpServer where

instance : Normal SessionMode where
  metaOk v := v.meta_.isObject = true

instance : Normal SessionModeState where
  metaOk v := metaOk v.availableModes

instance : Normal ConfigSelectOption where
  metaOk v := v.meta_.isObject = true

instance : Normal ConfigSelectGroup where
  metaOk v := metaOk v.options ∧ v.meta_.isObject = true

/-- A list of no groups is a list of no options. -/
instance : Normal ConfigSelectOptions where
  metaOk
    | .ungrouped items => metaOk items
    | .grouped items   => metaOk items
  norm
    | .grouped [] => .ungrouped []
    | os          => os

/-- The fields that the option's type does not use are reset. -/
instance : Normal ConfigOption where
  metaOk v := metaOk v.options ∧ v.meta_.isObject = true
  norm v :=
    if v.isBoolean then { v with currentValue := "", options := .ungrouped [] }
    else { v with currentBool := false, options := norm v.options }

instance : Normal UnstructuredCommandInput where
  metaOk v := v.meta_.isObject = true

instance : Normal AvailableCommandInput where
  metaOk
    | .unstructured x => metaOk x

instance : Normal AvailableCommand where
  metaOk v := metaOk v.input ∧ v.meta_.isObject = true

instance : Normal Cost where

instance : Normal SessionInfo where
  metaOk v := v.meta_.isObject = true

/-! ## Capabilities and initialize -/

instance : Normal FsCapabilities where

instance : Normal ClientSessionCapabilities where
  metaOk v := v.meta_.isObject = true

instance : Normal ClientCapabilities where
  metaOk v := metaOk v.session ∧ v.meta_.isObject = true

instance : Normal PromptCapabilities where
instance : Normal McpCapabilities where
instance : Normal AuthCapabilities where
instance : Normal SessionCapabilities where

instance : Normal AgentCapabilities where
  metaOk v := v.meta_.isObject = true

/-- `args` and `env` belong to a terminal method alone. -/
instance : Normal AuthMethod where
  metaOk v := v.meta_.isObject = true
  norm v := if v.type = "terminal" then v else { v with args := [], env := ∅ }

instance : Normal ImplementationInfo where

instance (b : Build) : Normal (InitializeParams b) where
  metaOk v := metaOk v.clientCapabilities ∧ v.meta_.isObject = true

instance (b : Build) : Normal (InitializeResult b) where
  metaOk v := metaOk v.agentCapabilities ∧ metaOk v.authMethods ∧ v.meta_.isObject = true
  norm v := { v with authMethods := norm v.authMethods }

/-! ## Session updates -/

instance : Normal MessageChunk where
  metaOk v := metaOk v.content

instance : Normal SuPlan where
  metaOk v := metaOk v.entries ∧ v.meta_.isObject = true

instance : Normal SuToolCall where
  metaOk v := metaOk v.toolCall
  norm v := { v with toolCall := norm v.toolCall }

instance : Normal SuToolCallUpdate where
  metaOk v := metaOk v.update
  norm v := { v with update := norm v.update }

instance : Normal SuAvailableCommands where
  metaOk v := metaOk v.availableCommands ∧ v.meta_.isObject = true

instance : Normal SuCurrentMode where
  metaOk v := v.meta_.isObject = true

instance : Normal SuConfigOptions where
  metaOk v := metaOk v.configOptions ∧ v.meta_.isObject = true
  norm v := { v with configOptions := norm v.configOptions }

instance : Normal SuSessionInfo where
  metaOk v := v.meta_.isObject = true

instance : Normal SuUsage where

instance : Normal SuNotice where
  metaOk v := v.meta_.isObject = true

instance : Normal SuCompaction where
  metaOk v := metaOk v.summary ∧ v.meta_.isObject = true

instance : Normal SuCompactionSummaryChunk where
  metaOk v := metaOk v.content ∧ v.meta_.isObject = true

instance : Normal SessionUpdate where
  metaOk
    | .userMessageChunk x       => metaOk x
    | .agentMessageChunk x      => metaOk x
    | .agentThoughtChunk x      => metaOk x
    | .plan x                   => metaOk x
    | .toolCall x               => metaOk x
    | .toolCallUpdate x         => metaOk x
    | .availableCommands x      => metaOk x
    | .currentMode x            => metaOk x
    | .configOptions x          => metaOk x
    | .sessionInfo x            => metaOk x
    | .usage x                  => metaOk x
    | .notice x                 => metaOk x
    | .compaction x             => metaOk x
    | .compactionSummaryChunk x => metaOk x
  norm
    | .toolCall x       => .toolCall (norm x)
    | .toolCallUpdate x => .toolCallUpdate (norm x)
    | .configOptions x  => .configOptions (norm x)
    | u                 => u

instance : Normal SessionUpdateMsg where
  metaOk v := metaOk v.update ∧ v.meta_.isObject = true
  norm v := { v with update := norm v.update }

/-! ## The other params and results -/

instance : Normal CancelRequestParams where
  metaOk v := v.meta_.isObject = true

instance : Normal AuthenticateParams where
  metaOk v := v.meta_.isObject = true

instance : Normal NewSessionParams where
  metaOk v := v.meta_.isObject = true

instance : Normal NewSessionResult where
  metaOk v := metaOk v.modes ∧ metaOk v.configOptions ∧ v.meta_.isObject = true
  norm v := { v with configOptions := norm v.configOptions }

instance : Normal LoadSessionParams where
  metaOk v := v.meta_.isObject = true

instance : Normal ResumeSessionResult where
  metaOk v := metaOk v.modes ∧ metaOk v.configOptions ∧ v.meta_.isObject = true
  norm v := { v with configOptions := norm v.configOptions }

instance : Normal SessionRef where
  metaOk v := v.meta_.isObject = true

instance : Normal ListSessionsParams where
  metaOk v := v.meta_.isObject = true

instance : Normal ListSessionsResult where
  metaOk v := metaOk v.sessions ∧ v.meta_.isObject = true

instance : Normal PromptParams where
  metaOk v := metaOk v.prompt ∧ v.meta_.isObject = true

instance : Normal PromptResult where
  metaOk v := v.meta_.isObject = true

instance : Normal SetModeParams where
  metaOk v := v.meta_.isObject = true

instance : Normal SetConfigOptionParams where
  metaOk v := v.meta_.isObject = true

instance : Normal SetConfigOptionResult where
  metaOk v := metaOk v.configOptions ∧ v.meta_.isObject = true
  norm v := { v with configOptions := norm v.configOptions }

instance : Normal RequestPermissionParams where
  metaOk v := metaOk v.toolCall ∧ metaOk v.options ∧ v.meta_.isObject = true
  norm v := { v with toolCall := norm v.toolCall }

instance : Normal RequestPermissionResult where
  metaOk v := metaOk v.outcome ∧ v.meta_.isObject = true

instance : Normal ReadTextFileParams where
  metaOk v := v.meta_.isObject = true

instance : Normal ReadTextFileResult where
  metaOk v := v.meta_.isObject = true

instance : Normal WriteTextFileParams where
  metaOk v := v.meta_.isObject = true

instance : Normal CreateTerminalParams where
  metaOk v := v.meta_.isObject = true

instance : Normal CreateTerminalResult where
  metaOk v := v.meta_.isObject = true

instance : Normal TerminalRef where
  metaOk v := v.meta_.isObject = true

instance : Normal TerminalExitStatus where
  metaOk v := v.meta_.isObject = true

instance : Normal TerminalOutputResult where
  metaOk v := metaOk v.exitStatus ∧ v.meta_.isObject = true

end Acp
