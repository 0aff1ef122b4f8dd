import Acp.Caps
/-!
# Updates — the `SessionUpdate` sum (`updates.hpp`)

Fourteen arms under the tag `sessionUpdate`.  The tool-call arms are flattened: they reuse the codec of the tool call
they carry.
-/
namespace Acp

open Wire

/-- The three message chunks have one shape. -/
structure MessageChunk where
  content   : ContentBlock := .text {}
  messageId : Option MessageId := none

abbrev SuUserMessageChunk  := MessageChunk
abbrev SuAgentMessageChunk := MessageChunk
abbrev SuAgentThoughtChunk := MessageChunk

structure SuPlan where
  entries : List PlanEntry := []
  meta_   : Json := Json.object

structure SuToolCall where
  toolCall : ToolCall := {}

structure SuToolCallUpdate where
  update : ToolCallUpdate := {}

structure SuAvailableCommands where
  availableCommands : List AvailableCommand := []
  meta_             : Json := Json.object

structure SuCurrentMode where
  currentModeId : SessionModeId := ⟨""⟩
  meta_         : Json := Json.object

structure SuConfigOptions where
  configOptions : List ConfigOption := []
  meta_         : Json := Json.object

structure SuSessionInfo where
  title     : Option String := none
  updatedAt : Option String := none
  meta_     : Json := Json.object

structure SuUsage where
  used : Int64 := 0
  size : Int64 := 0
  cost : Option Cost := none

structure SuNotice where
  severity    : String := "info"
  title       : String := ""
  description : Option String := none
  meta_       : Json := Json.object

structure SuCompaction where
  compactionId : String := ""
  status       : String := "in_progress"
  summary      : Option (List ContentBlock) := none
  error        : Option String := none
  meta_        : Json := Json.object

structure SuCompactionSummaryChunk where
  compactionId : String := ""
  content      : ContentBlock := .text {}
  meta_        : Json := Json.object

inductive SessionUpdate where
  | userMessageChunk (x : SuUserMessageChunk)
  | agentMessageChunk (x : SuAgentMessageChunk)
  | agentThoughtChunk (x : SuAgentThoughtChunk)
  | plan (x : SuPlan)
  | toolCall (x : SuToolCall)
  | toolCallUpdate (x : SuToolCallUpdate)
  | availableCommands (x : SuAvailableCommands)
  | currentMode (x : SuCurrentMode)
  | configOptions (x : SuConfigOptions)
  | sessionInfo (x : SuSessionInfo)
  | usage (x : SuUsage)
  | notice (x : SuNotice)
  | compaction (x : SuCompaction)
  | compactionSummaryChunk (x : SuCompactionSummaryChunk)

instance : Record MessageChunk where
  init := {}
  fields L := [
    L.required "content" ⟨(·.content), fun v a => { v with content := a }⟩,
    L.optional "messageId" ⟨(·.messageId), fun v a => { v with messageId := a }⟩]

instance : Record SuPlan where
  init := {}
  fields L := [
    L.required "entries" ⟨(·.entries), fun v a => { v with entries := a }⟩,
    metaField "_meta" ⟨(·.meta_), fun v a => { v with meta_ := a }⟩]

instance : CodecOf SuToolCall where
  get L := { encode := fun v => L.toJson v.toolCall, decode := fun j => .mk <$> L.fromJson ToolCall j }

instance : CodecOf SuToolCallUpdate where
  get L := { encode := fun v => L.toJson v.update, decode := fun j => .mk <$> L.fromJson ToolCallUpdate j }

instance : Record SuAvailableCommands where
  init := {}
  fields L := [
    L.required "availableCommands" ⟨(·.availableCommands), fun v a => { v with availableCommands := a }⟩,
    metaField "_meta" ⟨(·.meta_), fun v a => { v with meta_ := a }⟩]

instance : Record SuCurrentMode where
  init := {}
  fields L := [
    L.required "currentModeId" ⟨(·.currentModeId), fun v a => { v with currentModeId := a }⟩,
    metaField "_meta" ⟨(·.meta_), fun v a => { v with meta_ := a }⟩]

instance : Record SuConfigOptions where
  init := {}
  fields L := [
    L.required "configOptions" ⟨(·.configOptions), fun v a => { v with configOptions := a }⟩,
    metaField "_meta" ⟨(·.meta_), fun v a => { v with meta_ := a }⟩]

instance : Record SuSessionInfo where
  init := {}
  fields L := [
    L.optional "title" ⟨(·.title), fun v a => { v with title := a }⟩,
    L.optional "updatedAt" ⟨(·.updatedAt), fun v a => { v with updatedAt := a }⟩,
    metaField "_meta" ⟨(·.meta_), fun v a => { v with meta_ := a }⟩]

instance : Record SuUsage where
  init := {}
  fields L := [
    L.required "used" ⟨(·.used), fun v a => { v with used := a }⟩,
    L.required "size" ⟨(·.size), fun v a => { v with size := a }⟩,
    L.optional "cost" ⟨(·.cost), fun v a => { v with cost := a }⟩]

instance : Record SuNotice where
  init := {}
  fields L := [
    L.required "severity" ⟨(·.severity), fun v a => { v with severity := a }⟩,
    L.required "title" ⟨(·.title), fun v a => { v with title := a }⟩,
    L.optional "description" ⟨(·.description), fun v a => { v with description := a }⟩,
    metaField "_meta" ⟨(·.meta_), fun v a => { v with meta_ := a }⟩]

instance : Record SuCompaction where
  init := {}
  fields L := [
    L.required "compactionId" ⟨(·.compactionId), fun v a => { v with compactionId := a }⟩,
    L.required "status" ⟨(·.status), fun v a => { v with status := a }⟩,
    L.optional "summary" ⟨(·.summary), fun v a => { v with summary := a }⟩,
    L.optional "error" ⟨(·.error), fun v a => { v with error := a }⟩,
    metaField "_meta" ⟨(·.meta_), fun v a => { v with meta_ := a }⟩]

instance : Record SuCompactionSummaryChunk where
  init := {}
  fields L := [
    L.required "compactionId" ⟨(·.compactionId), fun v a => { v with compactionId := a }⟩,
    L.required "content" ⟨(·.content), fun v a => { v with content := a }⟩,
    metaField "_meta" ⟨(·.meta_), fun v a => { v with meta_ := a }⟩]

instance : TaggedSum SessionUpdate where
  tag := "sessionUpdate"
  arms L := [
    L.arm "user_message_chunk" ⟨.userMessageChunk, fun | .userMessageChunk x => some x | _ => none⟩,
    L.arm "agent_message_chunk" ⟨.agentMessageChunk, fun | .agentMessageChunk x => some x | _ => none⟩,
    L.arm "agent_thought_chunk" ⟨.agentThoughtChunk, fun | .agentThoughtChunk x => some x | _ => none⟩,
    L.arm "plan" ⟨.plan, fun | .plan x => some x | _ => none⟩,
    L.arm "tool_call" ⟨.toolCall, fun | .toolCall x => some x | _ => none⟩,
    L.arm "tool_call_update" ⟨.toolCallUpdate, fun | .toolCallUpdate x => some x | _ => none⟩,
    L.arm "available_commands_update" ⟨.availableCommands, fun | .availableCommands x => some x | _ => none⟩,
    L.arm "current_mode_update" ⟨.currentMode, fun | .currentMode x => some x | _ => none⟩,
    L.arm "config_option_update" ⟨.configOptions, fun | .configOptions x => some x | _ => none⟩,
    L.arm "session_info_update" ⟨.sessionInfo, fun | .sessionInfo x => some x | _ => none⟩,
    L.arm "usage_update" ⟨.usage, fun | .usage x => some x | _ => none⟩,
    L.arm "notice" ⟨.notice, fun | .notice x => some x | _ => none⟩,
    L.arm "compaction_update" ⟨.compaction, fun | .compaction x => some x | _ => none⟩,
    L.arm "compaction_summary_chunk"
      ⟨.compactionSummaryChunk, fun | .compactionSummaryChunk x => some x | _ => none⟩]

end Acp
