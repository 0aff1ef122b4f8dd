import Acp.Updates
/-!
# Methods — the params and results of every method (`methods.hpp`)

The two initialize payloads default their version to the build's `kProtocolVersion`, so their types are those of a
build.
-/
namespace Acp

open Wire

structure CancelRequestParams where
  id    : Json := .null
  meta_ : Json := Json.object

instance : Record CancelRequestParams where
  init := {}
  fields L := [
    L.required "id" ⟨(·.id), fun v a => { v with id := a }⟩,
    metaField "_meta" ⟨(·.meta_), fun v a => { v with meta_ := a }⟩]

structure InitializeParams (b : Build) where
  protocolVersion    : Int32 := b.kProtocolVersion
  clientCapabilities : ClientCapabilities := {}
  clientInfo         : Option ImplementationInfo := none
  meta_              : Json := Json.object

instance (b : Build) : Record (InitializeParams b) where
  init := {}
  fields L := [
    L.defaulted "protocolVersion" ⟨(·.protocolVersion), fun v a => { v with protocolVersion := a }⟩
      b.kProtocolVersion,
    L.defaulted "clientCapabilities" ⟨(·.clientCapabilities), fun v a => { v with clientCapabilities := a }⟩ {},
    L.optional "clientInfo" ⟨(·.clientInfo), fun v a => { v with clientInfo := a }⟩,
    metaField "_meta" ⟨(·.meta_), fun v a => { v with meta_ := a }⟩]

structure InitializeResult (b : Build) where
  protocolVersion   : Int32 := b.kProtocolVersion
  agentCapabilities : AgentCapabilities := {}
  agentInfo         : Option ImplementationInfo := none
  authMethods       : List AuthMethod := []
  meta_             : Json := Json.object

instance (b : Build) : Record (InitializeResult b) where
  init := {}
  fields L := [
    L.defaulted "protocolVersion" ⟨(·.protocolVersion), fun v a => { v with protocolVersion := a }⟩
      b.kProtocolVersion,
    L.defaulted "agentCapabilities" ⟨(·.agentCapabilities), fun v a => { v with agentCapabilities := a }⟩ {},
    L.optional "agentInfo" ⟨(·.agentInfo), fun v a => { v with agentInfo := a }⟩,
    L.defaulted "authMethods" ⟨(·.authMethods), fun v a => { v with authMethods := a }⟩ [],
    metaField "_meta" ⟨(·.meta_), fun v a => { v with meta_ := a }⟩]

structure AuthenticateParams where
  methodId : String := ""
  meta_    : Json := Json.object

instance : Record AuthenticateParams where
  init := {}
  fields L := [
    L.required "methodId" ⟨(·.methodId), fun v a => { v with methodId := a }⟩,
    metaField "_meta" ⟨(·.meta_), fun v a => { v with meta_ := a }⟩]

structure NewSessionParams where
  cwd                   : String := ""
  mcpServers            : List McpServer := []
  additionalDirectories : Option (List String) := none
  meta_                 : Json := Json.object

instance : Record NewSessionParams where
  init := {}
  fields L := [
    L.required "cwd" ⟨(·.cwd), fun v a => { v with cwd := a }⟩,
    L.defaulted "mcpServers" ⟨(·.mcpServers), fun v a => { v with mcpServers := a }⟩ [],
    L.optional "additionalDirectories"
      ⟨(·.additionalDirectories), fun v a => { v with additionalDirectories := a }⟩,
    metaField "_meta" ⟨(·.meta_), fun v a => { v with meta_ := a }⟩]

structure NewSessionResult where
  sessionId     : SessionId := ⟨""⟩
  modes         : Option SessionModeState := none
  configOptions : Option (List ConfigOption) := none
  meta_         : Json := Json.object

instance : Record NewSessionResult where
  init := {}
  fields L := [
    L.required "sessionId" ⟨(·.sessionId), fun v a => { v with sessionId := a }⟩,
    L.optional "modes" ⟨(·.modes), fun v a => { v with modes := a }⟩,
    L.optional "configOptions" ⟨(·.configOptions), fun v a => { v with configOptions := a }⟩,
    metaField "_meta" ⟨(·.meta_), fun v a => { v with meta_ := a }⟩]

structure LoadSessionParams where
  sessionId             : SessionId := ⟨""⟩
  cwd                   : String := ""
  mcpServers            : List McpServer := []
  additionalDirectories : Option (List String) := none
  meta_                 : Json := Json.object

instance : Record LoadSessionParams where
  init := {}
  fields L := [
    L.required "sessionId" ⟨(·.sessionId), fun v a => { v with sessionId := a }⟩,
    L.required "cwd" ⟨(·.cwd), fun v a => { v with cwd := a }⟩,
    L.defaulted "mcpServers" ⟨(·.mcpServers), fun v a => { v with mcpServers := a }⟩ [],
    L.optional "additionalDirectories"
      ⟨(·.additionalDirectories), fun v a => { v with additionalDirectories := a }⟩,
    metaField "_meta" ⟨(·.meta_), fun v a => { v with meta_ := a }⟩]

abbrev ResumeSessionParams := LoadSessionParams
abbrev ForkSessionParams   := LoadSessionParams

structure ResumeSessionResult where
  modes         : Option SessionModeState := none
  configOptions : Option (List ConfigOption) := none
  meta_         : Json := Json.object

instance : Record ResumeSessionResult where
  init := {}
  fields L := [
    L.optional "modes" ⟨(·.modes), fun v a => { v with modes := a }⟩,
    L.optional "configOptions" ⟨(·.configOptions), fun v a => { v with configOptions := a }⟩,
    metaField "_meta" ⟨(·.meta_), fun v a => { v with meta_ := a }⟩]

abbrev LoadSessionResult := ResumeSessionResult

/-- The params that name a session and nothing else. -/
structure SessionRef where
  sessionId : SessionId := ⟨""⟩
  meta_     : Json := Json.object

instance : Record SessionRef where
  init := {}
  fields L := [
    L.required "sessionId" ⟨(·.sessionId), fun v a => { v with sessionId := a }⟩,
    metaField "_meta" ⟨(·.meta_), fun v a => { v with meta_ := a }⟩]

abbrev CloseSessionParams  := SessionRef
abbrev DeleteSessionParams := SessionRef
abbrev CancelParams        := SessionRef

structure ListSessionsParams where
  cwd    : Option String := none
  cursor : Option String := none
  meta_  : Json := Json.object

instance : Record ListSessionsParams where
  init := {}
  fields L := [
    L.optional "cwd" ⟨(·.cwd), fun v a => { v with cwd := a }⟩,
    L.optional "cursor" ⟨(·.cursor), fun v a => { v with cursor := a }⟩,
    metaField "_meta" ⟨(·.meta_), fun v a => { v with meta_ := a }⟩]

structure ListSessionsResult where
  sessions   : List SessionInfo := []
  nextCursor : Option String := none
  meta_      : Json := Json.object

instance : Record ListSessionsResult where
  init := {}
  fields L := [
    L.defaulted "sessions" ⟨(·.sessions), fun v a => { v with sessions := a }⟩ [],
    L.optional "nextCursor" ⟨(·.nextCursor), fun v a => { v with nextCursor := a }⟩,
    metaField "_meta" ⟨(·.meta_), fun v a => { v with meta_ := a }⟩]

inductive StopReason where
  | endTurn
  | maxTokens
  | maxTurnRequests
  | refusal
  | cancelled
  deriving DecidableEq, Repr

instance : StringEnum StopReason :=
  ⟨[(.endTurn, "end_turn"), (.maxTokens, "max_tokens"), (.maxTurnRequests, "max_turn_requests"),
    (.refusal, "refusal"), (.cancelled, "cancelled")]⟩

structure PromptParams where
  sessionId : SessionId := ⟨""⟩
  prompt    : List ContentBlock := []
  meta_     : Json := Json.object

instance : Record PromptParams where
  init := {}
  fields L := [
    L.required "sessionId" ⟨(·.sessionId), fun v a => { v with sessionId := a }⟩,
    L.required "prompt" ⟨(·.prompt), fun v a => { v with prompt := a }⟩,
    metaField "_meta" ⟨(·.meta_), fun v a => { v with meta_ := a }⟩]

structure PromptResult where
  stopReason : StopReason := .endTurn
  meta_      : Json := Json.object

instance : Record PromptResult where
  init := {}
  fields L := [
    L.required "stopReason" ⟨(·.stopReason), fun v a => { v with stopReason := a }⟩,
    metaField "_meta" ⟨(·.meta_), fun v a => { v with meta_ := a }⟩]

structure SetModeParams where
  sessionId : SessionId := ⟨""⟩
  modeId    : SessionModeId := ⟨""⟩
  meta_     : Json := Json.object

instance : Record SetModeParams where
  init := {}
  fields L := [
    L.required "sessionId" ⟨(·.sessionId), fun v a => { v with sessionId := a }⟩,
    L.required "modeId" ⟨(·.modeId), fun v a => { v with modeId := a }⟩,
    metaField "_meta" ⟨(·.meta_), fun v a => { v with meta_ := a }⟩]

structure SetConfigOptionParams where
  sessionId : SessionId := ⟨""⟩
  configId  : String := ""
  value     : Json := .null
  meta_     : Json := Json.object

instance : Record SetConfigOptionParams where
  init := {}
  fields L := [
    L.required "sessionId" ⟨(·.sessionId), fun v a => { v with sessionId := a }⟩,
    L.required "configId" ⟨(·.configId), fun v a => { v with configId := a }⟩,
    L.required "value" ⟨(·.value), fun v a => { v with value := a }⟩,
    metaField "_meta" ⟨(·.meta_), fun v a => { v with meta_ := a }⟩]

def SetConfigOptionParams.isBool (p : SetConfigOptionParams) : Bool := p.value.isBoolean

def SetConfigOptionParams.valueString (p : SetConfigOptionParams) : String := p.value.stringOr ""

/-- `value.is_boolean() && value.get<bool>()`. -/
def SetConfigOptionParams.valueBool (p : SetConfigOptionParams) : Bool :=
  match p.value with
  | .bool b => b
  | _       => false

structure SetConfigOptionResult where
  configOptions : List ConfigOption := []
  meta_         : Json := Json.object

instance : Record SetConfigOptionResult where
  init := {}
  fields L := [
    L.required "configOptions" ⟨(·.configOptions), fun v a => { v with configOptions := a }⟩,
    metaField "_meta" ⟨(·.meta_), fun v a => { v with meta_ := a }⟩]

structure SessionUpdateMsg where
  sessionId : SessionId := ⟨""⟩
  update    : SessionUpdate := .userMessageChunk {}
  meta_     : Json := Json.object

instance : Record SessionUpdateMsg where
  init := {}
  fields L := [
    L.required "sessionId" ⟨(·.sessionId), fun v a => { v with sessionId := a }⟩,
    L.required "update" ⟨(·.update), fun v a => { v with update := a }⟩,
    metaField "_meta" ⟨(·.meta_), fun v a => { v with meta_ := a }⟩]

structure RequestPermissionParams where
  sessionId : SessionId := ⟨""⟩
  toolCall  : ToolCallUpdate := {}
  options   : List PermissionOption := []
  meta_     : Json := Json.object

instance : Record RequestPermissionParams where
  init := {}
  fields L := [
    L.required "sessionId" ⟨(·.sessionId), fun v a => { v with sessionId := a }⟩,
    L.required "toolCall" ⟨(·.toolCall), fun v a => { v with toolCall := a }⟩,
    L.required "options" ⟨(·.options), fun v a => { v with options := a }⟩,
    metaField "_meta" ⟨(·.meta_), fun v a => { v with meta_ := a }⟩]

structure RequestPermissionResult where
  outcome : RequestPermissionOutcome := .cancelled {}
  meta_   : Json := Json.object

instance : Record RequestPermissionResult where
  init := {}
  fields L := [
    L.required "outcome" ⟨(·.outcome), fun v a => { v with outcome := a }⟩,
    metaField "_meta" ⟨(·.meta_), fun v a => { v with meta_ := a }⟩]

structure ReadTextFileParams where
  sessionId : SessionId := ⟨""⟩
  path      : String := ""
  line      : Option Int64 := none
  limit     : Option Int64 := none
  meta_     : Json := Json.object

instance : Record ReadTextFileParams where
  init := {}
  fields L := [
    L.required "sessionId" ⟨(·.sessionId), fun v a => { v with sessionId := a }⟩,
    L.required "path" ⟨(·.path), fun v a => { v with path := a }⟩,
    L.optional "line" ⟨(·.line), fun v a => { v with line := a }⟩,
    L.optional "limit" ⟨(·.limit), fun v a => { v with limit := a }⟩,
    metaField "_meta" ⟨(·.meta_), fun v a => { v with meta_ := a }⟩]

structure ReadTextFileResult where
  content : String := ""
  meta_   : Json := Json.object

instance : Record ReadTextFileResult where
  init := {}
  fields L := [
    L.required "content" ⟨(·.content), fun v a => { v with content := a }⟩,
    metaField "_meta" ⟨(·.meta_), fun v a => { v with meta_ := a }⟩]

structure WriteTextFileParams where
  sessionId : SessionId := ⟨""⟩
  path      : String := ""
  content   : String := ""
  meta_     : Json := Json.object

instance : Record WriteTextFileParams where
  init := {}
  fields L := [
    L.required "sessionId" ⟨(·.sessionId), fun v a => { v with sessionId := a }⟩,
    L.required "path" ⟨(·.path), fun v a => { v with path := a }⟩,
    L.required "content" ⟨(·.content), fun v a => { v with content := a }⟩,
    metaField "_meta" ⟨(·.meta_), fun v a => { v with meta_ := a }⟩]

structure CreateTerminalParams where
  sessionId       : SessionId := ⟨""⟩
  command         : String := ""
  args            : List String := []
  env             : List KeyValue := []
  cwd             : Option String := none
  outputByteLimit : Option Int64 := none
  meta_           : Json := Json.object

instance : Record CreateTerminalParams where
  init := {}
  fields L := [
    L.required "sessionId" ⟨(·.sessionId), fun v a => { v with sessionId := a }⟩,
    L.required "command" ⟨(·.command), fun v a => { v with command := a }⟩,
    L.defaulted "args" ⟨(·.args), fun v a => { v with args := a }⟩ [],
    L.defaulted "env" ⟨(·.env), fun v a => { v with env := a }⟩ [],
    L.optional "cwd" ⟨(·.cwd), fun v a => { v with cwd := a }⟩,
    L.optional "outputByteLimit" ⟨(·.outputByteLimit), fun v a => { v with outputByteLimit := a }⟩,
    metaField "_meta" ⟨(·.meta_), fun v a => { v with meta_ := a }⟩]

structure CreateTerminalResult where
  terminalId : String := ""
  meta_      : Json := Json.object

instance : Record CreateTerminalResult where
  init := {}
  fields L := [
    L.required "terminalId" ⟨(·.terminalId), fun v a => { v with terminalId := a }⟩,
    metaField "_meta" ⟨(·.meta_), fun v a => { v with meta_ := a }⟩]

structure TerminalRef where
  sessionId  : SessionId := ⟨""⟩
  terminalId : String := ""
  meta_      : Json := Json.object

instance : Record TerminalRef where
  init := {}
  fields L := [
    L.required "sessionId" ⟨(·.sessionId), fun v a => { v with sessionId := a }⟩,
    L.required "terminalId" ⟨(·.terminalId), fun v a => { v with terminalId := a }⟩,
    metaField "_meta" ⟨(·.meta_), fun v a => { v with meta_ := a }⟩]

abbrev TerminalOutputParams      := TerminalRef
abbrev TerminalWaitForExitParams := TerminalRef
abbrev TerminalKillParams        := TerminalRef
abbrev TerminalReleaseParams     := TerminalRef

structure TerminalExitStatus where
  exitCode : Option Int64 := none
  signal   : Option String := none
  meta_    : Json := Json.object

instance : Record TerminalExitStatus where
  init := {}
  fields L := [
    L.optional "exitCode" ⟨(·.exitCode), fun v a => { v with exitCode := a }⟩,
    L.optional "signal" ⟨(·.signal), fun v a => { v with signal := a }⟩,
    metaField "_meta" ⟨(·.meta_), fun v a => { v with meta_ := a }⟩]

structure TerminalOutputResult where
  output     : String := ""
  truncated  : Bool := false
  exitStatus : Option TerminalExitStatus := none
  meta_      : Json := Json.object

instance : Record TerminalOutputResult where
  init := {}
  fields L := [
    L.required "output" ⟨(·.output), fun v a => { v with output := a }⟩,
    L.defaulted "truncated" ⟨(·.truncated), fun v a => { v with truncated := a }⟩ false,
    L.optional "exitStatus" ⟨(·.exitStatus), fun v a => { v with exitStatus := a }⟩,
    metaField "_meta" ⟨(·.meta_), fun v a => { v with meta_ := a }⟩]

abbrev TerminalWaitForExitResult := TerminalExitStatus

end Acp
