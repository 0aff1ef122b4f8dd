import Acp.Tools
/-!
# SessionTypes — MCP servers, modes, config options, slash commands, usage, session info (`session_types.hpp`)

Three codecs are written by hand: a stdio MCP server has no `type` on the wire, the two forms of a select-option list
are told apart by the first item's `group`, and a config option's layout follows its own `type`.
-/
namespace Acp

open Wire

structure KeyValue where
  name  : String := ""
  value : String := ""

instance : Record KeyValue where
  init := {}
  fields L := [
    L.required "name" ⟨(·.name), fun v a => { v with name := a }⟩,
    L.required "value" ⟨(·.value), fun v a => { v with value := a }⟩]

abbrev EnvVariable := KeyValue
abbrev HttpHeader  := KeyValue

structure StdioMcpServer where
  name    : String := ""
  command : String := ""
  args    : List String := []
  env     : List EnvVariable := []

structure HttpMcpServer where
  name    : String := ""
  url     : String := ""
  headers : List HttpHeader := []

structure SseMcpServer where
  name    : String := ""
  url     : String := ""
  headers : List HttpHeader := []

inductive McpServer where
  | stdio (x : StdioMcpServer)
  | http (x : HttpMcpServer)
  | sse (x : SseMcpServer)

instance : Record StdioMcpServer where
  init := {}
  fields L := [
    L.required "name" ⟨(·.name), fun v a => { v with name := a }⟩,
    L.required "command" ⟨(·.command), fun v a => { v with command := a }⟩,
    L.defaulted "args" ⟨(·.args), fun v a => { v with args := a }⟩ [],
    L.defaulted "env" ⟨(·.env), fun v a => { v with env := a }⟩ []]

instance : Record HttpMcpServer where
  init := {}
  fields L := [
    L.required "name" ⟨(·.name), fun v a => { v with name := a }⟩,
    L.required "url" ⟨(·.url), fun v a => { v with url := a }⟩,
    L.defaulted "headers" ⟨(·.headers), fun v a => { v with headers := a }⟩ []]

instance : Record SseMcpServer where
  init := {}
  fields L := [
    L.required "name" ⟨(·.name), fun v a => { v with name := a }⟩,
    L.required "url" ⟨(·.url), fun v a => { v with url := a }⟩,
    L.defaulted "headers" ⟨(·.headers), fun v a => { v with headers := a }⟩ []]

/-- Stdio is the arm without a tag, and the arm every other `type` falls through to. -/
instance : CodecOf McpServer where
  get L :=
    { encode := fun
        | .stdio x => L.toJson x
        | .http x  => (L.toJson x).set "type" (.str "http")
        | .sse x   => (L.toJson x).set "type" (.str "sse")
      decode := fun j =>
        if !j.isObject then .error (.codecError "McpServer: expected object")
        else do
          let type ← j.value "type" "stdio"
          if type = "http" then .http <$> L.fromJson HttpMcpServer j
          else if type = "sse" then .sse <$> L.fromJson SseMcpServer j
          else .stdio <$> L.fromJson StdioMcpServer j }

structure SessionMode where
  id          : SessionModeId := ⟨""⟩
  name        : String := ""
  description : Option String := none
  meta_       : Json := Json.object

instance : Record SessionMode where
  init := {}
  fields L := [
    L.required "id" ⟨(·.id), fun v a => { v with id := a }⟩,
    L.required "name" ⟨(·.name), fun v a => { v with name := a }⟩,
    L.optional "description" ⟨(·.description), fun v a => { v with description := a }⟩,
    metaField "_meta" ⟨(·.meta_), fun v a => { v with meta_ := a }⟩]

structure SessionModeState where
  currentModeId  : SessionModeId := ⟨""⟩
  availableModes : List SessionMode := []

instance : Record SessionModeState where
  init := {}
  fields L := [
    L.required "currentModeId" ⟨(·.currentModeId), fun v a => { v with currentModeId := a }⟩,
    L.required "availableModes" ⟨(·.availableModes), fun v a => { v with availableModes := a }⟩]

structure ConfigSelectOption where
  value       : String := ""
  name        : String := ""
  description : Option String := none
  meta_       : Json := Json.object

instance : Record ConfigSelectOption where
  init := {}
  fields L := [
    L.required "value" ⟨(·.value), fun v a => { v with value := a }⟩,
    L.required "name" ⟨(·.name), fun v a => { v with name := a }⟩,
    L.optional "description" ⟨(·.description), fun v a => { v with description := a }⟩,
    metaField "_meta" ⟨(·.meta_), fun v a => { v with meta_ := a }⟩]

structure ConfigSelectGroup where
  group   : String := ""
  name    : String := ""
  options : List ConfigSelectOption := []
  meta_   : Json := Json.object

instance : Record ConfigSelectGroup where
  init := {}
  fields L := [
    L.required "group" ⟨(·.group), fun v a => { v with group := a }⟩,
    L.required "name" ⟨(·.name), fun v a => { v with name := a }⟩,
    L.required "options" ⟨(·.options), fun v a => { v with options := a }⟩,
    metaField "_meta" ⟨(·.meta_), fun v a => { v with meta_ := a }⟩]

inductive ConfigSelectOptions where
  | ungrouped (items : List ConfigSelectOption)
  | grouped (items : List ConfigSelectGroup)

/-- `!j.empty() && j.front().is_object() && j.front().contains("group")`. -/
def frontHasGroup : List Json → Bool
  | []     => false
  | x :: _ => x.isObject && x.contains "group"

/-- Grouped iff the first element has a `group` key. -/
instance : CodecOf ConfigSelectOptions where
  get L :=
    { encode := fun
        | .ungrouped items => L.toJson items
        | .grouped items   => L.toJson items
      decode := fun
        | .arr xs =>
          if frontHasGroup xs then .grouped <$> L.fromJson (List ConfigSelectGroup) (.arr xs)
          else .ungrouped <$> L.fromJson (List ConfigSelectOption) (.arr xs)
        | _ => .error (.codecError "ConfigSelectOptions: expected array") }

structure ConfigOption where
  id           : String := ""
  name         : String := ""
  description  : Option String := none
  category     : Option String := none
  type         : String := "select"
  currentValue : String := ""
  currentBool  : Bool := false
  options      : ConfigSelectOptions := .ungrouped []
  meta_        : Json := Json.object

def ConfigOption.isBoolean (o : ConfigOption) : Bool := o.type == "boolean"

/-- `if (x) j[k] = *x;`. -/
def setOpt (j : Json) (k : String) (x : Option Json) : Json :=
  match x with
  | some v => j.set k v
  | none   => j

/-- `if (!m.empty()) j["_meta"] = m;`. -/
def setMeta (j : Json) (m : Json) : Json := if m.isEmpty then j else j.set "_meta" m

/-- `currentValue` is a string for select and a bool for boolean, and a boolean option has no `options`. -/
instance : CodecOf ConfigOption where
  get L :=
    { encode := fun o =>
        let j := (Json.object.set "id" (.str o.id)).set "name" (.str o.name)
        let j := setOpt j "description" (o.description.map .str)
        let j := setOpt j "category" (o.category.map .str)
        let j := j.set "type" (.str o.type)
        let j :=
          if o.isBoolean then j.set "currentValue" (.bool o.currentBool)
          else (j.set "currentValue" (.str o.currentValue)).set "options" (L.toJson o.options)
        setMeta j o.meta_
      decode := fun j =>
        if !j.isObject then .error (.codecError "ConfigOption: expected object")
        else do
          let id ← (← j.at_ "id").getString
          let name ← (← j.at_ "name").getString
          let type ← j.value "type" "select"
          let o : ConfigOption :=
            { id := id, name := name, description := j.string? "description", category := j.string? "category",
              type := type, meta_ := j.objectOr "_meta" }
          let cv ← j.at_ "currentValue"
          if o.isBoolean then
            match cv with
            | .bool b => .ok { o with currentBool := b }
            | _       => .error (.codecError "ConfigOption: boolean currentValue")
          else do
            let currentValue ← cv.getString
            let options ← L.fromJson ConfigSelectOptions (← j.at_ "options")
            .ok { o with currentValue := currentValue, options := options } }

structure UnstructuredCommandInput where
  hint  : String := ""
  meta_ : Json := Json.object

instance : Record UnstructuredCommandInput where
  init := {}
  fields L := [
    L.required "hint" ⟨(·.hint), fun v a => { v with hint := a }⟩,
    metaField "_meta" ⟨(·.meta_), fun v a => { v with meta_ := a }⟩]

inductive AvailableCommandInput where
  | unstructured (x : UnstructuredCommandInput)

/-- A single arm, written without its tag and read with or without it. -/
instance : CodecOf AvailableCommandInput where
  get L :=
    { encode := fun
        | .unstructured x => L.toJson x
      decode := fun j =>
        if !j.isObject then .error (.codecError "AvailableCommandInput: expected object")
        else do
          let type ← j.value "type" "unstructured"
          if type = "unstructured" then .unstructured <$> L.fromJson UnstructuredCommandInput j
          else .error (.codecError ("AvailableCommandInput: unknown type \"" ++ type ++ "\"")) }

structure AvailableCommand where
  name        : String := ""
  description : String := ""
  input       : Option AvailableCommandInput := none
  meta_       : Json := Json.object

instance : Record AvailableCommand where
  init := {}
  fields L := [
    L.required "name" ⟨(·.name), fun v a => { v with name := a }⟩,
    L.required "description" ⟨(·.description), fun v a => { v with description := a }⟩,
    L.optional "input" ⟨(·.input), fun v a => { v with input := a }⟩,
    metaField "_meta" ⟨(·.meta_), fun v a => { v with meta_ := a }⟩]

structure Cost where
  amount   : Double := ⟨0⟩
  currency : String := ""

instance : Record Cost where
  init := {}
  fields L := [
    L.required "amount" ⟨(·.amount), fun v a => { v with amount := a }⟩,
    L.required "currency" ⟨(·.currency), fun v a => { v with currency := a }⟩]

structure SessionInfo where
  sessionId             : SessionId := ⟨""⟩
  cwd                   : String := ""
  additionalDirectories : Option (List String) := none
  title                 : Option String := none
  updatedAt             : Option String := none
  meta_                 : Json := Json.object

instance : Record SessionInfo where
  init := {}
  fields L := [
    L.required "sessionId" ⟨(·.sessionId), fun v a => { v with sessionId := a }⟩,
    L.required "cwd" ⟨(·.cwd), fun v a => { v with cwd := a }⟩,
    L.optional "additionalDirectories"
      ⟨(·.additionalDirectories), fun v a => { v with additionalDirectories := a }⟩,
    L.optional "title" ⟨(·.title), fun v a => { v with title := a }⟩,
    L.optional "updatedAt" ⟨(·.updatedAt), fun v a => { v with updatedAt := a }⟩,
    metaField "_meta" ⟨(·.meta_), fun v a => { v with meta_ := a }⟩]

end Acp
