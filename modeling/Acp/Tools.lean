import Acp.Content
/-! # Tools — tool calls, plans, permissions (`tools.hpp`) -/
namespace Acp

open Wire

inductive ToolKind where
  | read
  | edit
  | delete
  | move
  | search
  | execute
  | think
  | fetch
  | switchMode
  | other
  deriving DecidableEq, Repr

instance : StringEnum ToolKind :=
  ⟨[(.read, "read"), (.edit, "edit"), (.delete, "delete"), (.move, "move"), (.search, "search"),
    (.execute, "execute"), (.think, "think"), (.fetch, "fetch"), (.switchMode, "switch_mode"), (.other, "other")]⟩

inductive ToolCallStatus where
  | pending
  | inProgress
  | completed
  | failed
  deriving DecidableEq, Repr

instance : StringEnum ToolCallStatus :=
  ⟨[(.pending, "pending"), (.inProgress, "in_progress"), (.completed, "completed"), (.failed, "failed")]⟩

structure TccContent where
  content : ContentBlock := .text {}
  meta_   : Json := Json.object

structure TccDiff where
  path    : String := ""
  oldText : Option String := none
  newText : String := ""
  meta_   : Json := Json.object

structure TccTerminal where
  terminalId : String := ""
  meta_      : Json := Json.object

inductive ToolCallContent where
  | content (x : TccContent)
  | diff (x : TccDiff)
  | terminal (x : TccTerminal)

instance : Record TccContent where
  init := {}
  fields L := [
    L.required "content" ⟨(·.content), fun v a => { v with content := a }⟩,
    metaField "_meta" ⟨(·.meta_), fun v a => { v with meta_ := a }⟩]

instance : Record TccDiff where
  init := {}
  fields L := [
    L.required "path" ⟨(·.path), fun v a => { v with path := a }⟩,
    L.optional "oldText" ⟨(·.oldText), fun v a => { v with oldText := a }⟩,
    L.required "newText" ⟨(·.newText), fun v a => { v with newText := a }⟩,
    metaField "_meta" ⟨(·.meta_), fun v a => { v with meta_ := a }⟩]

instance : Record TccTerminal where
  init := {}
  fields L := [
    L.required "terminalId" ⟨(·.terminalId), fun v a => { v with terminalId := a }⟩,
    metaField "_meta" ⟨(·.meta_), fun v a => { v with meta_ := a }⟩]

instance : TaggedSum ToolCallContent where
  tag := "type"
  arms L := [
    L.arm "content" ⟨.content, fun | .content x => some x | _ => none⟩,
    L.arm "diff" ⟨.diff, fun | .diff x => some x | _ => none⟩,
    L.arm "terminal" ⟨.terminal, fun | .terminal x => some x | _ => none⟩]

structure ToolCallLocation where
  path  : String := ""
  line  : Option Int64 := none
  meta_ : Json := Json.object

instance : Record ToolCallLocation where
  init := {}
  fields L := [
    L.required "path" ⟨(·.path), fun v a => { v with path := a }⟩,
    L.optional "line" ⟨(·.line), fun v a => { v with line := a }⟩,
    metaField "_meta" ⟨(·.meta_), fun v a => { v with meta_ := a }⟩]

/-- The initial announcement of a tool invocation. -/
structure ToolCall where
  toolCallId : ToolCallId := ⟨""⟩
  title      : String := ""
  name       : Option String := none
  kind       : ToolKind := .other
  status     : ToolCallStatus := .pending
  content    : List ToolCallContent := []
  locations  : List ToolCallLocation := []
  rawInput   : Option Json := none
  rawOutput  : Option Json := none
  meta_      : Json := Json.object

instance : Record ToolCall where
  init := {}
  fields L := [
    L.required "toolCallId" ⟨(·.toolCallId), fun v a => { v with toolCallId := a }⟩,
    L.required "title" ⟨(·.title), fun v a => { v with title := a }⟩,
    L.optional "name" ⟨(·.name), fun v a => { v with name := a }⟩,
    L.defaulted "kind" ⟨(·.kind), fun v a => { v with kind := a }⟩ .other,
    L.defaulted "status" ⟨(·.status), fun v a => { v with status := a }⟩ .pending,
    L.defaulted "content" ⟨(·.content), fun v a => { v with content := a }⟩ [],
    L.defaulted "locations" ⟨(·.locations), fun v a => { v with locations := a }⟩ [],
    L.optional "rawInput" ⟨(·.rawInput), fun v a => { v with rawInput := a }⟩,
    L.optional "rawOutput" ⟨(·.rawOutput), fun v a => { v with rawOutput := a }⟩,
    metaField "_meta" ⟨(·.meta_), fun v a => { v with meta_ := a }⟩]

/-- A delta: every field except `toolCallId` is optional, `none` meaning "leave unchanged". -/
structure ToolCallUpdate where
  toolCallId : ToolCallId := ⟨""⟩
  title      : Option String := none
  name       : Option String := none
  kind       : Option ToolKind := none
  status     : Option ToolCallStatus := none
  content    : Option (List ToolCallContent) := none
  locations  : Option (List ToolCallLocation) := none
  rawInput   : Option Json := none
  rawOutput  : Option Json := none
  meta_      : Json := Json.object

instance : Record ToolCallUpdate where
  init := {}
  fields L := [
    L.required "toolCallId" ⟨(·.toolCallId), fun v a => { v with toolCallId := a }⟩,
    L.optional "title" ⟨(·.title), fun v a => { v with title := a }⟩,
    L.optional "name" ⟨(·.name), fun v a => { v with name := a }⟩,
    L.optional "kind" ⟨(·.kind), fun v a => { v with kind := a }⟩,
    L.optional "status" ⟨(·.status), fun v a => { v with status := a }⟩,
    L.optional "content" ⟨(·.content), fun v a => { v with content := a }⟩,
    L.optional "locations" ⟨(·.locations), fun v a => { v with locations := a }⟩,
    L.optional "rawInput" ⟨(·.rawInput), fun v a => { v with rawInput := a }⟩,
    L.optional "rawOutput" ⟨(·.rawOutput), fun v a => { v with rawOutput := a }⟩,
    metaField "_meta" ⟨(·.meta_), fun v a => { v with meta_ := a }⟩]

inductive PlanEntryPriority where
  | high
  | medium
  | low
  deriving DecidableEq, Repr

inductive PlanEntryStatus where
  | pending
  | inProgress
  | completed
  deriving DecidableEq, Repr

instance : StringEnum PlanEntryPriority := ⟨[(.high, "high"), (.medium, "medium"), (.low, "low")]⟩

instance : StringEnum PlanEntryStatus :=
  ⟨[(.pending, "pending"), (.inProgress, "in_progress"), (.completed, "completed")]⟩

structure PlanEntry where
  content  : String := ""
  priority : PlanEntryPriority := .medium
  status   : PlanEntryStatus := .pending
  meta_    : Json := Json.object

instance : Record PlanEntry where
  init := {}
  fields L := [
    L.required "content" ⟨(·.content), fun v a => { v with content := a }⟩,
    L.defaulted "priority" ⟨(·.priority), fun v a => { v with priority := a }⟩ .medium,
    L.defaulted "status" ⟨(·.status), fun v a => { v with status := a }⟩ .pending,
    metaField "_meta" ⟨(·.meta_), fun v a => { v with meta_ := a }⟩]

inductive PermissionOptionKind where
  | allowOnce
  | allowAlways
  | rejectOnce
  | rejectAlways
  deriving DecidableEq, Repr

instance : StringEnum PermissionOptionKind :=
  ⟨[(.allowOnce, "allow_once"), (.allowAlways, "allow_always"), (.rejectOnce, "reject_once"),
    (.rejectAlways, "reject_always")]⟩

structure PermissionOption where
  optionId : String := ""
  name     : String := ""
  kind     : PermissionOptionKind := .allowOnce
  meta_    : Json := Json.object

instance : Record PermissionOption where
  init := {}
  fields L := [
    L.required "optionId" ⟨(·.optionId), fun v a => { v with optionId := a }⟩,
    L.required "name" ⟨(·.name), fun v a => { v with name := a }⟩,
    L.defaulted "kind" ⟨(·.kind), fun v a => { v with kind := a }⟩ .allowOnce,
    metaField "_meta" ⟨(·.meta_), fun v a => { v with meta_ := a }⟩]

structure PoCancelled where

structure PoSelected where
  optionId : String := ""
  meta_    : Json := Json.object

inductive RequestPermissionOutcome where
  | cancelled (x : PoCancelled)
  | selected (x : PoSelected)

/-- The arm writes nothing and reads nothing. -/
instance : CodecOf PoCancelled := ⟨fun _ => { encode := fun _ => Json.object, decode := fun _ => .ok {} }⟩

instance : Record PoSelected where
  init := {}
  fields L := [
    L.required "optionId" ⟨(·.optionId), fun v a => { v with optionId := a }⟩,
    metaField "_meta" ⟨(·.meta_), fun v a => { v with meta_ := a }⟩]

instance : TaggedSum RequestPermissionOutcome where
  tag := "outcome"
  arms L := [
    L.arm "cancelled" ⟨.cancelled, fun | .cancelled x => some x | _ => none⟩,
    L.arm "selected" ⟨.selected, fun | .selected x => some x | _ => none⟩]

end Acp
