import Acp.SessionTypes
/-!
# Caps — capabilities, version negotiation, authentication methods (`caps.hpp`)

Client session capabilities are switched on by the presence of an object; the client's capability record is a plain
record with two members laid over it; an authentication method is written and read by hand.
-/
namespace Acp

open Wire

structure CapabilityError where
  what : String
  deriving DecidableEq, Repr

/-- The build-time constants: `kProtocolVersion`, and whether the draft version was opted into. -/
structure Build where
  kProtocolVersion : Int32 := 1
  v2Draft          : Bool := false

def Build.kMaxProtocolVersion (b : Build) : Int32 := if b.v2Draft then 2 else b.kProtocolVersion

/-- The lower of the two versions, unless it is below the oldest one there is. -/
def negotiateVersion (ours theirs : Int32) : Except CapabilityError Int32 :=
  let agreed := if ours < theirs then ours else theirs
  if agreed < 1 then
    .error ⟨"no compatible ACP protocol version (peer offered " ++ toString theirs ++ ", we support " ++
      toString ours ++ ")"⟩
  else .ok agreed

structure FsCapabilities where
  readTextFile  : Bool := false
  writeTextFile : Bool := false

instance : Record FsCapabilities where
  init := {}
  fields L := [
    L.defaulted "readTextFile" ⟨(·.readTextFile), fun v a => { v with readTextFile := a }⟩ false,
    L.defaulted "writeTextFile" ⟨(·.writeTextFile), fun v a => { v with writeTextFile := a }⟩ false]

structure ClientSessionCapabilities where
  compaction    : Bool := false
  notices       : Bool := false
  booleanConfig : Bool := false
  meta_         : Json := Json.object

/-- `j.is_object() && j.contains(k) && j[k].is_object()`. -/
def present (j : Json) (k : String) : Bool :=
  match j.find? k with
  | some x => x.isObject
  | none   => false

/-- `if (b) j[k] = v;`. -/
def setIf (j : Json) (b : Bool) (k : String) (v : Json) : Json := if b then j.set k v else j

instance : CodecOf ClientSessionCapabilities where
  get _ :=
    { encode := fun c =>
        let j := setIf Json.object c.compaction "compaction" Json.object
        let j := setIf j c.notices "notices" Json.object
        let j := setIf j c.booleanConfig "configOptions" (Json.object.set "boolean" Json.object)
        setMeta j c.meta_
      decode := fun j =>
        .ok
          { compaction := present j "compaction"
            notices := present j "notices"
            booleanConfig := present j "configOptions" && present (j.objectOr "configOptions") "boolean"
            meta_ := j.objectOr "_meta" } }

structure ClientCapabilities where
  fs           : FsCapabilities := {}
  terminal     : Bool := false
  session      : ClientSessionCapabilities := {}
  authTerminal : Bool := false
  elicitForm   : Bool := false
  elicitUrl    : Bool := false
  meta_        : Json := Json.object

/-- The record the two overlaid members are laid over. -/
def ClientCapabilities.baseFields (L : Jsonrpc) : List (FieldSpec ClientCapabilities) := [
  L.defaulted "fs" ⟨(·.fs), fun v a => { v with fs := a }⟩ {},
  L.defaulted "terminal" ⟨(·.terminal), fun v a => { v with terminal := a }⟩ false,
  L.defaulted "session" ⟨(·.session), fun v a => { v with session := a }⟩ {},
  metaField "_meta" ⟨(·.meta_), fun v a => { v with meta_ := a }⟩]

def ClientCapabilities.base (L : Jsonrpc) : Codec ClientCapabilities := L.record {} (baseFields L)

/-- `a.contains("terminal") && a["terminal"].is_boolean() && a["terminal"].get<bool>()`. -/
def isTrue (a : Json) (k : String) : Bool :=
  match a.find? k with
  | some (.bool b) => b
  | _              => false

instance : CodecOf ClientCapabilities where
  get L :=
    { encode := fun c =>
        let j := (ClientCapabilities.base L).encode c
        let j := setIf j c.authTerminal "auth" (Json.object.set "terminal" (.bool true))
        if c.elicitForm || c.elicitUrl then
          let e := setIf Json.object c.elicitForm "form" Json.object
          let e := setIf e c.elicitUrl "url" Json.object
          j.set "elicitation" e
        else j
      decode := fun j => do
        let c ← (ClientCapabilities.base L).decode j
        let c := if present j "auth" then { c with authTerminal := isTrue (j.objectOr "auth") "terminal" } else c
        if present j "elicitation" then
          let e := j.objectOr "elicitation"
          .ok { c with elicitForm := present e "form", elicitUrl := present e "url" }
        else .ok c }

structure PromptCapabilities where
  image           : Bool := false
  audio           : Bool := false
  embeddedContext : Bool := false

instance : Record PromptCapabilities where
  init := {}
  fields L := [
    L.defaulted "image" ⟨(·.image), fun v a => { v with image := a }⟩ false,
    L.defaulted "audio" ⟨(·.audio), fun v a => { v with audio := a }⟩ false,
    L.defaulted "embeddedContext" ⟨(·.embeddedContext), fun v a => { v with embeddedContext := a }⟩ false]

structure McpCapabilities where
  http : Bool := false
  sse  : Bool := false

instance : Record McpCapabilities where
  init := {}
  fields L := [
    L.defaulted "http" ⟨(·.http), fun v a => { v with http := a }⟩ false,
    L.defaulted "sse" ⟨(·.sse), fun v a => { v with sse := a }⟩ false]

structure AuthCapabilities where
  logout : Option Unit := none

instance : Record AuthCapabilities where
  init := {}
  fields L := [L.optional "logout" ⟨(·.logout), fun _ a => { logout := a }⟩]

structure SessionCapabilities where
  deleteCap             : Option Unit := none
  resume                : Option Unit := none
  close                 : Option Unit := none
  list                  : Option Unit := none
  additionalDirectories : Option Unit := none
  fork                  : Option Unit := none

instance : Record SessionCapabilities where
  init := {}
  fields L := [
    L.optional "delete" ⟨(·.deleteCap), fun v a => { v with deleteCap := a }⟩,
    L.optional "resume" ⟨(·.resume), fun v a => { v with resume := a }⟩,
    L.optional "close" ⟨(·.close), fun v a => { v with close := a }⟩,
    L.optional "list" ⟨(·.list), fun v a => { v with list := a }⟩,
    L.optional "additionalDirectories"
      ⟨(·.additionalDirectories), fun v a => { v with additionalDirectories := a }⟩,
    L.optional "fork" ⟨(·.fork), fun v a => { v with fork := a }⟩]

structure AgentCapabilities where
  loadSession         : Bool := false
  promptCapabilities  : PromptCapabilities := {}
  mcpCapabilities     : McpCapabilities := {}
  auth                : AuthCapabilities := {}
  sessionCapabilities : SessionCapabilities := {}
  meta_               : Json := Json.object

instance : Record AgentCapabilities where
  init := {}
  fields L := [
    L.defaulted "loadSession" ⟨(·.loadSession), fun v a => { v with loadSession := a }⟩ false,
    L.defaulted "promptCapabilities" ⟨(·.promptCapabilities), fun v a => { v with promptCapabilities := a }⟩ {},
    L.defaulted "mcpCapabilities" ⟨(·.mcpCapabilities), fun v a => { v with mcpCapabilities := a }⟩ {},
    L.defaulted "auth" ⟨(·.auth), fun v a => { v with auth := a }⟩ {},
    L.defaulted "sessionCapabilities" ⟨(·.sessionCapabilities), fun v a => { v with sessionCapabilities := a }⟩ {},
    metaField "_meta" ⟨(·.meta_), fun v a => { v with meta_ := a }⟩]

structure AuthMethod where
  id          : String := ""
  name        : String := ""
  description : Option String := none
  type        : String := "agent"
  args        : List String := []
  env         : FinMap String String := ∅
  meta_       : Json := Json.object

/-- `if (j.contains(k) && j[k].is_array()) … = j[k].get<List<std::string>>();`. -/
def stringsOr (j : Json) (k : String) : Except Exn (List String) :=
  match j.find? k with
  | some (.arr xs) => (Json.arr xs).getStrings
  | _              => .ok []

/-- `if (j.contains(k) && j[k].is_object()) … = j[k].get<std::map<std::string, std::string>>();`. -/
def stringMapOr (j : Json) (k : String) : Except Exn (FinMap String String) :=
  match j.find? k with
  | some (.obj o) => (Json.obj o).getStringMap
  | _             => .ok ∅

/-- The type `agent` is left implicit on the wire, and `args` and `env` belong to `terminal` alone. -/
instance : CodecOf AuthMethod where
  get _ :=
    { encode := fun m =>
        let j := (Json.object.set "id" (.str m.id)).set "name" (.str m.name)
        let j := setOpt j "description" (m.description.map .str)
        let j := setIf j (m.type != "agent") "type" (.str m.type)
        let j :=
          if m.type = "terminal" then
            let j := setIf j (!m.args.isEmpty) "args" (.arr (m.args.map .str))
            setIf j (!m.env.isEmpty) "env" (.obj (m.env.map .str))
          else j
        setMeta j m.meta_
      decode := fun j =>
        if !j.isObject then .error (.codecError "AuthMethod: expected object")
        else do
          let id ← (← j.at_ "id").getString
          let name ← (← j.at_ "name").getString
          let type ← j.value "type" "agent"
          let args ← stringsOr j "args"
          let env ← stringMapOr j "env"
          .ok
            { id := id, name := name, description := j.string? "description", type := type, args := args, env := env,
              meta_ := j.objectOr "_meta" } }

structure ImplementationInfo where
  name    : String := ""
  title   : Option String := none
  version : Option String := none

instance : Record ImplementationInfo where
  init := {}
  fields L := [
    L.required "name" ⟨(·.name), fun v a => { v with name := a }⟩,
    L.optional "title" ⟨(·.title), fun v a => { v with title := a }⟩,
    L.optional "version" ⟨(·.version), fun v a => { v with version := a }⟩]

end Acp
