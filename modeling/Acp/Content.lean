import Acp.Jsonrpc
/-!
# Content — identifiers, `ContentBlock` and its constituents (`ids.hpp`, `content.hpp`)

An embedded resource has no discriminator on the wire: its decoder looks for `text`, then for `blob`.
-/
namespace Acp

open Wire

inductive SessionIdTag
inductive ToolCallIdTag
inductive SessionModeIdTag
inductive MessageIdTag

abbrev SessionId     := Newtype SessionIdTag String
abbrev ToolCallId    := Newtype ToolCallIdTag String
abbrev SessionModeId := Newtype SessionModeIdTag String
abbrev MessageId     := Newtype MessageIdTag String

inductive Role where
  | assistant
  | user
  deriving DecidableEq, Repr

instance : StringEnum Role := ⟨[(.assistant, "assistant"), (.user, "user")]⟩

structure Annotations where
  audience     : Option (List Role) := none
  lastModified : Option String := none
  priority     : Option Double := none
  meta_        : Json := Json.object

instance : Record Annotations where
  init := {}
  fields L := [
    L.optional "audience" ⟨(·.audience), fun v a => { v with audience := a }⟩,
    L.optional "lastModified" ⟨(·.lastModified), fun v a => { v with lastModified := a }⟩,
    L.optional "priority" ⟨(·.priority), fun v a => { v with priority := a }⟩,
    metaField "_meta" ⟨(·.meta_), fun v a => { v with meta_ := a }⟩]

structure TextResource where
  uri      : String := ""
  text     : String := ""
  mimeType : Option String := none
  meta_    : Json := Json.object

structure BlobResource where
  uri      : String := ""
  blob     : String := ""
  mimeType : Option String := none
  meta_    : Json := Json.object

inductive EmbeddedResource where
  | text (x : TextResource)
  | blob (x : BlobResource)

structure TextContent where
  text        : String := ""
  annotations : Option Annotations := none
  meta_       : Json := Json.object

structure ImageContent where
  data        : String := ""
  mimeType    : String := ""
  uri         : Option String := none
  annotations : Option Annotations := none
  meta_       : Json := Json.object

structure AudioContent where
  data        : String := ""
  mimeType    : String := ""
  annotations : Option Annotations := none
  meta_       : Json := Json.object

structure ResourceLinkContent where
  uri         : String := ""
  name        : String := ""
  mimeType    : Option String := none
  title       : Option String := none
  description : Option String := none
  size        : Option Int64 := none
  annotations : Option Annotations := none
  meta_       : Json := Json.object

structure ResourceContent where
  resource    : EmbeddedResource := .text {}
  annotations : Option Annotations := none
  meta_       : Json := Json.object

inductive ContentBlock where
  | text (x : TextContent)
  | image (x : ImageContent)
  | audio (x : AudioContent)
  | resourceLink (x : ResourceLinkContent)
  | resource (x : ResourceContent)

instance : Record TextResource where
  init := {}
  fields L := [
    L.required "uri" ⟨(·.uri), fun v a => { v with uri := a }⟩,
    L.required "text" ⟨(·.text), fun v a => { v with text := a }⟩,
    L.optional "mimeType" ⟨(·.mimeType), fun v a => { v with mimeType := a }⟩,
    metaField "_meta" ⟨(·.meta_), fun v a => { v with meta_ := a }⟩]

instance : Record BlobResource where
  init := {}
  fields L := [
    L.required "uri" ⟨(·.uri), fun v a => { v with uri := a }⟩,
    L.required "blob" ⟨(·.blob), fun v a => { v with blob := a }⟩,
    L.optional "mimeType" ⟨(·.mimeType), fun v a => { v with mimeType := a }⟩,
    metaField "_meta" ⟨(·.meta_), fun v a => { v with meta_ := a }⟩]

instance : CodecOf EmbeddedResource where
  get L :=
    { encode := fun
        | .text x => L.toJson x
        | .blob x => L.toJson x
      decode := fun j =>
        if !j.isObject then .error (.codecError "EmbeddedResource: expected object")
        else if j.contains "text" then .text <$> L.fromJson TextResource j
        else if j.contains "blob" then .blob <$> L.fromJson BlobResource j
        else .error (.codecError "EmbeddedResource: must contain 'text' or 'blob'") }

instance : Record TextContent where
  init := {}
  fields L := [
    L.required "text" ⟨(·.text), fun v a => { v with text := a }⟩,
    L.optional "annotations" ⟨(·.annotations), fun v a => { v with annotations := a }⟩,
    metaField "_meta" ⟨(·.meta_), fun v a => { v with meta_ := a }⟩]

instance : Record ImageContent where
  init := {}
  fields L := [
    L.required "data" ⟨(·.data), fun v a => { v with data := a }⟩,
    L.required "mimeType" ⟨(·.mimeType), fun v a => { v with mimeType := a }⟩,
    L.optional "uri" ⟨(·.uri), fun v a => { v with uri := a }⟩,
    L.optional "annotations" ⟨(·.annotations), fun v a => { v with annotations := a }⟩,
    metaField "_meta" ⟨(·.meta_), fun v a => { v with meta_ := a }⟩]

instance : Record AudioContent where
  init := {}
  fields L := [
    L.required "data" ⟨(·.data), fun v a => { v with data := a }⟩,
    L.required "mimeType" ⟨(·.mimeType), fun v a => { v with mimeType := a }⟩,
    L.optional "annotations" ⟨(·.annotations), fun v a => { v with annotations := a }⟩,
    metaField "_meta" ⟨(·.meta_), fun v a => { v with meta_ := a }⟩]

instance : Record ResourceLinkContent where
  init := {}
  fields L := [
    L.required "uri" ⟨(·.uri), fun v a => { v with uri := a }⟩,
    L.required "name" ⟨(·.name), fun v a => { v with name := a }⟩,
    L.optional "mimeType" ⟨(·.mimeType), fun v a => { v with mimeType := a }⟩,
    L.optional "title" ⟨(·.title), fun v a => { v with title := a }⟩,
    L.optional "description" ⟨(·.description), fun v a => { v with description := a }⟩,
    L.optional "size" ⟨(·.size), fun v a => { v with size := a }⟩,
    L.optional "annotations" ⟨(·.annotations), fun v a => { v with annotations := a }⟩,
    metaField "_meta" ⟨(·.meta_), fun v a => { v with meta_ := a }⟩]

instance : Record ResourceContent where
  init := {}
  fields L := [
    L.required "resource" ⟨(·.resource), fun v a => { v with resource := a }⟩,
    L.optional "annotations" ⟨(·.annotations), fun v a => { v with annotations := a }⟩,
    metaField "_meta" ⟨(·.meta_), fun v a => { v with meta_ := a }⟩]

instance : TaggedSum ContentBlock where
  tag := "type"
  arms L := [
    L.arm "text" ⟨.text, fun | .text x => some x | _ => none⟩,
    L.arm "image" ⟨.image, fun | .image x => some x | _ => none⟩,
    L.arm "audio" ⟨.audio, fun | .audio x => some x | _ => none⟩,
    L.arm "resource_link" ⟨.resourceLink, fun | .resourceLink x => some x | _ => none⟩,
    L.arm "resource" ⟨.resource, fun | .resource x => some x | _ => none⟩]

end Acp
