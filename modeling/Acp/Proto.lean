import Acp.Protocol
/-!
# Proto — the codecs of the protocol, as one inductive family

Every codec of the schema is a built-in, a combinator over such codecs, or one of the eleven written by hand.  A fact
about every codec at every depth is an induction on `Proto`.  The key `_meta` is nothing but a `meta` field's.
-/
namespace Acp

open Wire

/-- Every value is held by an arm, and what an arm writes is an object the tag can be put into. -/
structure ArmsCover {S : Type} (arms : List (Arm S)) : Prop where
  total  : ∀ s, ∃ b a, arms.find? (fun b => b.holds s) = some b ∧ b.alt.proj s = some a
  object : ∀ b ∈ arms, ∀ a, ∃ o, b.codec.encode a = .obj o

inductive Proto (L : Jsonrpc) : {α : Type} → Codec α → Prop where
  | bool   : Proto L L.bool
  | int    : Proto L L.int
  | int64  : Proto L L.int64
  | double : Proto L L.double
  | string : Proto L L.string
  | unit   : Proto L L.unit
  | json   : Proto L L.json
  | enum {E : Type} [DecidableEq E] (ms : List (E × String)) (hn : (ms.map Prod.fst).Nodup)
      (ht : ∀ e, ∃ s, (e, s) ∈ ms) : Proto L (L.enumCodec ms)
  | newtype {Tag A : Type} {c : Codec A} (h : Proto L c) : Proto L (L.newtypeCodec c : Codec (Newtype Tag A))
  | list {A : Type} {c : Codec A} (h : Proto L c) : Proto L (L.listCodec c)
  | record {T : Type} (init : T) (fs : List (FieldSpec T)) (hn : (fs.map FieldSpec.key).Nodup)
      (hm : ∀ f ∈ fs, f.key = "_meta" → ∃ m, f = metaField "_meta" m)
      (h : ∀ f ∈ fs, ∀ {k : String} {A : Type} {c : Codec A}, f.Via k c → Proto L c) : Proto L (L.record init fs)
  | sum {S : Type} (tag : String) (arms : List (Arm S)) (ht : tag ≠ "_meta") (hc : ArmsCover arms)
      (h : ∀ b ∈ arms, Proto L b.codec) : Proto L (L.sumTagged tag arms)
  | embeddedResource (ht : Proto L (L.codec TextResource)) (hb : Proto L (L.codec BlobResource)) :
      Proto L (L.codec EmbeddedResource)
  | poCancelled : Proto L (L.codec PoCancelled)
  | mcpServer (ho : Proto L (L.codec StdioMcpServer)) (hh : Proto L (L.codec HttpMcpServer))
      (hs : Proto L (L.codec SseMcpServer)) : Proto L (L.codec McpServer)
  | configSelectOptions (hu : Proto L (L.codec (List ConfigSelectOption)))
      (hg : Proto L (L.codec (List ConfigSelectGroup))) : Proto L (L.codec ConfigSelectOptions)
  | configOption (h : Proto L (L.codec ConfigSelectOptions)) : Proto L (L.codec ConfigOption)
  | availableCommandInput (h : Proto L (L.codec UnstructuredCommandInput)) : Proto L (L.codec AvailableCommandInput)
  | clientSessionCapabilities : Proto L (L.codec ClientSessionCapabilities)
  | clientCapabilities (h : Proto L (ClientCapabilities.base L)) : Proto L (L.codec ClientCapabilities)
  | authMethod : Proto L (L.codec AuthMethod)
  | suToolCall (h : Proto L (L.codec ToolCall)) : Proto L (L.codec SuToolCall)
  | suToolCallUpdate (h : Proto L (L.codec ToolCallUpdate)) : Proto L (L.codec SuToolCallUpdate)

end Acp
