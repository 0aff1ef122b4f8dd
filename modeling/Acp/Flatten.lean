import Acp.MessagesOk
import Acp.Reference
/-!
# Flatten — a discriminator goes beside the payload

A tagged sum assigns its tag inside the object the arm wrote, and the client's capabilities are laid over the record
that was written before them.  Nothing is overwritten: no arm writes its sum's tag, and the record writes neither of
the overlaid keys (`discriminator_added`).
-/
namespace Acp

open Wire

/-- Every arm writes an object its tag can be put beside. -/
inductive AllAdded (L : Jsonrpc) (tag : String) {S : Type} (all : List (Arm S)) : List (Arm S) → Prop where
  | nil : AllAdded L tag all []
  | cons {b : Arm S} {bs : List (Arm S)}
      (hb : ∀ a, TagAdded (b.codec.encode a) tag b.label ((L.sumTagged tag all).encode (b.alt.inj a)))
      (h : AllAdded L tag all bs) : AllAdded L tag all (b :: bs)

namespace AllAdded

variable {L : Jsonrpc} {tag : String} {S : Type} {all bs : List (Arm S)}

theorem added (h : AllAdded L tag all bs) : ∀ b ∈ bs, ∀ a,
    TagAdded (b.codec.encode a) tag b.label ((L.sumTagged tag all).encode (b.alt.inj a)) := by
  induction h with
  | nil => intro b hb; cases hb
  | cons hb _ ih =>
    intro b' hb'
    rcases List.mem_cons.1 hb' with rfl | hb'
    · exact hb
    · exact ih b' hb'

theorem arm {A : Type} [CodecOf A] [hskip : Skips A tag] {label : String} {alt : Alt S A} (hL : L.Lawful)
    (h : AllAdded L tag all bs)
    (hi : ∀ a, all.find? (fun b' => b'.holds (alt.inj a)) = some (L.arm label alt) ∧
        alt.proj (alt.inj a) = some a := by
      intro a; exact ⟨rfl, rfl⟩) : AllAdded L tag all (L.arm label alt :: bs) :=
  .cons (fun (a : A) => by
    obtain ⟨o, ho, ht⟩ := hskip.object hL a
    exact ⟨o, ho, ht, hL.sum_encode tag all (L.arm label alt) (alt.inj a) a o (hi a).1 (hi a).2 ho⟩) h

end AllAdded

/-- **What a sum writes of a value of one of its arms**: the arm's own object, and the tag beside it. -/
def DiscriminatorAdded (L : Jsonrpc) (S : Type) [TaggedSum S] : Prop :=
  ∀ b ∈ (TaggedSum.arms L : List (Arm S)), ∀ a,
    TagAdded (b.codec.encode a) (TaggedSum.tag S) b.label (L.toJson (b.alt.inj a))

section Sums

variable {L : Jsonrpc} (hL : L.Lawful)
include hL

theorem sessionUpdate_added : DiscriminatorAdded L SessionUpdate :=
  AllAdded.added <| show AllAdded L "sessionUpdate" _ _ from .arm hL <| .arm hL <| .arm hL <| .arm hL <| .arm hL <|
    .arm hL <| .arm hL <| .arm hL <| .arm hL <| .arm hL <| .arm hL <| .arm hL <| .arm hL <| .arm hL .nil

theorem contentBlock_added : DiscriminatorAdded L ContentBlock :=
  AllAdded.added <| show AllAdded L "type" _ _ from .arm hL <| .arm hL <| .arm hL <| .arm hL <| .arm hL .nil

theorem toolCallContent_added : DiscriminatorAdded L ToolCallContent :=
  AllAdded.added <| show AllAdded L "type" _ _ from .arm hL <| .arm hL <| .arm hL .nil

theorem requestPermissionOutcome_added : DiscriminatorAdded L RequestPermissionOutcome :=
  AllAdded.added <| show AllAdded L "outcome" _ _ from .arm hL <| .arm hL .nil

/-- **The arm that a tag names reads the payload the tag was put beside.** -/
theorem sum_reads_tagAdded {S A : Type} [CodecOf A] {tag : String} [Skips A tag] (arms : List (Arm S))
    {label : String} {alt : Alt S A} (hb : arms.find? (fun b => b.label == label) = some (L.arm label alt))
    {payload whole : Json} (h : TagAdded payload tag label whole) :
    Relays ((L.codec A).decode payload) alt.inj ((L.sumTagged tag arms).decode whole) := by
  rw [← tagAdded_decode hL h]
  obtain ⟨o, rfl, -, rfl⟩ := h
  exact hL.sum_decode tag arms (L.arm label alt) label (o.insert tag (.str label)) (FinMap.find?_insert_self _ _ _) hb

theorem suToolCall_added (t : ToolCall) :
    TagAdded (L.toJson t) "sessionUpdate" "tool_call" (L.toJson (SessionUpdate.toolCall ⟨t⟩)) :=
  sessionUpdate_added hL _ (.tail _ <| .tail _ <| .tail _ <| .tail _ (.head _)) ⟨t⟩

theorem suToolCallUpdate_added (u : ToolCallUpdate) :
    TagAdded (L.toJson u) "sessionUpdate" "tool_call_update" (L.toJson (SessionUpdate.toolCallUpdate ⟨u⟩)) :=
  sessionUpdate_added hL _ (.tail _ <| .tail _ <| .tail _ <| .tail _ <| .tail _ (.head _)) ⟨u⟩

theorem clientBase_bare (c : ClientCapabilities) : ∃ o, (ClientCapabilities.base L).encode c = .obj o ∧
    o.find? "auth" = none ∧ o.find? "elicitation" = none :=
  ⟨_, clientBase_encode hL c, find?_writeAll_empty_of_notMem (clientBase_auth_notMem L) c,
    find?_writeAll_empty_of_notMem (clientBase_elicitation_notMem L) c⟩

end Sums

/-- **Merging a discriminator overwrites nothing**, in every arm of every sum, and a flattened arm without its tag is
the tool call it carries. -/
theorem discriminator_added (L : Jsonrpc) (hL : L.Lawful) :
    (DiscriminatorAdded L SessionUpdate ∧ DiscriminatorAdded L ContentBlock ∧ DiscriminatorAdded L ToolCallContent ∧
      DiscriminatorAdded L RequestPermissionOutcome) ∧
    (∀ x : HttpMcpServer, TagAdded (L.toJson x) "type" "http" (L.toJson (McpServer.http x))) ∧
    (∀ x : SseMcpServer, TagAdded (L.toJson x) "type" "sse" (L.toJson (McpServer.sse x))) ∧
    (∀ c : ClientCapabilities, ∃ o, (ClientCapabilities.base L).encode c = .obj o ∧
      o.find? "auth" = none ∧ o.find? "elicitation" = none) ∧
    (∀ t : ToolCall, (L.toJson (SessionUpdate.toolCall ⟨t⟩)).erase "sessionUpdate" = L.toJson t) ∧
    ∀ u : ToolCallUpdate, (L.toJson (SessionUpdate.toolCallUpdate ⟨u⟩)).erase "sessionUpdate" = L.toJson u :=
  ⟨⟨sessionUpdate_added hL, contentBlock_added hL, toolCallContent_added hL, requestPermissionOutcome_added hL⟩,
    fun x => tagAdded_set hL "type" "http" x, fun x => tagAdded_set hL "type" "sse" x, clientBase_bare hL,
    fun t => (suToolCall_added hL t).erase, fun u => (suToolCallUpdate_added hL u).erase⟩

theorem discriminator_added_toolCall :
    (reference.toJson (SessionUpdate.toolCall ⟨{ toolCallId := ⟨"c"⟩, title := "T" }⟩)).erase "sessionUpdate" =
      reference.toJson ({ toolCallId := ⟨"c"⟩, title := "T" } : ToolCall) :=
  (discriminator_added reference reference_lawful).2.2.2.2.1 { toolCallId := ⟨"c"⟩, title := "T" }

end Acp
