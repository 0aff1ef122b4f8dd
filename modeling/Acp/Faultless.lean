import Acp.Escape
/-!
# Faultless — which payloads reach a malformed object

A decoder that reaches none of the four hand-written ones of `Escape` throws nothing but the library's own error,
whatever it reads.  The params of a prompt, of a permission request and of an initialize have such decoders
(`faultless_payloads`), and every other payload can reach a malformed object (`faulting_payloads`).
-/
namespace Acp

open Wire

/-- The decoder throws nothing but the library's own error. -/
def OwnErrors {α : Type} (c : Codec α) : Prop := ∀ j, ¬ Escapes (c.decode j)

def OwnFields {T : Type} (fs : List (FieldSpec T)) : Prop :=
  ∀ f ∈ fs, ∀ {A : Type} {c : Codec A}, f.Via f.key c → OwnErrors c

def OwnArms {S : Type} (bs : List (Arm S)) : Prop := ∀ b ∈ bs, OwnErrors b.codec

/-- A type whose decoder throws nothing but the library's own error. -/
class Faultless (α : Type) [CodecOf α] : Prop where
  own : ∀ {L : Jsonrpc}, L.Lawful → OwnErrors (L.codec α)

class RecordFaultless (α : Type) [Record α] : Prop where
  own : ∀ {L : Jsonrpc}, L.Lawful → OwnFields (Record.fields L : List (FieldSpec α))

class SumFaultless (α : Type) [TaggedSum α] : Prop where
  own : ∀ {L : Jsonrpc}, L.Lawful → OwnArms (TaggedSum.arms L : List (Arm α))

/-! ## Fields and arms -/

section Parts

variable {L : Jsonrpc} (hL : L.Lawful) {T A : Type} [CodecOf A] [Faultless A] {fs : List (FieldSpec T)} {k : String}
  {S : Type} {bs : List (Arm S)}

theorem OwnFields.nil : OwnFields ([] : List (FieldSpec T)) := fun f hf => by cases hf

theorem OwnFields.cons {f : FieldSpec T} (hf : ∀ {A : Type} {c : Codec A}, f.Via f.key c → OwnErrors c)
    (h : OwnFields fs) : OwnFields (f :: fs) := fun g hg => by
  rcases List.mem_cons.1 hg with rfl | hg
  · exact hf
  · exact h g hg

theorem OwnFields.meta_ {m : Member T Json} (h : OwnFields fs) : OwnFields (metaField k m :: fs) :=
  h.cons (fun hv => by cases hv)

theorem OwnArms.nil : OwnArms ([] : List (Arm S)) := fun b hb => by cases hb

include hL

theorem OwnFields.required {m : Member T A} (h : OwnFields fs) : OwnFields (L.required k m :: fs) :=
  h.cons (fun hv => by cases hv; exact Faultless.own hL)

theorem OwnFields.optional {m : Member T (Option A)} (h : OwnFields fs) : OwnFields (L.optional k m :: fs) :=
  h.cons (fun hv => by cases hv; exact Faultless.own hL)

theorem OwnFields.defaulted {m : Member T A} {d : A} (h : OwnFields fs) : OwnFields (L.defaulted k m d :: fs) :=
  h.cons (fun hv => by cases hv; exact Faultless.own hL)

theorem OwnArms.arm {alt : Alt S A} (h : OwnArms bs) : OwnArms (L.arm k alt :: bs) := fun b hb => by
  rcases List.mem_cons.1 hb with rfl | hb
  · exact Faultless.own (α := A) hL
  · exact h b hb

/-- **A record escapes only where the codec of a field does.** -/
theorem OwnFields.record (init : T) (h : OwnFields fs) : OwnErrors (L.record init fs) := by
  intro j hj
  by_cases ho : j.isObject = true
  · obtain ⟨o, rfl⟩ := (Json.isObject_iff j).1 ho
    rw [hL.record_decode] at hj
    obtain ⟨pre, f, post, t, rfl, -, hf⟩ := (escapes_foldlM fs init).1 hj
    obtain ⟨A, c, x, hv, -, hc⟩ := hL.escapes_read_inv hf
    exact h f (List.mem_append_right _ List.mem_cons_self) hv x hc
  · obtain ⟨msg, he⟩ := hL.record_decode_other init fs j (by simpa using ho)
    exact not_escapes_codecError msg (he ▸ hj)

/-- A sum escapes only where the codec of an arm does. -/
theorem OwnArms.sum (tag : String) (h : OwnArms bs) : OwnErrors (L.sumTagged tag bs) := by
  intro j hj
  by_cases ht : ∃ b ∈ bs, j.find? tag = some (.str b.label)
  · obtain ⟨b, hb, hl⟩ := ht
    cases j with
    | obj o =>
      obtain ⟨b', hb'⟩ := Option.isSome_iff_exists.1
        (List.find?_isSome.2 ⟨b, hb, by simp⟩ : (bs.find? (fun b' => b'.label == b.label)).isSome = true)
      exact h b' (List.mem_of_find?_eq_some hb') _ ((hL.sum_decode tag bs b' _ o hl hb').escapes_iff.1 hj)
    | _ => cases hl
  · obtain ⟨msg, he⟩ := hL.sum_decode_other tag bs j (fun b hb hl => ht ⟨b, hb, hl⟩)
    exact not_escapes_codecError msg (he ▸ hj)

end Parts

/-! ## Types -/

section Types

variable {α A Tag : Type}

instance [Record α] [RecordFaultless α] : Faultless α := ⟨fun hL => (RecordFaultless.own hL).record hL _⟩
instance [TaggedSum α] [SumFaultless α] : Faultless α := ⟨fun hL => (SumFaultless.own hL).sum hL _⟩
instance [DecidableEq α] [StringEnum α] : Faultless α := ⟨fun hL j ⟨e, he, hk⟩ => by
  rw [hL.enum_throws _ j e he] at hk; cases hk⟩
instance [CodecOf A] [Faultless A] : Faultless (Newtype Tag A) := ⟨fun hL j h =>
  Faultless.own hL j ((hL.newtype_decode _ j).escapes_iff.1 h)⟩
instance : Faultless Bool := ⟨fun hL => not_escapes_primitive hL.bool⟩
instance : Faultless Int32 := ⟨fun hL => not_escapes_primitive hL.int⟩
instance : Faultless Int64 := ⟨fun hL => not_escapes_primitive hL.int64⟩
instance : Faultless Double := ⟨fun hL => not_escapes_primitive hL.double⟩
instance : Faultless String := ⟨fun hL => not_escapes_primitive hL.string⟩
instance : Faultless Json := ⟨fun hL j h => not_escapes_ok j (hL.json_decode j ▸ h)⟩

instance [CodecOf A] [Faultless A] : Faultless (List A) where
  own hL j h := by
    by_cases hj : j.isArray = true
    · obtain ⟨xs, rfl⟩ := (Json.isArray_iff j).1 hj
      obtain ⟨pre, x, post, as, rfl, -, hx⟩ := (escapes_mapM xs).1 ((hL.list_decode _ xs).escapes_iff.1 h)
      exact Faultless.own hL x hx
    · obtain ⟨msg, he⟩ := hL.list_decode_other _ j (by simpa using hj)
      exact not_escapes_codecError msg (he ▸ h)

end Types

instance : RecordFaultless Annotations where
  own hL := .optional hL <| .optional hL <| .optional hL <| .meta_ .nil

instance : RecordFaultless TextResource where
  own hL := .required hL <| .required hL <| .optional hL <| .meta_ .nil

instance : RecordFaultless BlobResource where
  own hL := .required hL <| .required hL <| .optional hL <| .meta_ .nil

instance : Faultless EmbeddedResource where
  own hL j h := by
    cases j with
    | obj o =>
      rw [embeddedResource_decode] at h
      split at h
      · exact Faultless.own hL _ (escapes_map.1 h)
      · split at h
        · exact Faultless.own hL _ (escapes_map.1 h)
        · exact not_escapes_codecError _ h
    | _ => exact not_escapes_codecError _ h

instance : RecordFaultless TextContent where
  own hL := .required hL <| .optional hL <| .meta_ .nil

instance : RecordFaultless ImageContent where
  own hL := .required hL <| .required hL <| .optional hL <| .optional hL <| .meta_ .nil

instance : RecordFaultless AudioContent where
  own hL := .required hL <| .required hL <| .optional hL <| .meta_ .nil

instance : RecordFaultless ResourceLinkContent where
  own hL := .required hL <| .required hL <| .optional hL <| .optional hL <| .optional hL <| .optional hL <|
    .optional hL <| .meta_ .nil

instance : RecordFaultless ResourceContent where
  own hL := .required hL <| .optional hL <| .meta_ .nil

instance : SumFaultless ContentBlock where
  own hL := .arm hL <| .arm hL <| .arm hL <| .arm hL <| .arm hL .nil

instance : RecordFaultless TccContent where
  own hL := .required hL <| .meta_ .nil

instance : RecordFaultless TccDiff where
  own hL := .required hL <| .optional hL <| .required hL <| .meta_ .nil

instance : RecordFaultless TccTerminal where
  own hL := .required hL <| .meta_ .nil

instance : SumFaultless ToolCallContent where
  own hL := .arm hL <| .arm hL <| .arm hL .nil

instance : RecordFaultless ToolCallLocation where
  own hL := .required hL <| .optional hL <| .meta_ .nil

instance : RecordFaultless ToolCallUpdate where
  own hL := .required hL <| .optional hL <| .optional hL <| .optional hL <| .optional hL <| .optional hL <|
    .optional hL <| .optional hL <| .optional hL <| .meta_ .nil

instance : RecordFaultless PermissionOption where
  own hL := .required hL <| .required hL <| .defaulted hL <| .meta_ .nil

instance : RecordFaultless RequestPermissionParams where
  own hL := .required hL <| .required hL <| .required hL <| .meta_ .nil

instance : RecordFaultless PromptParams where
  own hL := .required hL <| .required hL <| .meta_ .nil

instance : RecordFaultless FsCapabilities where
  own hL := .defaulted hL <| .defaulted hL .nil

instance : Faultless ClientSessionCapabilities := ⟨fun _ _ => not_escapes_ok _⟩

instance : Faultless ClientCapabilities where
  own hL j h := by
    rw [clientCapabilities_decode] at h
    exact (OwnFields.defaulted hL <| .defaulted hL <| .defaulted hL <| .meta_ .nil).record hL _ j (escapes_map.1 h)

instance : RecordFaultless ImplementationInfo where
  own hL := .required hL <| .optional hL <| .optional hL .nil

instance (b : Build) : RecordFaultless (InitializeParams b) where
  own hL := .defaulted hL <| .defaulted hL <| .optional hL <| .meta_ .nil

/-- **Three payloads reach no malformed object**, whatever is decoded as them. -/
theorem faultless_payloads {L : Jsonrpc} (hL : L.Lawful) (b : Build) (j : Json) :
    ¬ RawFault L (L.codec RequestPermissionParams) j ∧ ¬ RawFault L (L.codec PromptParams) j ∧
      ¬ RawFault L (L.codec (InitializeParams b)) j :=
  ⟨fun h => Faultless.own hL j (h.escapes hL), fun h => Faultless.own hL j (h.escapes hL),
    fun h => Faultless.own hL j (h.escapes hL)⟩

/-- **Every other payload can reach one.** -/
theorem faulting_payloads (b : Build) :
    (∃ j, RawFault reference (reference.codec SessionUpdateMsg) j) ∧
    (∃ j, RawFault reference (reference.codec NewSessionParams) j) ∧
    (∃ j, RawFault reference (reference.codec LoadSessionParams) j) ∧
    (∃ j, RawFault reference (reference.codec NewSessionResult) j) ∧
    (∃ j, RawFault reference (reference.codec ResumeSessionResult) j) ∧
    (∃ j, RawFault reference (reference.codec SetConfigOptionResult) j) ∧
    ∃ j, RawFault reference (reference.codec (InitializeResult b)) j := by
  have hfault : ∀ {α : Type} [CodecOf α], DecodedPayload α → ∀ j, Escapes (reference.fromJson α j) →
      ∃ j, RawFault reference (reference.codec α) j := fun h j he =>
    ⟨j, (escapes_iff_rawFault reference_lawful (h.proto reference_lawful) j).1 he⟩
  -- a config option or a method that has no id, a server whose type is not a string
  let options : Json := .arr [Json.object]
  let servers : Json := .arr [.obj ((∅ : Json.Members).insert "type" .null)]
  let update : Json := .obj (((∅ : Json.Members).insert "sessionUpdate" (.str "config_option_update")).insert
    "configOptions" options)
  exact ⟨
    hfault .sessionUpdateMsg (.obj (((∅ : Json.Members).insert "sessionId" (.str "s")).insert "update" update))
      ⟨_, rfl, rfl⟩,
    hfault .newSessionParams (.obj (((∅ : Json.Members).insert "cwd" (.str "/")).insert "mcpServers" servers))
      ⟨_, rfl, rfl⟩,
    hfault .loadSessionParams (.obj ((((∅ : Json.Members).insert "sessionId" (.str "s")).insert "cwd"
      (.str "/")).insert "mcpServers" servers)) ⟨_, rfl, rfl⟩,
    hfault .newSessionResult (.obj (((∅ : Json.Members).insert "sessionId" (.str "s")).insert "configOptions" options))
      ⟨_, rfl, rfl⟩,
    hfault .resumeSessionResult (.obj ((∅ : Json.Members).insert "configOptions" options)) ⟨_, rfl, rfl⟩,
    hfault .setConfigOptionResult (.obj ((∅ : Json.Members).insert "configOptions" options)) ⟨_, rfl, rfl⟩,
    hfault (.initializeResult b) (.obj ((∅ : Json.Members).insert "authMethods" options)) ⟨_, rfl, rfl⟩⟩

end Acp
