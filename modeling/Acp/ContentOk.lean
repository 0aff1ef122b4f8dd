import Acp.Conforms
/-!
# ContentOk — content blocks and tool calls conform

A content block or a tool call comes back as it is, but for `rawInput` and `rawOutput`.  The arms of every sum skip its
tag; an embedded resource is told apart by its own two keys.
-/
namespace Acp

open Wire

instance : EnumOk Role := ⟨by decide, by decide, fun e => by cases e <;> simp [StringEnum.mappings]⟩
instance : EnumOk ToolKind := ⟨by decide, by decide, fun e => by cases e <;> simp [StringEnum.mappings]⟩
instance : EnumOk ToolCallStatus := ⟨by decide, by decide, fun e => by cases e <;> simp [StringEnum.mappings]⟩
instance : EnumOk PlanEntryPriority := ⟨by decide, by decide, fun e => by cases e <;> simp [StringEnum.mappings]⟩
instance : EnumOk PlanEntryStatus := ⟨by decide, by decide, fun e => by cases e <;> simp [StringEnum.mappings]⟩
instance : EnumOk PermissionOptionKind := ⟨by decide, by decide, fun e => by cases e <;> simp [StringEnum.mappings]⟩

/-! ## Content -/

instance : RecordOk Annotations where
  fits hL := .optional hL <| .optional hL <| .optional hL <| .meta_ hL .nil

instance : RecordOk TextResource where
  fits hL := .required hL <| .required hL <| .optional hL <| .meta_ hL .nil

instance : RecordOk BlobResource where
  fits hL := .required hL <| .required hL <| .optional hL <| .meta_ hL .nil

section EmbeddedResource

variable {L : Jsonrpc} {o : Json.Members} {y : Json}

theorem embeddedResource_decode (o : Json.Members) : (L.codec EmbeddedResource).decode (.obj o) =
    if (o.find? "text").isSome then .text <$> L.fromJson TextResource (.obj o)
    else if (o.find? "blob").isSome then .blob <$> L.fromJson BlobResource (.obj o)
    else .error (.codecError "EmbeddedResource: must contain 'text' or 'blob'") := rfl

theorem embeddedResource_decode_of_text (ht : o.find? "text" = some y) :
    (L.codec EmbeddedResource).decode (.obj o) = .text <$> (L.codec TextResource).decode (.obj o) := by
  rw [embeddedResource_decode, ht]; rfl

theorem embeddedResource_decode_of_blob (ht : o.find? "text" = none) (hb : o.find? "blob" = some y) :
    (L.codec EmbeddedResource).decode (.obj o) = .blob <$> (L.codec BlobResource).decode (.obj o) := by
  rw [embeddedResource_decode, ht, hb]; rfl

theorem embeddedResource_decode_inv {j : Json} {v : EmbeddedResource}
    (h : (L.codec EmbeddedResource).decode j = .ok v) :
    (∃ x, v = .text x ∧ (L.codec TextResource).decode j = .ok x) ∨
      ∃ x, v = .blob x ∧ (L.codec BlobResource).decode j = .ok x ∧ j.find? "text" = none := by
  cases j with
  | obj o =>
    cases ht : o.find? "text" with
    | some y =>
      rw [embeddedResource_decode_of_text ht] at h
      obtain ⟨x, hx, rfl⟩ := map_ok_inv h
      exact .inl ⟨x, rfl, hx⟩
    | none =>
      rw [embeddedResource_decode, ht, if_neg (by simp)] at h
      split at h
      · obtain ⟨x, hx, rfl⟩ := map_ok_inv h
        exact .inr ⟨x, rfl, hx, ht⟩
      · cases h
  | _ => cases h

end EmbeddedResource

/-- **An embedded resource is read by the arm that wrote it**: only a text resource has the key `text`. -/
instance : Conforms EmbeddedResource where
  retract {L} hL :=
    { loop := fun v hv => by
        cases v with
        | text x =>
          have hx := (Conforms.retract hL).loop x hv
          have hk := find?_required hL "text" ⟨TextResource.text, fun v a => { v with text := a }⟩ (.tail _ (.head _)) x
          show (L.codec EmbeddedResource).decode ((L.codec TextResource).encode x) = _
          rw [record_encode_obj hL] at hx ⊢
          rw [embeddedResource_decode_of_text hk, hx]; rfl
        | blob x =>
          have hx := (Conforms.retract hL).loop x hv
          have hk := find?_required hL "blob" ⟨BlobResource.blob, fun v a => { v with blob := a }⟩ (.tail _ (.head _)) x
          have ht : (L.writeAll (Record.fields L) x ∅).find? "text" = none :=
            find?_writeAll_empty_of_notMem
              (by simp [Record.fields, FieldSpec.key, Jsonrpc.required, Jsonrpc.optional, metaField]) x
          show (L.codec EmbeddedResource).decode ((L.codec BlobResource).encode x) = _
          rw [record_encode_obj hL] at hx ⊢
          rw [embeddedResource_decode_of_blob ht hk, hx]; rfl
      lands := fun j v h => by
        rcases embeddedResource_decode_inv h with ⟨x, rfl, hx⟩ | ⟨x, rfl, hx, -⟩ <;>
          exact ⟨((Conforms.retract hL).lands j x hx).1, rfl⟩ }
  proto hL := .embeddedResource (Conforms.proto hL) (Conforms.proto hL)

instance : RecordOk TextContent where
  fits hL := .required hL <| .optional hL <| .meta_ hL .nil

instance : RecordOk ImageContent where
  fits hL := .required hL <| .required hL <| .optional hL <| .optional hL <| .meta_ hL .nil

instance : RecordOk AudioContent where
  fits hL := .required hL <| .required hL <| .optional hL <| .meta_ hL .nil

instance : RecordOk ResourceLinkContent where
  fits hL := .required hL <| .required hL <| .optional hL <| .optional hL <| .optional hL <| .optional hL <|
    .optional hL <| .meta_ hL .nil

instance : RecordOk ResourceContent where
  fits hL := .required hL <| .optional hL <| .meta_ hL .nil

instance : Skips TextContent "type" := .record
instance : Skips ImageContent "type" := .record
instance : Skips AudioContent "type" := .record
instance : Skips ResourceLinkContent "type" := .record
instance : Skips ResourceContent "type" := .record

instance : SumOk ContentBlock where
  fits hL := show AllArms _ "type" _ from .arm hL <| .arm hL <| .arm hL <| .arm hL <| .arm hL .nil

/-! ## Tools -/

instance : RecordOk TccContent where
  fits hL := .required hL <| .meta_ hL .nil

instance : RecordOk TccDiff where
  fits hL := .required hL <| .optional hL <| .required hL <| .meta_ hL .nil

instance : RecordOk TccTerminal where
  fits hL := .required hL <| .meta_ hL .nil

instance : Skips TccContent "type" := .record
instance : Skips TccDiff "type" := .record
instance : Skips TccTerminal "type" := .record

instance : SumOk ToolCallContent where
  fits hL := show AllArms _ "type" _ from .arm hL <| .arm hL <| .arm hL .nil

instance : RecordOk ToolCallLocation where
  fits hL := .required hL <| .optional hL <| .meta_ hL .nil

instance : RecordOk ToolCall where
  fits hL := .required hL <| .required hL <| .optional hL <| .defaulted hL <| .defaulted hL <| .defaulted hL <|
    .defaulted hL <| .optionalJson hL <| .optionalJson hL <| .meta_ hL .nil

instance : RecordOk ToolCallUpdate where
  fits hL := .required hL <| .optional hL <| .optional hL <| .optional hL <| .optional hL <| .optional hL <|
    .optional hL <| .optionalJson hL <| .optionalJson hL <| .meta_ hL .nil

instance : RecordOk PlanEntry where
  fits hL := .required hL <| .defaulted hL <| .defaulted hL <| .meta_ hL .nil

instance : RecordOk PermissionOption where
  fits hL := .required hL <| .required hL <| .defaulted hL <| .meta_ hL .nil

instance : Conforms PoCancelled where
  retract _ := { loop := fun _ _ => rfl, lands := fun _ _ _ => ⟨trivial, rfl⟩ }
  proto _ := .poCancelled

instance : Skips PoCancelled "outcome" where
  object _ _ := ⟨∅, rfl, FinMap.find?_empty _⟩
  skips _ _ _ := rfl

instance : RecordOk PoSelected where
  fits hL := .required hL <| .meta_ hL .nil

instance : Skips PoSelected "outcome" := .record

instance : SumOk RequestPermissionOutcome where
  fits hL := show AllArms _ "outcome" _ from .arm hL <| .arm hL .nil

end Acp
