import Acp.SessionOk
import Acp.Reference
/-!
# Dispatch — which arm a sum without a tag of its own picks

Three decoders pick an arm by hand: an MCP server by its `type`, an embedded resource by its `text`, a select-option
list by the `group` of its first item.  An MCP server's transport is the one its object names, but that an unknown
`type` falls through to stdio (`mcpServer_transport_iff`); the two untagged sums take what an arm takes, unless the key
that picks the arm is there for another reason (`untagged_accepts`).
-/
namespace Acp

open Wire

/-! ## MCP servers -/

/-- How an MCP server is reached. -/
inductive Transport where
  | stdio
  | http
  | sse
  deriving DecidableEq, Repr

def McpServer.transport : McpServer → Transport
  | .stdio _ => .stdio
  | .http _  => .http
  | .sse _   => .sse

/-- **The transport an object names**: by its `type`, and stdio by having none. -/
inductive Names : Transport → Json → Prop where
  | untyped {o : Json.Members} (h : o.find? "type" = none) : Names .stdio (.obj o)
  | stdio {o : Json.Members} (h : o.find? "type" = some (.str "stdio")) : Names .stdio (.obj o)
  | http {o : Json.Members} (h : o.find? "type" = some (.str "http")) : Names .http (.obj o)
  | sse {o : Json.Members} (h : o.find? "type" = some (.str "sse")) : Names .sse (.obj o)

/-- The server that a transport's record reads. -/
def Transport.decode (L : Jsonrpc) (j : Json) : Transport → Except Exn McpServer
  | .stdio => .stdio <$> L.fromJson StdioMcpServer j
  | .http  => .http <$> L.fromJson HttpMcpServer j
  | .sse   => .sse <$> L.fromJson SseMcpServer j

/-- **`j` is read as the transport it names**, and sent on as that. -/
structure TransportKept (L : Jsonrpc) (j : Json) : Prop where
  named   : ∀ v, L.fromJson McpServer j = .ok v → Names v.transport j
  rejects : ∀ o, j = .obj o → (∀ t, ¬ Names t j) → ∀ v, L.fromJson McpServer j ≠ .ok v
  accepts : ∀ v, L.fromJson McpServer j = .ok v ↔ ∃ t, Names t j ∧ t.decode L j = .ok v
  resent  : ∀ v, L.fromJson McpServer j = .ok v → Names v.transport (L.toJson v)

/-- A `type` of another name, on an object that has all a stdio server needs (member by member: `fallsThrough_iff`). -/
def FallsThrough (L : Jsonrpc) (j : Json) : Prop :=
  ∃ t x, t ∉ ["stdio", "http", "sse"] ∧ j.find? "type" = some (.str t) ∧ L.fromJson StdioMcpServer j = .ok x

theorem Transport.decode_transport {L : Jsonrpc} {j : Json} {t : Transport} {v : McpServer}
    (h : t.decode L j = .ok v) : v.transport = t := by
  cases t <;> obtain ⟨x, -, rfl⟩ := map_ok_inv h <;> rfl

theorem mcpServerOf_http (L : Jsonrpc) (j : Json) : mcpServerOf L "http" j = Transport.http.decode L j := rfl

theorem mcpServerOf_sse (L : Jsonrpc) (j : Json) : mcpServerOf L "sse" j = Transport.sse.decode L j := rfl

theorem mcpServerOf_other (L : Jsonrpc) (j : Json) {t : String} (hh : t ≠ "http") (hs : t ≠ "sse") :
    mcpServerOf L t j = Transport.stdio.decode L j := by
  unfold mcpServerOf
  rw [if_neg hh, if_neg hs]; rfl

/-- **An object that names a transport is read by that transport's record.** -/
theorem mcpServer_decode_of_names {L : Jsonrpc} {t : Transport} {j : Json} (h : Names t j) :
    (L.codec McpServer).decode j = t.decode L j := by
  cases h with
  | untyped h => rw [mcpServer_decode_of_untyped h, mcpServerOf_other L _ (by decide) (by decide)]
  | stdio h => rw [mcpServer_decode_of_type h, mcpServerOf_other L _ (by decide) (by decide)]
  | http h => rw [mcpServer_decode_of_type h, mcpServerOf_http]
  | sse h => rw [mcpServer_decode_of_type h, mcpServerOf_sse]

/-- **A server is read from an object that names its transport, or falls through.** -/
theorem mcpServer_decode_inv {L : Jsonrpc} {j : Json} {v : McpServer} (h : (L.codec McpServer).decode j = .ok v) :
    (∃ t, Names t j) ∨ FallsThrough L j := by
  cases j with
  | obj o =>
    cases ht : o.find? "type" with
    | none => exact .inl ⟨_, .untyped ht⟩
    | some y =>
      rw [mcpServer_decode, Json.value_of_some ht] at h
      obtain ⟨t, hy, hd⟩ := bind_ok_inv h
      obtain rfl := Json.getString_ok hy
      by_cases hn : t ∈ ["stdio", "http", "sse"]
      · simp only [List.mem_cons, List.not_mem_nil, or_false] at hn
        rcases hn with rfl | rfl | rfl
        · exact .inl ⟨_, .stdio ht⟩
        · exact .inl ⟨_, .http ht⟩
        · exact .inl ⟨_, .sse ht⟩
      · have hne := hn
        simp only [List.mem_cons, List.not_mem_nil, or_false, not_or] at hne
        rw [mcpServerOf_other L _ hne.2.1 hne.2.2] at hd
        obtain ⟨x, hx, -⟩ := map_ok_inv hd
        exact .inr ⟨t, x, hn, ht, hx⟩
  | _ => cases h

theorem FallsThrough.not_names {L : Jsonrpc} {j : Json} (h : FallsThrough L j) (t : Transport) : ¬ Names t j := by
  obtain ⟨s, x, hs, hj, -⟩ := h
  intro hn
  cases hn with
  | untyped h => rw [Json.find?_obj, h] at hj; cases hj
  | stdio h | http h | sse h =>
    rw [Json.find?_obj, h] at hj
    cases hj
    simp at hs

/-- What falls through is read as a stdio server. -/
theorem FallsThrough.decode {L : Jsonrpc} {j : Json} (h : FallsThrough L j) :
    ∃ x, (L.codec McpServer).decode j = .ok (.stdio x) := by
  obtain ⟨t, x, ht, hj, hx⟩ := h
  cases j with
  | obj o =>
    simp only [List.mem_cons, List.not_mem_nil, or_false, not_or] at ht
    refine ⟨x, ?_⟩
    rw [mcpServer_decode_of_type hj, mcpServerOf_other L _ ht.2.1 ht.2.2]
    exact congrArg (McpServer.stdio <$> ·) hx
  | _ => cases hj

/-- **What is sent of a server names its transport.** -/
theorem mcpServer_encode_names {L : Jsonrpc} (hL : L.Lawful) (v : McpServer) : Names v.transport (L.toJson v) := by
  cases v with
  | stdio x =>
    obtain ⟨o, ho, ht⟩ := Skips.object (α := StdioMcpServer) (t := "type") hL x
    show Names .stdio ((L.codec StdioMcpServer).encode x)
    rw [ho]
    exact .untyped ht
  | http x =>
    obtain ⟨o, -, -, hw⟩ := tagAdded_set hL "type" "http" x
    rw [show L.toJson (McpServer.http x) = _ from hw]
    exact .http (FinMap.find?_insert_self _ _ _)
  | sse x =>
    obtain ⟨o, -, -, hw⟩ := tagAdded_set hL "type" "sse" x
    rw [show L.toJson (McpServer.sse x) = _ from hw]
    exact .sse (FinMap.find?_insert_self _ _ _)

/-- **A transport is misread exactly where an unknown `type` falls through.** -/
theorem mcpServer_transport_iff (L : Jsonrpc) (hL : L.Lawful) (j : Json) :
    TransportKept L j ↔ ¬ FallsThrough L j := by
  constructor
  · intro h hf
    obtain ⟨x, hx⟩ := hf.decode
    exact hf.not_names _ (h.named _ hx)
  · intro hf
    have hnames : ∀ v, (L.codec McpServer).decode j = .ok v → ∃ t, Names t j ∧ t.decode L j = .ok v := by
      intro v hv
      obtain ⟨t, ht⟩ := (mcpServer_decode_inv hv).resolve_right hf
      exact ⟨t, ht, mcpServer_decode_of_names ht ▸ hv⟩
    refine ⟨fun v hv => ?_, fun o _ hn v hv => ?_, fun v => ⟨hnames v, ?_⟩, fun v _ => mcpServer_encode_names hL v⟩
    · obtain ⟨t, ht, hd⟩ := hnames v hv
      rw [Transport.decode_transport hd]
      exact ht
    · obtain ⟨t, ht, -⟩ := hnames v hv
      exact hn t ht
    · rintro ⟨t, ht, hd⟩
      exact (mcpServer_decode_of_names ht).trans hd

theorem mcpServer_transport_iff_http : TransportKept reference
    (.obj (((∅ : Json.Members).insert "type" (.str "http")).insert "name" (.str "n") |>.insert "url" (.str "u"))) := by
  refine (mcpServer_transport_iff reference reference_lawful _).2 ?_
  rintro ⟨t, x, ht, hj, -⟩
  cases hj
  simp at ht

/-- A transport of a later version, with a name and a command, is a command to spawn. -/
theorem websocket_read_as_stdio :
    ¬ TransportKept reference (.obj (((∅ : Json.Members).insert "type" (.str "websocket")).insert
      "name" (.str "n") |>.insert "command" (.str "c"))) := by
  intro h
  have hd : reference.fromJson McpServer (.obj (((∅ : Json.Members).insert "type" (.str "websocket")).insert
      "name" (.str "n") |>.insert "command" (.str "c"))) = .ok (.stdio { name := "n", command := "c" }) := rfl
  have hn := h.named _ hd
  generalize hj : Json.obj _ = j at hn
  cases hn with
  | untyped ht | stdio ht =>
    cases hj
    simp [FinMap.find?_insert] at ht

/-! ## Untagged sums -/

/-- **`r` is what one of two readings gives**: what the first accepts, and what the second does where `p`. -/
structure ReadsEither {α β γ : Type} (a : Except Exn α) (b : Except Exn β) (inl : α → γ) (inr : β → γ) (p : Prop)
    (r : Except Exn γ) : Prop where
  accepts : (∃ v, r = .ok v) ↔ (∃ x, a = .ok x) ∨ (∃ y, b = .ok y) ∧ p
  result  : ∀ v, r = .ok v → (∃ x, a = .ok x ∧ v = inl x) ∨ ∃ y, b = .ok y ∧ v = inr y

/-- The two arms of an embedded resource, the blob's where `p`. -/
def ResourceReadsEither (L : Jsonrpc) (p : Json → Prop) (j : Json) : Prop :=
  ReadsEither (L.fromJson TextResource j) (L.fromJson BlobResource j) .text .blob (p j) (L.fromJson EmbeddedResource j)

/-- The two arms of a select-option list, that of the bare options where `p`. -/
def OptionsReadEither (L : Jsonrpc) (p : Json → Prop) (j : Json) : Prop :=
  ReadsEither (L.fromJson (List ConfigSelectGroup) j) (L.fromJson (List ConfigSelectOption) j) .grouped .ungrouped
    (p j) (L.fromJson ConfigSelectOptions j)

theorem textResource_has_text {L : Jsonrpc} (hL : L.Lawful) {j : Json} {x : TextResource}
    (h : L.fromJson TextResource j = .ok x) : ∃ y, j.find? "text" = some y := by
  obtain ⟨y, -, hy, -⟩ := hL.record_required
    (m := ⟨TextResource.text, fun v a => { v with text := a }⟩) (c := L.codec String) (.tail _ (.head _)) h
  exact ⟨y, hy⟩

theorem blobResource_has_blob {L : Jsonrpc} (hL : L.Lawful) {j : Json} {x : BlobResource}
    (h : L.fromJson BlobResource j = .ok x) : ∃ y, j.find? "blob" = some y := by
  obtain ⟨y, -, hy, -⟩ := hL.record_required
    (m := ⟨BlobResource.blob, fun v a => { v with blob := a }⟩) (c := L.codec String) (.tail _ (.head _)) h
  exact ⟨y, hy⟩

theorem configSelectGroup_has_group {L : Jsonrpc} (hL : L.Lawful) {j : Json} {x : ConfigSelectGroup}
    (h : L.fromJson ConfigSelectGroup j = .ok x) : ∃ y, j.find? "group" = some y := by
  obtain ⟨y, -, hy, -⟩ := hL.record_required
    (m := ⟨ConfigSelectGroup.group, fun v a => { v with group := a }⟩) (c := L.codec String) (.head _) h
  exact ⟨y, hy⟩

/-- **An embedded resource is a text, or a blob without the key `text`.** -/
theorem embeddedResource_readsEither {L : Jsonrpc} (hL : L.Lawful) (j : Json) :
    ResourceReadsEither L (fun j => j.find? "text" = none) j where
  accepts := by
    constructor
    · rintro ⟨v, hv⟩
      rcases embeddedResource_decode_inv hv with ⟨x, -, hx⟩ | ⟨x, -, hx, ht⟩
      · exact .inl ⟨x, hx⟩
      · exact .inr ⟨⟨x, hx⟩, ht⟩
    · rintro (⟨x, hx⟩ | ⟨⟨x, hx⟩, ht⟩)
      · obtain ⟨y, hy⟩ := textResource_has_text hL hx
        obtain ⟨o, rfl, -⟩ := hL.record_decode_inv hx
        exact ⟨.text x, (embeddedResource_decode_of_text hy).trans (congrArg (EmbeddedResource.text <$> ·) hx)⟩
      · obtain ⟨y, hy⟩ := blobResource_has_blob hL hx
        obtain ⟨o, rfl, -⟩ := hL.record_decode_inv hx
        exact ⟨.blob x, (embeddedResource_decode_of_blob ht hy).trans (congrArg (EmbeddedResource.blob <$> ·) hx)⟩
  result v hv := by
    rcases embeddedResource_decode_inv hv with ⟨x, rfl, hx⟩ | ⟨x, rfl, hx, -⟩
    · exact .inl ⟨x, hx, rfl⟩
    · exact .inr ⟨x, hx, rfl⟩

/-- The first item, if there is one, has no `group`. -/
def FrontBare (j : Json) : Prop := ∀ x xs, j = .arr (x :: xs) → x.find? "group" = none

theorem frontHasGroup_iff (x : Json) (xs : List Json) :
    frontHasGroup (x :: xs) = true ↔ ∃ y, x.find? "group" = some y := by
  cases x with
  | obj o => rw [frontHasGroup_obj, Option.isSome_iff_exists]; rfl
  | _ => simp [frontHasGroup, Json.isObject, Json.find?]

theorem configSelectOptions_decode_inv {L : Jsonrpc} {j : Json} {v : ConfigSelectOptions}
    (h : (L.codec ConfigSelectOptions).decode j = .ok v) :
    (∃ x, v = .grouped x ∧ L.fromJson (List ConfigSelectGroup) j = .ok x) ∨
      ∃ x, v = .ungrouped x ∧ L.fromJson (List ConfigSelectOption) j = .ok x ∧ FrontBare j := by
  cases j with
  | arr xs =>
    rw [configSelectOptions_decode] at h
    split at h
    · obtain ⟨x, hx, rfl⟩ := map_ok_inv h
      exact .inl ⟨x, rfl, hx⟩
    · rename_i hg
      obtain ⟨x, hx, rfl⟩ := map_ok_inv h
      refine .inr ⟨x, rfl, hx, fun y ys he => ?_⟩
      cases he
      rw [frontHasGroup_iff] at hg
      exact Option.eq_none_iff_forall_ne_some.2 (fun z hz => hg ⟨z, hz⟩)
  | _ => cases h

/-- A list that decodes as groups has a `group` in front, if it has an item. -/
theorem frontHasGroup_of_groups {L : Jsonrpc} (hL : L.Lawful) {x : Json} {xs : List Json}
    {gs : List ConfigSelectGroup} (h : L.fromJson (List ConfigSelectGroup) (.arr (x :: xs)) = .ok gs) :
    frontHasGroup (x :: xs) = true := by
  obtain ⟨_, he, hall⟩ := hL.list_decode_inv h
  cases he
  cases hall with
  | cons hx _ => exact (frontHasGroup_iff x xs).2 (configSelectGroup_has_group hL hx)

/-- **A select-option list is one of groups, or one of options whose first has no key `group`.** -/
theorem configSelectOptions_readsEither {L : Jsonrpc} (hL : L.Lawful) (j : Json) : OptionsReadEither L FrontBare j where
  accepts := by
    constructor
    · rintro ⟨v, hv⟩
      rcases configSelectOptions_decode_inv hv with ⟨x, -, hx⟩ | ⟨x, -, hx, hb⟩
      · exact .inl ⟨x, hx⟩
      · exact .inr ⟨⟨x, hx⟩, hb⟩
    · rintro (⟨gs, hg⟩ | ⟨⟨os, ho⟩, hb⟩)
      · obtain ⟨xs, rfl, hall⟩ := hL.list_decode_inv hg
        cases xs with
        | nil =>
          -- the empty list has no first item, and is read as no options
          cases hall
          refine ⟨.ungrouped [], ?_⟩
          have h0 : L.fromJson (List ConfigSelectOption) (.arr []) = .ok [] := (hL.list_decode _ []).ok rfl
          exact congrArg (ConfigSelectOptions.ungrouped <$> ·) h0
        | cons x xs =>
          refine ⟨.grouped gs, (configSelectOptions_decode _).trans ?_⟩
          rw [if_pos (frontHasGroup_of_groups hL hg), hg]
          rfl
      · obtain ⟨xs, rfl, -⟩ := hL.list_decode_inv ho
        refine ⟨.ungrouped os, (configSelectOptions_decode xs).trans ?_⟩
        cases xs with
        | nil => exact congrArg (ConfigSelectOptions.ungrouped <$> ·) ho
        | cons x xs =>
          rw [if_neg (fun h => ?_), ho]
          · rfl
          · obtain ⟨y, hy⟩ := (frontHasGroup_iff x xs).1 h
            rw [hb x xs rfl] at hy
            cases hy
  result v hv := by
    rcases configSelectOptions_decode_inv hv with ⟨x, rfl, hx⟩ | ⟨x, rfl, hx, -⟩
    · exact .inl ⟨x, hx, rfl⟩
    · exact .inr ⟨x, hx, rfl⟩

/-- **The untagged sums take what an arm takes**, the second arm only where the key of the first is not there. -/
theorem untagged_accepts (L : Jsonrpc) (hL : L.Lawful) (j : Json) :
    ResourceReadsEither L (fun j => j.find? "text" = none) j ∧ OptionsReadEither L FrontBare j :=
  ⟨embeddedResource_readsEither hL j, configSelectOptions_readsEither hL j⟩

theorem untagged_accepts_blob :
    ∃ v, reference.fromJson EmbeddedResource
      (.obj (((∅ : Json.Members).insert "uri" (.str "u")).insert "blob" (.str "b"))) = .ok v :=
  (untagged_accepts reference reference_lawful _).1.accepts.2
    (.inr ⟨⟨{ uri := "u", blob := "b" }, rfl⟩, by simp [FinMap.find?_insert]⟩)

/-- A blob with a null `text`, and an option that says of which group it is: each is refused for one key that its arm
ignores. -/
theorem picking_key_refuses :
    ¬ (∀ j, ResourceReadsEither reference (fun _ => True) j) ∧
      ¬ ∀ j, OptionsReadEither reference (fun _ => True) j := by
  constructor
  · intro h
    let j : Json := .obj (((∅ : Json.Members).insert "uri" (.str "u")).insert "blob" (.str "b") |>.insert "text" .null)
    have hb : reference.fromJson BlobResource j = .ok { uri := "u", blob := "b" } := rfl
    have he : reference.fromJson EmbeddedResource j = .error (.codecError "expected string") := rfl
    obtain ⟨v, hv⟩ := (h j).accepts.2 (.inr ⟨⟨_, hb⟩, trivial⟩)
    rw [he] at hv
    cases hv
  · intro h
    let j : Json := .arr [.obj (((∅ : Json.Members).insert "value" (.str "v")).insert "name" (.str "n") |>.insert
      "group" (.str "g"))]
    have ho : reference.fromJson (List ConfigSelectOption) j = .ok [{ value := "v", name := "n" }] := rfl
    have he : reference.fromJson ConfigSelectOptions j = .error (.codecError "missing field options") := rfl
    obtain ⟨v, hv⟩ := (h j).accepts.2 (.inr ⟨⟨_, ho⟩, trivial⟩)
    rw [he] at hv
    cases hv

end Acp
