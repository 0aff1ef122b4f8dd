import Acp.MessagesOk
import Acp.Reference
/-!
# Escape — when a decoder throws another library's exception

Four of the hand-written decoders read members with nlohmann's own accessors, and what these throw is not a
`CodecError`.  `RawFault c j` is the shape of a `j` on which that happens: the decoder of `c` reaches, past members it
accepted, an object that one of the four is not ready for.  A decoder escapes on exactly those (`escapes_iff_rawFault`).
-/
namespace Acp

open Wire

/-! ## The objects the hand-written decoders are not ready for -/

/-- The member is there and not a string, where `value` wants one. -/
def NotString (o : Json.Members) (k : String) : Prop := ∃ x, o.find? k = some x ∧ x.isString = false

/-- The type a config option's decoder goes by is not `boolean`. -/
def SelectTyped (o : Json.Members) : Prop := (Json.obj o).value "type" "select" ≠ .ok "boolean"

/-- `at("id")`, `at("name")`, `at("currentValue")`, `at("options")` of a missing member, or a `get` of another kind. -/
def ConfigOption.Malformed (o : Json.Members) : Prop :=
  (Json.obj o).string? "id" = none ∨ (Json.obj o).string? "name" = none ∨ NotString o "type" ∨
    o.find? "currentValue" = none ∨
      (SelectTyped o ∧ ((Json.obj o).string? "currentValue" = none ∨ o.find? "options" = none))

/-- The same for a method's `id`, `name` and `type`, or an item of `args` or a value of `env` that is not a string. -/
def AuthMethod.Malformed (o : Json.Members) : Prop :=
  (Json.obj o).string? "id" = none ∨ (Json.obj o).string? "name" = none ∨ NotString o "type" ∨
    (∃ xs, o.find? "args" = some (.arr xs) ∧ ∃ x ∈ xs, x.isString = false) ∨
      ∃ e, o.find? "env" = some (.obj e) ∧ ∃ k, NotString e k

/-- **The decoder of `c` reaches a malformed object in `j`.** -/
inductive RawFault (L : Jsonrpc) : {α : Type} → Codec α → Json → Prop where
  | mcpServer {o : Json.Members} (h : NotString o "type") : RawFault L (L.codec McpServer) (.obj o)
  | configOption {o : Json.Members} (h : ConfigOption.Malformed o) : RawFault L (L.codec ConfigOption) (.obj o)
  | commandInput {o : Json.Members} (h : NotString o "type") : RawFault L (L.codec AvailableCommandInput) (.obj o)
  | authMethod {o : Json.Members} (h : AuthMethod.Malformed o) : RawFault L (L.codec AuthMethod) (.obj o)
  | field {T A : Type} {init t : T} {f : FieldSpec T} {pre post : List (FieldSpec T)} {c : Codec A} {o : Json.Members}
      {x : Json} (hpre : L.readAll pre o init = .ok t) (hv : f.Via f.key c) (hx : o.find? f.key = some x)
      (h : RawFault L c x) : RawFault L (L.record init (pre ++ f :: post)) (.obj o)
  | item {A : Type} {c : Codec A} {pre post : List Json} {x : Json} {as : List A} (hpre : pre.mapM c.decode = .ok as)
      (h : RawFault L c x) : RawFault L (L.listCodec c) (.arr (pre ++ x :: post))
  | bare {Tag A : Type} {c : Codec A} {j : Json} (h : RawFault L c j) :
      RawFault L (L.newtypeCodec c : Codec (Newtype Tag A)) j
  | arm {S : Type} {tag l : String} {arms : List (Arm S)} {b : Arm S} {o : Json.Members}
      (hl : o.find? tag = some (.str l)) (hb : arms.find? (fun b' => b'.label == l) = some b)
      (h : RawFault L b.codec (.obj o)) : RawFault L (L.sumTagged tag arms) (.obj o)
  | options {o : Json.Members} {x : Json} (ht : SelectTyped o) (hx : o.find? "options" = some x)
      (h : RawFault L (L.codec ConfigSelectOptions) x) : RawFault L (L.codec ConfigOption) (.obj o)
  | textResource {o : Json.Members} (ht : (o.find? "text").isSome = true)
      (h : RawFault L (L.codec TextResource) (.obj o)) : RawFault L (L.codec EmbeddedResource) (.obj o)
  | blobResource {o : Json.Members} (ht : (o.find? "text").isSome = false) (hb : (o.find? "blob").isSome = true)
      (h : RawFault L (L.codec BlobResource) (.obj o)) : RawFault L (L.codec EmbeddedResource) (.obj o)
  | stdio {o : Json.Members} {t : String} (ht : (Json.obj o).value "type" "stdio" = .ok t) (h1 : t ≠ "http")
      (h2 : t ≠ "sse") (h : RawFault L (L.codec StdioMcpServer) (.obj o)) : RawFault L (L.codec McpServer) (.obj o)
  | http {o : Json.Members} (ht : (Json.obj o).value "type" "stdio" = .ok "http")
      (h : RawFault L (L.codec HttpMcpServer) (.obj o)) : RawFault L (L.codec McpServer) (.obj o)
  | sse {o : Json.Members} (ht : (Json.obj o).value "type" "stdio" = .ok "sse")
      (h : RawFault L (L.codec SseMcpServer) (.obj o)) : RawFault L (L.codec McpServer) (.obj o)
  | grouped {xs : List Json} (hg : frontHasGroup xs = true)
      (h : RawFault L (L.codec (List ConfigSelectGroup)) (.arr xs)) : RawFault L (L.codec ConfigSelectOptions) (.arr xs)
  | ungrouped {xs : List Json} (hg : frontHasGroup xs = false)
      (h : RawFault L (L.codec (List ConfigSelectOption)) (.arr xs)) :
      RawFault L (L.codec ConfigSelectOptions) (.arr xs)
  | unstructured {o : Json.Members} (ht : (Json.obj o).value "type" "unstructured" = .ok "unstructured")
      (h : RawFault L (L.codec UnstructuredCommandInput) (.obj o)) : RawFault L (L.codec AvailableCommandInput) (.obj o)
  | clientBase {j : Json} (h : RawFault L (ClientCapabilities.base L) j) : RawFault L (L.codec ClientCapabilities) j
  | suToolCall {j : Json} (h : RawFault L (L.codec ToolCall) j) : RawFault L (L.codec SuToolCall) j
  | suToolCallUpdate {j : Json} (h : RawFault L (L.codec ToolCallUpdate) j) : RawFault L (L.codec SuToolCallUpdate) j

theorem RawFault.ne_null {L : Jsonrpc} {α : Type} {c : Codec α} {j : Json} (h : RawFault L c j) : j ≠ .null := by
  induction h with
  | bare _ ih => exact ih
  | clientBase _ ih => exact ih
  | suToolCall _ ih => exact ih
  | suToolCallUpdate _ ih => exact ih
  | _ => exact fun h => by cases h

/-! ## nlohmann's accessors -/

section Accessors

variable {α : Type} {o : Json.Members} {k : String}

theorem escapes_at {f : Json → Except Exn α} :
    Escapes ((Json.obj o).at_ k >>= f) ↔ o.find? k = none ∨ ∃ x, o.find? k = some x ∧ Escapes (f x) := by
  cases hk : o.find? k with
  | none =>
    rw [Json.at_of_none hk]
    exact ⟨fun _ => .inl rfl, fun _ => ⟨_, rfl, rfl⟩⟩
  | some x =>
    rw [Json.at_of_some hk]
    exact ⟨fun h => .inr ⟨x, rfl, h⟩, fun h => by
      rcases h with h | ⟨_, h, hf⟩ <;> cases h
      exact hf⟩

theorem escapes_getString {x : Json} {f : String → Except Exn α} :
    Escapes (x.getString >>= f) ↔ x.isString = false ∨ ∃ s, x = .str s ∧ Escapes (f s) := by
  cases x with
  | str s =>
    exact ⟨fun h => .inr ⟨s, rfl, h⟩, fun h => by
      rcases h with h | ⟨_, h, hf⟩ <;> cases h
      exact hf⟩
  | _ => exact ⟨fun _ => .inl rfl, fun _ => ⟨_, rfl, rfl⟩⟩

theorem string?_eq_none : (Json.obj o).string? k = none ↔ o.find? k = none ∨ NotString o k := by
  unfold Json.string? NotString
  rw [Json.find?_obj]
  cases o.find? k with
  | none => simp
  | some x => cases x <;> simp [Json.isString]

theorem string?_eq_some {s : String} : (Json.obj o).string? k = some s ↔ o.find? k = some (.str s) := by
  unfold Json.string?
  rw [Json.find?_obj]
  cases o.find? k with
  | none => simp
  | some x => cases x <;> simp

/-- `at(k).get<std::string>()`. -/
theorem escapes_atString {f : String → Except Exn α} : Escapes ((Json.obj o).at_ k >>= fun x => x.getString >>= f) ↔
    (Json.obj o).string? k = none ∨ ∃ s, (Json.obj o).string? k = some s ∧ Escapes (f s) := by
  rw [escapes_at, string?_eq_none]
  constructor
  · rintro (h | ⟨x, hx, h⟩)
    · exact .inl (.inl h)
    · rcases escapes_getString.1 h with h | ⟨s, rfl, h⟩
      · exact .inl (.inr ⟨x, hx, h⟩)
      · exact .inr ⟨s, string?_eq_some.2 hx, h⟩
  · rintro ((h | ⟨x, hx, h⟩) | ⟨s, hs, h⟩)
    · exact .inl h
    · exact .inr ⟨x, hx, escapes_getString.2 (.inl h)⟩
    · exact .inr ⟨.str s, string?_eq_some.1 hs, escapes_getString.2 (.inr ⟨s, rfl, h⟩)⟩

theorem escapes_value {d : String} {f : String → Except Exn α} : Escapes ((Json.obj o).value k d >>= f) ↔
    NotString o k ∨ ∃ s, (Json.obj o).value k d = .ok s ∧ Escapes (f s) := by
  unfold NotString
  cases hk : o.find? k with
  | none =>
    rw [Json.value_of_none hk]
    exact ⟨fun h => .inr ⟨d, rfl, h⟩, fun h => by
      rcases h with ⟨_, h, -⟩ | ⟨_, h, hf⟩ <;> cases h
      exact hf⟩
  | some x =>
    rw [Json.value_of_some hk]
    refine escapes_getString.trans ⟨fun h => ?_, fun h => ?_⟩
    · rcases h with h | ⟨s, rfl, h⟩
      · exact .inl ⟨x, rfl, h⟩
      · exact .inr ⟨s, rfl, h⟩
    · rcases h with ⟨_, h, hs⟩ | ⟨s, h, hf⟩
      · cases h; exact .inl hs
      · exact .inr ⟨s, Json.getString_ok h, hf⟩

theorem value_of_not_notString (h : ¬ NotString o k) (d : String) : ∃ s, (Json.obj o).value k d = .ok s := by
  cases hk : o.find? k with
  | none => exact ⟨_, Json.value_of_none hk _⟩
  | some x =>
    cases x with
    | str s => exact ⟨s, Json.value_of_some hk _⟩
    | _ => exact absurd ⟨_, hk, rfl⟩ h

end Accessors

theorem getStrings_returns_or_escapes : ∀ (xs : List Json),
    (∃ ss, xs.mapM Json.getString = .ok ss) ∨ Escapes (xs.mapM Json.getString)
  | [] => .inl ⟨[], rfl⟩
  | x :: xs => by
    rw [List.mapM_cons]
    cases x with
    | str s =>
      rcases getStrings_returns_or_escapes xs with ⟨ss, hs⟩ | h
      · rw [hs]; exact .inl ⟨s :: ss, rfl⟩
      · exact .inr (escapes_bind.2 (.inr ⟨s, rfl, escapes_bind.2 (.inl h)⟩))
    | _ => exact .inr ⟨_, rfl, rfl⟩

theorem stringsOr_returns_or_escapes (o : Json.Members) (k : String) :
    (∃ ss, stringsOr (.obj o) k = .ok ss) ∨ Escapes (stringsOr (.obj o) k) := by
  unfold stringsOr
  split
  · exact getStrings_returns_or_escapes _
  · exact .inl ⟨[], rfl⟩

theorem escapes_getStrings : ∀ (xs : List Json), Escapes (xs.mapM Json.getString) ↔ ∃ x ∈ xs, x.isString = false
  | [] => ⟨fun h => absurd h (not_escapes_ok []), fun ⟨_, h, _⟩ => by cases h⟩
  | x :: xs => by
    rw [List.mapM_cons, escapes_getString]
    constructor
    · rintro (h | ⟨s, -, h⟩)
      · exact ⟨x, List.mem_cons_self, h⟩
      · rcases escapes_bind.1 h with h | ⟨ss, -, h⟩
        · obtain ⟨y, hy, hs⟩ := (escapes_getStrings xs).1 h
          exact ⟨y, List.mem_cons_of_mem _ hy, hs⟩
        · exact absurd h (not_escapes_ok _)
    · rintro ⟨y, hy, hs⟩
      rcases List.mem_cons.1 hy with rfl | hy'
      · exact .inl hs
      · cases x with
        | str s => exact .inr ⟨s, rfl, escapes_bind.2 (.inl ((escapes_getStrings xs).2 ⟨y, hy', hs⟩))⟩
        | _ => exact .inl rfl

theorem escapes_stringsOr {o : Json.Members} {k : String} : Escapes (stringsOr (.obj o) k) ↔
    ∃ xs, o.find? k = some (.arr xs) ∧ ∃ x ∈ xs, x.isString = false := by
  unfold stringsOr
  rw [Json.find?_obj]
  split
  · rename_i xs hx
    rw [hx]
    refine (escapes_getStrings xs).trans ⟨fun h => ⟨xs, rfl, h⟩, ?_⟩
    rintro ⟨_, he, h⟩
    cases he; exact h
  · rename_i hx
    refine ⟨fun h => absurd h (not_escapes_ok _), ?_⟩
    rintro ⟨xs, he, -⟩
    exact absurd he (hx xs)

theorem escapes_stringMapOr {o : Json.Members} {k : String} : Escapes (stringMapOr (.obj o) k) ↔
    ∃ e, o.find? k = some (.obj e) ∧ ∃ k', NotString e k' := by
  unfold stringMapOr
  rw [Json.find?_obj]
  split
  · rename_i e he
    rw [he]
    have hall : (∃ k', NotString e k') ↔ ¬ ∀ k' : e.keys, (e.val k').isString = true := by
      constructor
      · rintro ⟨k', x, hx, hs⟩ hall
        have hm : k' ∈ e.keys := (FinMap.mem_keys_iff e k').2 ⟨x, hx⟩
        have := hall ⟨k', hm⟩
        rw [FinMap.find?_val e ⟨k', hm⟩] at hx
        cases hx
        rw [hs] at this; cases this
      · intro h
        obtain ⟨k', hk⟩ := Classical.not_forall.1 h
        exact ⟨k'.1, e.val k', FinMap.find?_val e k', by simpa using hk⟩
    by_cases h : ∀ k' : e.keys, (e.val k').isString = true
    · rw [show (Json.obj e).getStringMap = .ok (e.map (Json.stringOr "")) from if_pos h]
      refine ⟨fun h' => absurd h' (not_escapes_ok _), ?_⟩
      rintro ⟨_, he', h'⟩
      cases he'
      exact absurd h (hall.1 h')
    · rw [show (Json.obj e).getStringMap = .error (.typeError "string") from if_neg h]
      exact ⟨fun _ => ⟨e, rfl, hall.2 h⟩, fun _ => ⟨_, rfl, rfl⟩⟩
  · rename_i hx
    refine ⟨fun h => absurd h (not_escapes_ok _), ?_⟩
    rintro ⟨e, he, -⟩
    exact absurd he (hx e)

/-! ## The hand-written decoders -/

section HandWritten

variable {L : Jsonrpc} {o : Json.Members}

theorem escapes_mcpServer : Escapes ((L.codec McpServer).decode (.obj o)) ↔
    NotString o "type" ∨ ∃ t, (Json.obj o).value "type" "stdio" = .ok t ∧ Escapes (mcpServerOf L t (.obj o)) := by
  rw [mcpServer_decode]
  exact escapes_value

theorem escapes_commandInput : Escapes ((L.codec AvailableCommandInput).decode (.obj o)) ↔
    NotString o "type" ∨ ((Json.obj o).value "type" "unstructured" = .ok "unstructured" ∧
      Escapes ((L.codec UnstructuredCommandInput).decode (.obj o))) := by
  rw [availableCommandInput_decode]
  refine escapes_value.trans (or_congr_right ⟨?_, ?_⟩)
  · rintro ⟨t, ht, h⟩
    unfold commandInputOf at h
    by_cases hu : t = "unstructured"
    · subst hu
      exact ⟨ht, escapes_map.1 h⟩
    · rw [if_neg hu] at h
      exact absurd h (not_escapes_codecError _)
  · rintro ⟨ht, h⟩
    exact ⟨_, ht, escapes_map.2 h⟩

theorem escapes_configOptionRest {c : ConfigOption} {cv : Json} : Escapes (configOptionRest L (.obj o) c cv) ↔
    c.isBoolean = false ∧ (cv.isString = false ∨ o.find? "options" = none ∨
      ∃ s x, cv = .str s ∧ o.find? "options" = some x ∧ Escapes ((L.codec ConfigSelectOptions).decode x)) := by
  unfold configOptionRest
  cases hb : c.isBoolean with
  | true =>
    refine ⟨fun h => ?_, fun h => by cases h.1⟩
    cases cv with
    | bool b => exact absurd h (not_escapes_ok _)
    | _ => exact absurd h (not_escapes_codecError _)
  | false =>
    rw [if_neg (by simp), escapes_getString]
    refine ⟨fun h => ⟨rfl, ?_⟩, fun ⟨_, h⟩ => ?_⟩
    · rcases h with h | ⟨s, hs, h⟩
      · exact .inl h
      · rcases escapes_at.1 h with h | ⟨x, hx, h⟩
        · exact .inr (.inl h)
        · rcases escapes_bind.1 h with h | ⟨os, -, h⟩
          · exact .inr (.inr ⟨s, x, hs, hx, h⟩)
          · exact absurd h (not_escapes_ok _)
    · by_cases hs : cv.isString = false
      · exact .inl hs
      · cases cv with
        | str s =>
          refine .inr ⟨s, rfl, escapes_at.2 ?_⟩
          rcases h with h | h | ⟨_, x, -, hx, h⟩
          · exact absurd h hs
          · exact .inl h
          · exact .inr ⟨x, hx, escapes_bind.2 (.inl h)⟩
        | _ => exact absurd rfl hs

theorem selectTyped_iff {t : String} (ht : (Json.obj o).value "type" "select" = .ok t) (c : ConfigOption)
    (hc : c.type = t) : SelectTyped o ↔ c.isBoolean = false := by
  unfold SelectTyped ConfigOption.isBoolean
  rw [ht, hc]
  simp

/-- **A config option's decoder escapes on a malformed object, or through its options.** -/
theorem escapes_configOption : Escapes ((L.codec ConfigOption).decode (.obj o)) ↔
    ConfigOption.Malformed o ∨
      (SelectTyped o ∧ ∃ x, o.find? "options" = some x ∧ Escapes ((L.codec ConfigSelectOptions).decode x)) := by
  rw [configOption_decode, escapes_atString]
  unfold ConfigOption.Malformed
  cases hid : (Json.obj o).string? "id" with
  | none => simp
  | some id =>
  simp only [reduceCtorEq, false_or, Option.some.injEq, exists_eq_left']
  rw [escapes_atString]
  cases hname : (Json.obj o).string? "name" with
  | none => simp
  | some name =>
  simp only [reduceCtorEq, false_or, Option.some.injEq, exists_eq_left']
  rw [escapes_value]
  by_cases htype : NotString o "type"
  · simp [htype]
  simp only [htype, false_or]
  obtain ⟨t, ht⟩ := value_of_not_notString htype "select"
  simp only [ht, Except.ok.injEq, exists_eq_left']
  rw [escapes_at]
  cases hcv : o.find? "currentValue" with
  | none => simp
  | some cv =>
  simp only [reduceCtorEq, false_or, Option.some.injEq, exists_eq_left', escapes_configOptionRest,
    ← selectTyped_iff ht (configOptionBase (.obj o) id name t) rfl, ← and_or_left]
  refine and_congr_right (fun _ => ?_)
  rw [string?_eq_none, hcv]
  unfold NotString
  rw [hcv]
  cases cv with
  | str s => simp [Json.isString]
  | _ => simp [Json.isString]

/-- **An authentication method's decoder escapes exactly on a malformed object.** -/
theorem escapes_authMethod : Escapes ((L.codec AuthMethod).decode (.obj o)) ↔ AuthMethod.Malformed o := by
  rw [authMethod_decode, escapes_atString]
  unfold AuthMethod.Malformed
  cases hid : (Json.obj o).string? "id" with
  | none => simp
  | some id =>
  simp only [reduceCtorEq, false_or, Option.some.injEq, exists_eq_left']
  rw [escapes_atString]
  cases hname : (Json.obj o).string? "name" with
  | none => simp
  | some name =>
  simp only [reduceCtorEq, false_or, Option.some.injEq, exists_eq_left']
  rw [escapes_value]
  by_cases htype : NotString o "type"
  · simp [htype]
  simp only [htype, false_or]
  obtain ⟨t, ht⟩ := value_of_not_notString htype "agent"
  simp only [ht, Except.ok.injEq, exists_eq_left']
  rw [← escapes_stringsOr, ← escapes_stringMapOr, escapes_bind]
  refine ⟨?_, fun h => ?_⟩
  · rintro (h | ⟨args, -, h⟩)
    · exact .inl h
    · rcases escapes_bind.1 h with h | ⟨env, -, h⟩
      · exact .inr h
      · exact absurd h (not_escapes_ok _)
  · rcases stringsOr_returns_or_escapes o "args" with ⟨args, ha⟩ | ha
    · refine h.imp_right (fun h => ⟨args, ha, escapes_bind.2 (.inl h)⟩)
    · exact .inl ha

end HandWritten

/-! ## Every decoder -/

theorem not_escapes_primitive {A : Type} {c : Codec A} (hc : Jsonrpc.Primitive c) (j : Json) :
    ¬ Escapes (c.decode j) := by
  rintro ⟨e, he, hk⟩
  rw [hc.throws j e he] at hk; cases hk

/-! ### The hand-written ones, backwards -/

section Backwards

variable {L : Jsonrpc} {j : Json}

theorem rawFault_embeddedResource
    (iht : ∀ j, Escapes ((L.codec TextResource).decode j) → RawFault L (L.codec TextResource) j)
    (ihb : ∀ j, Escapes ((L.codec BlobResource).decode j) → RawFault L (L.codec BlobResource) j)
    (h : Escapes ((L.codec EmbeddedResource).decode j)) : RawFault L (L.codec EmbeddedResource) j := by
  cases j with
  | obj o =>
    rw [embeddedResource_decode] at h
    split at h
    · rename_i ht
      exact .textResource ht (iht _ (escapes_map.1 h))
    · rename_i ht
      split at h
      · rename_i hb
        exact .blobResource (by simpa using ht) hb (ihb _ (escapes_map.1 h))
      · exact absurd h (not_escapes_codecError _)
  | _ => exact absurd h (not_escapes_codecError _)

theorem rawFault_mcpServer
    (iho : ∀ j, Escapes ((L.codec StdioMcpServer).decode j) → RawFault L (L.codec StdioMcpServer) j)
    (ihh : ∀ j, Escapes ((L.codec HttpMcpServer).decode j) → RawFault L (L.codec HttpMcpServer) j)
    (ihs : ∀ j, Escapes ((L.codec SseMcpServer).decode j) → RawFault L (L.codec SseMcpServer) j)
    (h : Escapes ((L.codec McpServer).decode j)) : RawFault L (L.codec McpServer) j := by
  cases j with
  | obj o =>
    rcases escapes_mcpServer.1 h with h | ⟨t, ht, h⟩
    · exact .mcpServer h
    · unfold mcpServerOf at h
      by_cases h1 : t = "http"
      · subst h1
        exact .http ht (ihh _ (escapes_map.1 h))
      · rw [if_neg h1] at h
        by_cases h2 : t = "sse"
        · subst h2
          exact .sse ht (ihs _ (escapes_map.1 h))
        · rw [if_neg h2] at h
          exact .stdio ht h1 h2 (iho _ (escapes_map.1 h))
  | _ => exact absurd h (not_escapes_codecError _)

theorem rawFault_configSelectOptions
    (ihu : ∀ j, Escapes ((L.codec (List ConfigSelectOption)).decode j) →
      RawFault L (L.codec (List ConfigSelectOption)) j)
    (ihg : ∀ j, Escapes ((L.codec (List ConfigSelectGroup)).decode j) →
      RawFault L (L.codec (List ConfigSelectGroup)) j)
    (h : Escapes ((L.codec ConfigSelectOptions).decode j)) : RawFault L (L.codec ConfigSelectOptions) j := by
  cases j with
  | arr xs =>
    rw [configSelectOptions_decode] at h
    split at h
    · rename_i hg
      exact .grouped hg (ihg _ (escapes_map.1 h))
    · rename_i hg
      exact .ungrouped (by simpa using hg) (ihu _ (escapes_map.1 h))
  | _ => exact absurd h (not_escapes_codecError _)

theorem rawFault_configOption
    (ih : ∀ j, Escapes ((L.codec ConfigSelectOptions).decode j) → RawFault L (L.codec ConfigSelectOptions) j)
    (h : Escapes ((L.codec ConfigOption).decode j)) : RawFault L (L.codec ConfigOption) j := by
  cases j with
  | obj o =>
    rcases escapes_configOption.1 h with h | ⟨ht, x, hx, h⟩
    · exact .configOption h
    · exact .options ht hx (ih x h)
  | _ => exact absurd h (not_escapes_codecError _)

theorem rawFault_commandInput
    (ih : ∀ j, Escapes ((L.codec UnstructuredCommandInput).decode j) → RawFault L (L.codec UnstructuredCommandInput) j)
    (h : Escapes ((L.codec AvailableCommandInput).decode j)) : RawFault L (L.codec AvailableCommandInput) j := by
  cases j with
  | obj o =>
    rcases escapes_commandInput.1 h with h | ⟨ht, h⟩
    · exact .commandInput h
    · exact .unstructured ht (ih _ h)
  | _ => exact absurd h (not_escapes_codecError _)

end Backwards

section Every

variable {L : Jsonrpc} (hL : L.Lawful)
include hL

/-- **Where a decoder reaches a malformed object, it escapes.** -/
theorem RawFault.escapes {α : Type} {c : Codec α} {j : Json} (h : RawFault L c j) : Escapes (c.decode j) := by
  induction h with
  | mcpServer h => exact escapes_mcpServer.2 (.inl h)
  | configOption h => exact escapes_configOption.2 (.inl h)
  | commandInput h => exact escapes_commandInput.2 (.inl h)
  | authMethod h => exact escapes_authMethod.2 h
  | field hpre hv hx h ih =>
    rw [hL.record_decode]
    exact (escapes_foldlM _ _).2 ⟨_, _, _, _, rfl, hpre, by rw [hx]; exact hL.escapes_read hv h.ne_null ih _⟩
  | item hpre _ ih => exact (hL.list_decode _ _).escapes_iff.2 ((escapes_mapM _).2 ⟨_, _, _, _, rfl, hpre, ih⟩)
  | bare _ ih => exact (hL.newtype_decode _ _).escapes_iff.2 ih
  | arm hl hb _ ih => exact (hL.sum_decode _ _ _ _ _ hl hb).escapes_iff.2 ih
  | options ht hx _ ih => exact escapes_configOption.2 (.inr ⟨ht, _, hx, ih⟩)
  | textResource ht _ ih =>
    rw [embeddedResource_decode, if_pos ht]
    exact escapes_map.2 ih
  | blobResource ht hb _ ih =>
    rw [embeddedResource_decode, ht, if_neg (by simp), if_pos hb]
    exact escapes_map.2 ih
  | stdio ht h1 h2 _ ih =>
    refine escapes_mcpServer.2 (.inr ⟨_, ht, ?_⟩)
    unfold mcpServerOf
    rw [if_neg h1, if_neg h2]
    exact escapes_map.2 ih
  | http ht _ ih => exact escapes_mcpServer.2 (.inr ⟨_, ht, escapes_map.2 ih⟩)
  | sse ht _ ih => exact escapes_mcpServer.2 (.inr ⟨_, ht, escapes_map.2 ih⟩)
  | grouped hg _ ih =>
    rw [configSelectOptions_decode, if_pos hg]
    exact escapes_map.2 ih
  | ungrouped hg _ ih =>
    rw [configSelectOptions_decode, hg, if_neg (by simp)]
    exact escapes_map.2 ih
  | unstructured ht _ ih => exact escapes_commandInput.2 (.inr ⟨ht, ih⟩)
  | clientBase _ ih =>
    rw [clientCapabilities_decode]
    exact escapes_map.2 ih
  | suToolCall _ ih => exact escapes_map.2 ih
  | suToolCallUpdate _ ih => exact escapes_map.2 ih

/-- **A decoder of the protocol escapes only where it reaches a malformed object.** -/
theorem rawFault_of_escapes {α : Type} {c : Codec α} (hc : Proto L c) :
    ∀ j, Escapes (c.decode j) → RawFault L c j := by
  induction hc with
  | bool => exact fun j h => absurd h (not_escapes_primitive hL.bool j)
  | int => exact fun j h => absurd h (not_escapes_primitive hL.int j)
  | int64 => exact fun j h => absurd h (not_escapes_primitive hL.int64 j)
  | double => exact fun j h => absurd h (not_escapes_primitive hL.double j)
  | string => exact fun j h => absurd h (not_escapes_primitive hL.string j)
  | unit => exact fun j h => absurd h (not_escapes_primitive hL.unit j)
  | json => exact fun j h => absurd (hL.json_decode j ▸ h) (not_escapes_ok j)
  | enum ms _ _ =>
    rintro j ⟨e, he, hk⟩
    rw [hL.enum_throws ms j e he] at hk; cases hk
  | newtype _ ih => exact fun j h => .bare (ih j ((hL.newtype_decode _ j).escapes_iff.1 h))
  | @list A c _ ih =>
    intro j h
    by_cases hj : j.isArray = true
    · obtain ⟨xs, rfl⟩ := (Json.isArray_iff j).1 hj
      obtain ⟨pre, x, post, as, rfl, hpre, hx⟩ := (escapes_mapM xs).1 ((hL.list_decode c xs).escapes_iff.1 h)
      exact .item hpre (ih x hx)
    · obtain ⟨msg, he⟩ := hL.list_decode_other c j (by simpa using hj)
      exact absurd (he ▸ h) (not_escapes_codecError msg)
  | record init fs _ _ _ ih =>
    intro j h
    by_cases hj : j.isObject = true
    · obtain ⟨o, rfl⟩ := (Json.isObject_iff j).1 hj
      rw [hL.record_decode] at h
      obtain ⟨pre, f, post, t, rfl, hpre, hf⟩ := (escapes_foldlM fs init).1 h
      obtain ⟨A, c, x, hv, hx, hc⟩ := hL.escapes_read_inv hf
      exact .field hpre hv hx (ih f (List.mem_append_right _ List.mem_cons_self) hv x hc)
    · obtain ⟨msg, he⟩ := hL.record_decode_other init fs j (by simpa using hj)
      exact absurd (he ▸ h) (not_escapes_codecError msg)
  | sum tag arms _ _ _ ih =>
    intro j h
    by_cases ht : ∃ b ∈ arms, j.find? tag = some (.str b.label)
    · obtain ⟨b, hb, hj⟩ := ht
      cases j with
      | obj o =>
        obtain ⟨b', hb'⟩ := Option.isSome_iff_exists.1
          (List.find?_isSome.2 ⟨b, hb, by simp⟩ : (arms.find? (fun b' => b'.label == b.label)).isSome = true)
        exact .arm hj hb' (ih b' (List.mem_of_find?_eq_some hb') _
          ((hL.sum_decode tag arms b' _ o hj hb').escapes_iff.1 h))
      | _ => cases hj
    · obtain ⟨msg, he⟩ := hL.sum_decode_other tag arms j (fun b hb hj => ht ⟨b, hb, hj⟩)
      exact absurd (he ▸ h) (not_escapes_codecError msg)
  | embeddedResource _ _ iht ihb => exact fun _ => rawFault_embeddedResource iht ihb
  | poCancelled => exact fun j h => absurd h (not_escapes_ok _)
  | mcpServer _ _ _ iho ihh ihs => exact fun _ => rawFault_mcpServer iho ihh ihs
  | configSelectOptions _ _ ihu ihg => exact fun _ => rawFault_configSelectOptions ihu ihg
  | configOption _ ih => exact fun _ => rawFault_configOption ih
  | availableCommandInput _ ih => exact fun _ => rawFault_commandInput ih
  | clientSessionCapabilities => exact fun j h => absurd h (not_escapes_ok _)
  | clientCapabilities _ ih =>
    intro j h
    rw [clientCapabilities_decode] at h
    exact .clientBase (ih j (escapes_map.1 h))
  | authMethod =>
    intro j h
    cases j with
    | obj o => exact .authMethod (escapes_authMethod.1 h)
    | _ => exact absurd h (not_escapes_codecError _)
  | suToolCall _ ih => exact fun j h => .suToolCall (ih j (escapes_map.1 h))
  | suToolCallUpdate _ ih => exact fun j h => .suToolCallUpdate (ih j (escapes_map.1 h))

theorem escapes_iff_rawFault {α : Type} {c : Codec α} (hc : Proto L c) (j : Json) :
    Escapes (c.decode j) ↔ RawFault L c j :=
  ⟨rawFault_of_escapes hL hc j, RawFault.escapes hL⟩

end Every

/-! ## The payloads -/

/-- The payloads a peer's messages are decoded as. -/
inductive DecodedPayload : (α : Type) → [CodecOf α] → Prop where
  | sessionUpdateMsg        : DecodedPayload SessionUpdateMsg
  | newSessionParams        : DecodedPayload NewSessionParams
  | loadSessionParams       : DecodedPayload LoadSessionParams
  | newSessionResult        : DecodedPayload NewSessionResult
  | resumeSessionResult     : DecodedPayload ResumeSessionResult
  | setConfigOptionResult   : DecodedPayload SetConfigOptionResult
  | requestPermissionParams : DecodedPayload RequestPermissionParams
  | promptParams            : DecodedPayload PromptParams
  | initializeParams (b : Build) : DecodedPayload (InitializeParams b)
  | initializeResult (b : Build) : DecodedPayload (InitializeResult b)

theorem DecodedPayload.proto {L : Jsonrpc} (hL : L.Lawful) {α : Type} [CodecOf α] (h : DecodedPayload α) :
    Proto L (L.codec α) := by
  cases h with
  | initializeResult b => exact initializeResult_proto hL b
  | _ => exact Conforms.proto hL

/-- **Decoding fails with the library's own error alone, exactly when no malformed object is reached.** -/
theorem fromJson_throws_codecError_iff (L : Jsonrpc) (hL : L.Lawful) {α : Type} [CodecOf α] (h : DecodedPayload α)
    (j : Json) : (∀ e, L.fromJson α j = .error e → e.isCodecError = true) ↔ ¬ RawFault L (L.codec α) j := by
  rw [← escapes_iff_rawFault hL (h.proto hL) j]
  constructor
  · rintro hown ⟨e, he, hk⟩
    rw [hown e he] at hk; cases hk
  · intro hno e he
    by_contra hk
    exact hno ⟨e, he, by simpa using hk⟩

/-- A config option without an `id`. -/
theorem fromJson_throws_codecError_iff_noId :
    RawFault reference (reference.codec SetConfigOptionResult)
      (.obj ((∅ : Json.Members).insert "configOptions" (.arr [Json.object]))) := by
  by_contra h
  have := (fromJson_throws_codecError_iff reference reference_lawful .setConfigOptionResult _).2 h
    (.outOfRange "id") rfl
  cases this

/-- **A config option without an `id` takes the decoder down another way.** -/
theorem fromJson_throws_outOfRange : ¬ ∀ {α : Type} [CodecOf α], DecodedPayload α → ∀ (j : Json) (e : Exn),
    reference.fromJson α j = .error e → e.isCodecError = true := fun h => by
  have := h .setConfigOptionResult (.obj ((∅ : Json.Members).insert "configOptions" (.arr [Json.object])))
    (.outOfRange "id") rfl
  cases this

end Acp
