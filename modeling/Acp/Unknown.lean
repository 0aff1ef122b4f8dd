import Acp.MessagesOk
import Acp.Reference
import Acp.Wire.Path
/-!
# Unknown — members nobody declared are ignored, at every depth

`Reads` says which objects of a message a codec reads as a record, where they are, and which keys are declared there.
Putting, changing or taking out any other member of such an object never changes what the message decodes to
(`unknown_ignored`): a newer peer's extra members cannot make an older one read something else, nor refuse it.
-/
namespace Acp

open Wire

/-! ## What is read where -/

/-- The keys `ks` declared at the end of `p`, and at the start of it those of the codec around it. -/
def declared (p : JsonPath) (outer ks : List String) : List String := if p.isEmpty then outer ++ ks else ks

/-- The objects a client session's switches are read from. -/
def clientSessionObjects : List (JsonPath × List String) := [
  ([], ["compaction", "notices", "configOptions", "_meta"]),
  ([.key "compaction"], []), ([.key "notices"], []), ([.key "configOptions"], ["boolean"]),
  ([.key "configOptions", .key "boolean"], [])]

/-- The objects the overlaid client capabilities are read from. -/
def clientOverlayObjects : List (JsonPath × List String) := [
  ([.key "auth"], ["terminal"]), ([.key "elicitation"], ["form", "url"]),
  ([.key "elicitation", .key "form"], []), ([.key "elicitation", .key "url"], [])]

/-- **`Reads L c p j ks`**: of `j`, `c` reads the object at `p` as a record whose declared keys are `ks`. -/
inductive Reads (L : Jsonrpc) : {α : Type} → Codec α → JsonPath → Json → List String → Prop where
  /-- A marker, where the library's `Unit` is read from any object. -/
  | unit (hu : ∀ o, L.unit.decode (.obj o) = .ok ()) (o : Json.Members) : Reads L L.unit [] (.obj o) []
  | record {T : Type} (init : T) (fs : List (FieldSpec T)) (o : Json.Members) :
      Reads L (L.record init fs) [] (.obj o) (fs.map FieldSpec.key)
  | member {T A : Type} {init : T} {fs : List (FieldSpec T)} (hn : (fs.map FieldSpec.key).Nodup) {f : FieldSpec T}
      (hf : f ∈ fs) {k : String} {c : Codec A} (hv : f.Via k c) {o : Json.Members} {y : Json} (hy : o.find? k = some y)
      {p : JsonPath} {ks : List String} (h : Reads L c p y ks) : Reads L (L.record init fs) (.key k :: p) (.obj o) ks
  | item {A : Type} {c : Codec A} {xs : List Json} {i : Nat} {y : Json} (hy : xs[i]? = some y) {p : JsonPath}
      {ks : List String} (h : Reads L c p y ks) : Reads L (L.listCodec c) (.item i :: p) (.arr xs) ks
  | arm {S : Type} {tag : String} {arms : List (Arm S)} {b : Arm S} {o : Json.Members}
      (hl : o.find? tag = some (.str b.label)) (hb : arms.find? (fun b' => b'.label == b.label) = some b) {p : JsonPath}
      {ks : List String} (h : Reads L b.codec p (.obj o) ks) :
      Reads L (L.sumTagged tag arms) p (.obj o) (declared p [tag] ks)
  | noArm {S : Type} {tag : String} {arms : List (Arm S)} {o : Json.Members}
      (hl : ∀ b ∈ arms, o.find? tag ≠ some (.str b.label)) : Reads L (L.sumTagged tag arms) [] (.obj o) [tag]
  | textResource {o : Json.Members} (ht : (o.find? "text").isSome = true) {p : JsonPath} {ks : List String}
      (h : Reads L (L.codec TextResource) p (.obj o) ks) :
      Reads L (L.codec EmbeddedResource) p (.obj o) (declared p ["text", "blob"] ks)
  | blobResource {o : Json.Members} (ht : (o.find? "text").isSome = false) (hb : (o.find? "blob").isSome = true)
      {p : JsonPath} {ks : List String} (h : Reads L (L.codec BlobResource) p (.obj o) ks) :
      Reads L (L.codec EmbeddedResource) p (.obj o) (declared p ["text", "blob"] ks)
  | stdioServer {o : Json.Members} {t : String} (ht : (Json.obj o).value "type" "stdio" = .ok t) (hh : t ≠ "http")
      (hs : t ≠ "sse") {p : JsonPath} {ks : List String} (h : Reads L (L.codec StdioMcpServer) p (.obj o) ks) :
      Reads L (L.codec McpServer) p (.obj o) (declared p ["type"] ks)
  | httpServer {o : Json.Members} (ht : (Json.obj o).value "type" "stdio" = .ok "http") {p : JsonPath}
      {ks : List String} (h : Reads L (L.codec HttpMcpServer) p (.obj o) ks) :
      Reads L (L.codec McpServer) p (.obj o) (declared p ["type"] ks)
  | sseServer {o : Json.Members} (ht : (Json.obj o).value "type" "stdio" = .ok "sse") {p : JsonPath} {ks : List String}
      (h : Reads L (L.codec SseMcpServer) p (.obj o) ks) :
      Reads L (L.codec McpServer) p (.obj o) (declared p ["type"] ks)
  | selectOption {xs : List Json} (hg : frontHasGroup xs = false) {i : Nat} {y : Json} (hy : xs[i]? = some y)
      {p : JsonPath} {ks : List String} (h : Reads L (L.codec ConfigSelectOption) p y ks) :
      Reads L (L.codec ConfigSelectOptions) (.item i :: p) (.arr xs) (declared p ["group"] ks)
  | selectGroup {xs : List Json} (hg : frontHasGroup xs = true) {i : Nat} {y : Json} (hy : xs[i]? = some y)
      {p : JsonPath} {ks : List String} (h : Reads L (L.codec ConfigSelectGroup) p y ks) :
      Reads L (L.codec ConfigSelectOptions) (.item i :: p) (.arr xs) (declared p ["group"] ks)
  | configOption (o : Json.Members) : Reads L (L.codec ConfigOption) [] (.obj o)
      ["id", "name", "description", "category", "type", "currentValue", "options", "_meta"]
  | options {o : Json.Members} {y : Json} (hy : o.find? "options" = some y) {p : JsonPath} {ks : List String}
      (h : Reads L (L.codec ConfigSelectOptions) p y ks) :
      Reads L (L.codec ConfigOption) (.key "options" :: p) (.obj o) ks
  | commandInput {o : Json.Members} (ht : (Json.obj o).value "type" "unstructured" = .ok "unstructured") {p : JsonPath}
      {ks : List String} (h : Reads L (L.codec UnstructuredCommandInput) p (.obj o) ks) :
      Reads L (L.codec AvailableCommandInput) p (.obj o) (declared p ["type"] ks)
  | clientSession {p : JsonPath} {ks : List String} (hp : (p, ks) ∈ clientSessionObjects) {j : Json} {o : Json.Members}
      (ho : j.get? p = some (.obj o)) : Reads L (L.codec ClientSessionCapabilities) p j ks
  | clientCapabilities (o : Json.Members) : Reads L (L.codec ClientCapabilities) [] (.obj o)
      ["fs", "terminal", "session", "_meta", "auth", "elicitation"]
  | clientMember {A : Type} {f : FieldSpec ClientCapabilities} (hf : f ∈ ClientCapabilities.baseFields L) {k : String}
      {c : Codec A} (hv : f.Via k c) {o : Json.Members} {y : Json} (hy : o.find? k = some y) {p : JsonPath}
      {ks : List String} (h : Reads L c p y ks) : Reads L (L.codec ClientCapabilities) (.key k :: p) (.obj o) ks
  | clientOverlay {p : JsonPath} {ks : List String} (hp : (p, ks) ∈ clientOverlayObjects) {j : Json} {o : Json.Members}
      (ho : j.get? p = some (.obj o)) : Reads L (L.codec ClientCapabilities) p j ks
  | authMethod (o : Json.Members) : Reads L (L.codec AuthMethod) [] (.obj o)
      ["id", "name", "description", "type", "args", "env", "_meta"]
  | suToolCall {p : JsonPath} {j : Json} {ks : List String} (h : Reads L (L.codec ToolCall) p j ks) :
      Reads L (L.codec SuToolCall) p j ks
  | suToolCallUpdate {p : JsonPath} {j : Json} {ks : List String} (h : Reads L (L.codec ToolCallUpdate) p j ks) :
      Reads L (L.codec SuToolCallUpdate) p j ks

/-- **What is read is there.** -/
theorem Reads.object {L : Jsonrpc} {α : Type} {c : Codec α} {p : JsonPath} {j : Json} {ks : List String}
    (h : Reads L c p j ks) : ∃ o, j.get? p = some (.obj o) := by
  induction h with
  | member _ _ _ hy _ ih | options hy _ ih | clientMember _ _ hy _ ih =>
    obtain ⟨o', ho⟩ := ih
    refine ⟨o', ?_⟩
    show (Option.bind _ _) = _
    rw [Json.find?_obj, hy]
    exact ho
  | item hy _ ih | selectOption _ hy _ ih | selectGroup _ hy _ ih =>
    obtain ⟨o', ho⟩ := ih
    refine ⟨o', ?_⟩
    show (Option.bind _ _) = _
    rw [hy]
    exact ho
  | unit _ o | record _ _ o | noArm _ | configOption o | clientCapabilities o | authMethod o => exact ⟨_, rfl⟩
  | clientSession _ ho | clientOverlay _ ho => exact ⟨_, ho⟩
  | arm _ _ _ ih | textResource _ _ ih | blobResource _ _ _ ih | stdioServer _ _ _ _ ih | httpServer _ _ ih
    | sseServer _ _ ih | commandInput _ _ ih | suToolCall _ ih | suToolCallUpdate _ ih => exact ih

theorem Reads.ne_null {L : Jsonrpc} {α : Type} {c : Codec α} {p : JsonPath} {j : Json} {ks : List String}
    (h : Reads L c p j ks) : j ≠ .null := by
  rintro rfl
  obtain ⟨o, ho⟩ := h.object
  rcases p with _ | ⟨_ | _, p⟩ <;> cases ho

/-! ## One codec at a time -/

/-- What the edit leaves of `c`'s outcome: all of it. -/
def Ignores {α : Type} (c : Codec α) (k : String) (x : Option Json) (p : JsonPath) (j : Json) : Prop :=
  outcome (c.decode (j.editAt k x p)) = outcome (c.decode j)

theorem notMem_declared {p : JsonPath} {outer ks : List String} {k : String} (h : k ∉ declared p outer ks) :
    k ∉ ks ∧ (p = [] → k ∉ outer) := by
  unfold declared at h
  cases p with
  | nil =>
    rw [List.isEmpty_nil, if_pos rfl, List.mem_append, not_or] at h
    exact ⟨h.2, fun _ => h.1⟩
  | cons s p => exact ⟨h, fun hp => by cases hp⟩

/-- An object that is edited is an object, and a member off the way is the one it was. -/
theorem editAt_obj (k : String) (x : Option Json) (p : JsonPath) (o : Json.Members) : ∃ o',
    Json.editAt k x p (.obj o) = .obj o' ∧
      ∀ k', Json.firstStep k p ≠ .key k' → o'.find? k' = o.find? k' := by
  obtain ⟨o', ho⟩ := (Json.isObject_iff (Json.editAt k x p (.obj o))).1 (by simp)
  refine ⟨o', ho, fun k' hk => ?_⟩
  have := Json.find?_editAt_of_ne k x hk (j := .obj o)
  rwa [ho] at this

section Codecs

variable {L : Jsonrpc} {k : String} {x : Option Json} {p : JsonPath}

section Record

variable (hL : L.Lawful) {T : Type} {init : T} {fs : List (FieldSpec T)} {o : Json.Members}
include hL

theorem record_ignores (h : ∀ f ∈ fs, Json.firstStep k p ≠ .key f.key) : Ignores (L.record init fs) k x p (.obj o) := by
  obtain ⟨o', ho, hfind⟩ := editAt_obj k x p o
  unfold Ignores
  rw [ho, hL.record_decode, hL.record_decode, readAll_congr fs init (fun f hf => hfind f.key (h f hf))]

theorem record_ignores_member (hn : (fs.map FieldSpec.key).Nodup) {f : FieldSpec T} (hf : f ∈ fs) {k' : String}
    {A : Type} {c : Codec A} (hv : f.Via k' c) {y : Json} (hy : o.find? k' = some y) (hne : y ≠ .null)
    (h : Ignores c k x p y) : Ignores (L.record init fs) k x (.key k' :: p) (.obj o) := by
  have hkey : f.key = k' := by cases hv <;> rfl
  unfold Ignores
  rw [Json.editAt_key_obj, hL.record_decode, hL.record_decode]
  refine outcome_foldlM_congr fs init (fun g hg t => ?_)
  rw [FinMap.find?_adjust]
  by_cases hk : g.key = k'
  · obtain rfl : g = f := List.inj_on_of_nodup_map hn hg hf (hk.trans hkey.symm)
    rw [if_pos hk, hk, hy]
    exact hL.outcome_read hv (Json.editAt_ne_null k x hne) hne h t
  · rw [if_neg hk]

end Record

section List

variable {A : Type} {c : Codec A} {xs : List Json} {i : Nat} {y : Json}

theorem list_ignores (hL : L.Lawful) (hy : xs[i]? = some y) (h : Ignores c k x p y) :
    Ignores (L.listCodec c) k x (.item i :: p) (.arr xs) := by
  unfold Ignores
  rw [Json.editAt_item_arr, (hL.list_decode c _).outcome_eq, (hL.list_decode c xs).outcome_eq,
    outcome_mapM_modify xs hy h]

theorem frontHasGroup_editAt (x : Option Json) (xs : List Json) (i : Nat) (h : p = [] → k ≠ "group") :
    frontHasGroup (xs.modify i (Json.editAt k x p)) = frontHasGroup xs := by
  cases xs with
  | nil => rw [List.modify_nil]
  | cons z xs =>
    cases i with
    | succ i => rfl
    | zero =>
      show ((Json.editAt k x p z).isObject && (Json.editAt k x p z).contains "group") =
        (z.isObject && z.contains "group")
      rw [Json.isObject_editAt, Json.contains_editAt k x (fun hp he => h hp he.symm)]

end List

section Sum

variable {S : Type} {tag : String} {arms : List (Arm S)} {o o' : Json.Members}

theorem sum_outcome_congr (hL : L.Lawful) {b : Arm S} (hl : o.find? tag = some (.str b.label))
    (hl' : o'.find? tag = some (.str b.label)) (hb : arms.find? (fun b' => b'.label == b.label) = some b)
    (h : outcome (b.codec.decode (.obj o')) = outcome (b.codec.decode (.obj o))) :
    outcome ((L.sumTagged tag arms).decode (.obj o')) = outcome ((L.sumTagged tag arms).decode (.obj o)) := by
  rw [(hL.sum_decode tag arms b b.label o' hl' hb).outcome_eq, (hL.sum_decode tag arms b b.label o hl hb).outcome_eq, h]

theorem sum_outcome_noArm (hL : L.Lawful) (hl : ∀ b ∈ arms, o.find? tag ≠ some (.str b.label))
    (he : o'.find? tag = o.find? tag) :
    outcome ((L.sumTagged tag arms).decode (.obj o')) = outcome ((L.sumTagged tag arms).decode (.obj o)) := by
  obtain ⟨e, h⟩ := hL.sum_decode_other tag arms (.obj o) hl
  obtain ⟨e', h'⟩ := hL.sum_decode_other tag arms (.obj o') (fun b hb hj => hl b hb (he ▸ hj))
  rw [h, h']
  rfl

end Sum

/-! ### The hand-written codecs -/

section Object

variable {o o' : Json.Members}

theorem mcpServerOf_congr {t : String} {j j' : Json}
    (hs : t ≠ "http" → t ≠ "sse" →
      outcome (L.fromJson StdioMcpServer j') = outcome (L.fromJson StdioMcpServer j))
    (hh : t = "http" → outcome (L.fromJson HttpMcpServer j') = outcome (L.fromJson HttpMcpServer j))
    (he : t = "sse" → outcome (L.fromJson SseMcpServer j') = outcome (L.fromJson SseMcpServer j)) :
    outcome (mcpServerOf L t j') = outcome (mcpServerOf L t j) := by
  unfold mcpServerOf
  by_cases h1 : t = "http"
  · rw [if_pos h1, if_pos h1]
    exact outcome_map_congr _ (hh h1)
  · rw [if_neg h1, if_neg h1]
    by_cases h2 : t = "sse"
    · rw [if_pos h2, if_pos h2]
      exact outcome_map_congr _ (he h2)
    · rw [if_neg h2, if_neg h2]
      exact outcome_map_congr _ (hs h1 h2)

theorem embeddedResource_ignores (hk : ∀ k' ∈ ["text", "blob"], p = [] → k' ≠ k)
    (ht : (o.find? "text").isSome = true → Ignores (L.codec TextResource) k x p (.obj o))
    (hb : (o.find? "text").isSome = false → (o.find? "blob").isSome = true →
      Ignores (L.codec BlobResource) k x p (.obj o)) : Ignores (L.codec EmbeddedResource) k x p (.obj o) := by
  obtain ⟨o', ho, -⟩ := editAt_obj k x p o
  have hsome : ∀ k' ∈ ["text", "blob"], (o'.find? k').isSome = (o.find? k').isSome := fun k' hk' => by
    have := Json.contains_editAt k x (hk k' hk') (j := .obj o)
    rwa [ho] at this
  unfold Ignores at ht hb ⊢
  rw [ho] at ht hb ⊢
  rw [embeddedResource_decode, embeddedResource_decode, hsome "text" (by simp), hsome "blob" (by simp)]
  cases h1 : (o.find? "text").isSome with
  | true => exact outcome_map_congr _ (ht h1)
  | false =>
    cases h2 : (o.find? "blob").isSome with
    | true => exact outcome_map_congr _ (hb h1 h2)
    | false => rfl

/-- A `type` that is a string, or is not there, is not on the way. -/
theorem firstStep_ne_of_value {k' d t : String} (ht : (Json.obj o).value k' d = .ok t)
    (hp : ∃ q, Json.get? p (.obj o) = some (.obj q)) (hk : p = [] → k' ≠ k) : Json.firstStep k p ≠ .key k' := by
  obtain ⟨q, hq⟩ := hp
  refine Json.firstStep_ne_of_str k hq hk (fun y hy => ⟨t, ?_⟩)
  rw [Json.value_of_some hy] at ht
  exact Json.getString_ok ht

theorem mcpServer_ignores {t : String} (ht : (Json.obj o).value "type" "stdio" = .ok t)
    (hp : ∃ q, Json.get? p (.obj o) = some (.obj q)) (hk : p = [] → "type" ≠ k)
    (h : outcome (mcpServerOf L t (Json.editAt k x p (.obj o))) = outcome (mcpServerOf L t (.obj o))) :
    Ignores (L.codec McpServer) k x p (.obj o) := by
  obtain ⟨o', ho, hfind⟩ := editAt_obj k x p o
  have hne := firstStep_ne_of_value ht hp hk
  unfold Ignores
  rw [ho] at h ⊢
  rw [mcpServer_decode, mcpServer_decode, Json.value_congr (hfind "type" hne), ht]
  exact h

/-- **A config option is read under eight keys.** -/
theorem configOption_outcome_congr
    (h : ∀ k ∈ ["id", "name", "description", "category", "type", "currentValue", "_meta"], o'.find? k = o.find? k)
    (hopts : outcome ((Json.obj o').at_ "options" >>= L.fromJson ConfigSelectOptions) =
      outcome ((Json.obj o).at_ "options" >>= L.fromJson ConfigSelectOptions)) :
    outcome ((L.codec ConfigOption).decode (.obj o')) = outcome ((L.codec ConfigOption).decode (.obj o)) := by
  have hbase : ∀ id name type, configOptionBase (.obj o') id name type = configOptionBase (.obj o) id name type :=
    fun id name type => by
      unfold configOptionBase
      rw [Json.string?_congr (h "description" (by simp)), Json.string?_congr (h "category" (by simp)),
        Json.objectOr_congr (h "_meta" (by simp))]
  have hrest : ∀ (v : ConfigOption) cv, outcome (configOptionRest L (.obj o') v cv) =
      outcome (configOptionRest L (.obj o) v cv) := fun v cv => by
    unfold configOptionRest
    cases v.isBoolean with
    | true => rfl
    | false =>
      refine outcome_bind_congr rfl (fun s => ?_)
      have hb := outcome_map_congr (fun os => { v with currentValue := s, options := os }) hopts
      cases ha : (Json.obj o).at_ "options" <;> cases ha' : (Json.obj o').at_ "options" <;>
        rw [ha, ha'] at hb <;> exact hb
  rw [configOption_decode, configOption_decode, Json.at_congr (h "id" (by simp)), Json.at_congr (h "name" (by simp)),
    Json.value_congr (h "type" (by simp)), Json.at_congr (h "currentValue" (by simp))]
  refine outcome_bind_congr rfl (fun _ => outcome_bind_congr rfl (fun id => outcome_bind_congr rfl (fun _ =>
    outcome_bind_congr rfl (fun name => outcome_bind_congr rfl (fun type => outcome_bind_congr rfl (fun cv => ?_))))))
  rw [hbase]
  exact hrest _ cv

theorem authMethod_decode_congr (h : ∀ k ∈ ["id", "name", "description", "type", "args", "env", "_meta"],
      o'.find? k = o.find? k) : (L.codec AuthMethod).decode (.obj o') = (L.codec AuthMethod).decode (.obj o) := by
  have hargs : stringsOr (.obj o') "args" = stringsOr (.obj o) "args" := by
    unfold stringsOr
    simp only [Json.find?_obj, h "args" (by simp)]
  have henv : stringMapOr (.obj o') "env" = stringMapOr (.obj o) "env" := by
    unfold stringMapOr
    simp only [Json.find?_obj, h "env" (by simp)]
  rw [authMethod_decode, authMethod_decode, Json.at_congr (h "id" (by simp)), Json.at_congr (h "name" (by simp)),
    Json.value_congr (h "type" (by simp)), hargs, henv, Json.string?_congr (h "description" (by simp)),
    Json.objectOr_congr (h "_meta" (by simp))]

end Object

/-! ### The switches -/

theorem present_editAt {j : Json} {k' : String} (h : p = [] → k' ≠ k) :
    present (j.editAt k x p) k' = present j k' := by
  unfold present
  rcases Json.find?_editAt k x h (j := j) with he | ⟨y, p', -, hy, he⟩
  · rw [he]
  · rw [he, hy]
    exact Json.isObject_editAt k x p' y

theorem objectOr_editAt_of_ne {j : Json} {k' : String} (h : Json.firstStep k p ≠ .key k') :
    (j.editAt k x p).objectOr k' = j.objectOr k' := by
  unfold Json.objectOr
  rw [Json.find?_editAt_of_ne k x h]

theorem objectOr_editAt_self (k : String) (x : Option Json) (p : JsonPath) (j : Json) (k' : String) :
    (j.editAt k x (.key k' :: p)).objectOr k' = (j.objectOr k').editAt k x p ∨
      (j.editAt k x (.key k' :: p)).objectOr k' = j.objectOr k' := by
  unfold Json.objectOr
  rw [Json.find?_editAt_self]
  cases hy : j.find? k' with
  | none => exact .inr rfl
  | some y =>
    obtain ⟨o, o', rfl, ho⟩ | ⟨xs, xs', rfl, ho⟩ | ho := Json.editAt_kind k x p y
    · exact .inl (by rw [Option.map_some, ho])
    · exact .inr (by rw [Option.map_some, ho])
    · cases y with
      | obj o => exact .inl (by rw [Option.map_some, ho])
      | _ => exact .inr (by rw [Option.map_some, ho])

theorem present_objectOr_editAt {j : Json} {k₁ k₂ : String} (h : p = [] → k₁ ≠ k) (h' : p = [.key k₁] → k₂ ≠ k) :
    present ((j.editAt k x p).objectOr k₁) k₂ = present (j.objectOr k₁) k₂ := by
  by_cases hs : Json.firstStep k p = .key k₁
  · rcases p with _ | ⟨s, p⟩
    · exact absurd (Step.key.inj hs).symm (h rfl)
    · obtain rfl : s = .key k₁ := hs
      rcases objectOr_editAt_self k x p j k₁ with he | he
      · rw [he]
        exact present_editAt (fun hp => h' (by rw [hp]))
      · rw [he]
  · rw [objectOr_editAt_of_ne hs]

theorem isTrue_objectOr_editAt {j : Json} {k₁ k₂ : String}
    (h : Json.firstStep k p ≠ .key k₁ ∨ (p = [.key k₁] ∧ k₂ ≠ k)) :
    isTrue ((j.editAt k x p).objectOr k₁) k₂ = isTrue (j.objectOr k₁) k₂ := by
  rcases h with h | ⟨rfl, h⟩
  · rw [objectOr_editAt_of_ne h]
  · rcases objectOr_editAt_self k x [] j k₁ with he | he
    · rw [he]
      unfold isTrue
      rw [Json.find?_editAt_of_ne k x (p := []) (fun hk => h (Step.key.inj hk).symm)]
    · rw [he]

theorem clientSession_ignores {ks : List String} (hp : (p, ks) ∈ clientSessionObjects) (hk : k ∉ ks) (j : Json) :
    Ignores (L.codec ClientSessionCapabilities) k x p j := by
  have hkey : p = [] → k ∉ ["compaction", "notices", "configOptions", "_meta"] := by
    rintro rfl
    obtain rfl : ks = ["compaction", "notices", "configOptions", "_meta"] := by simpa [clientSessionObjects] using hp
    exact hk
  have hbool : p = [.key "configOptions"] → "boolean" ≠ k := by
    rintro rfl rfl
    obtain rfl : ks = ["boolean"] := by simpa [clientSessionObjects] using hp
    exact hk (.head _)
  have hmeta : Json.firstStep k p ≠ .key "_meta" := by
    cases p with
    | nil => exact fun h => hkey rfl (by simp [Step.key.inj h])
    | cons s p =>
      intro h
      obtain rfl : s = .key "_meta" := h
      simp [clientSessionObjects] at hp
  unfold Ignores
  show outcome (.ok (ClientSessionCapabilities.mk (present (j.editAt k x p) "compaction") _ _ _)) = outcome (.ok _)
  rw [present_editAt (fun h he => hkey h (by simp [← he])), present_editAt (fun h he => hkey h (by simp [← he])),
    present_editAt (fun h he => hkey h (by simp [← he])),
    present_objectOr_editAt (fun h he => hkey h (by simp [← he])) hbool, objectOr_editAt_of_ne hmeta]

/-- **The overlaid members see no edit** but one in the objects they are read from, of a member they do not read. -/
theorem clientOverlay_editAt {j : Json} (hkey : p = [] → k ∉ ["auth", "elicitation"])
    (hauth : p.head? = some (.key "auth") → p = [.key "auth"] ∧ "terminal" ≠ k)
    (helic : p = [.key "elicitation"] → k ∉ ["form", "url"]) :
    clientOverlay (j.editAt k x p) = clientOverlay j := by
  have hterm : isTrue ((j.editAt k x p).objectOr "auth") "terminal" = isTrue (j.objectOr "auth") "terminal" := by
    refine isTrue_objectOr_editAt ?_
    by_cases h : p.head? = some (.key "auth")
    · exact .inr (hauth h)
    · refine .inl (fun hs => h ?_)
      cases p with
      | nil => exact absurd (Step.key.inj hs) (fun he => hkey rfl (by simp [he]))
      | cons s p => exact congrArg some hs
  funext c
  unfold clientOverlay
  rw [present_editAt (fun h he => hkey h (by simp [← he])), present_editAt (fun h he => hkey h (by simp [← he])), hterm,
    present_objectOr_editAt (fun h he => hkey h (by simp [← he])) (fun h he => helic h (by simp [← he])),
    present_objectOr_editAt (fun h he => hkey h (by simp [← he])) (fun h he => helic h (by simp [← he]))]

theorem clientCapabilities_ignores {j : Json} (hb : Ignores (ClientCapabilities.base L) k x p j)
    (ho : clientOverlay (j.editAt k x p) = clientOverlay j) : Ignores (L.codec ClientCapabilities) k x p j := by
  unfold Ignores
  rw [clientCapabilities_decode, clientCapabilities_decode, ho]
  exact outcome_map_congr _ hb

/-- The keys of the record the overlaid members are laid over. -/
theorem clientBase_keys (L : Jsonrpc) :
    (ClientCapabilities.baseFields L).map FieldSpec.key = ["fs", "terminal", "session", "_meta"] := rfl

theorem arm_ignores (hL : L.Lawful) {S : Type} {tag : String} {arms : List (Arm S)} {b : Arm S} {o : Json.Members}
    (hl : o.find? tag = some (.str b.label)) (hb : arms.find? (fun b' => b'.label == b.label) = some b)
    (hp : ∃ q, Json.get? p (.obj o) = some (.obj q)) (hk : p = [] → tag ≠ k) (h : Ignores b.codec k x p (.obj o)) :
    Ignores (L.sumTagged tag arms) k x p (.obj o) := by
  obtain ⟨o', ho, hfind⟩ := editAt_obj k x p o
  obtain ⟨q, hq⟩ := hp
  have hne : Json.firstStep k p ≠ .key tag := Json.firstStep_ne_of_str k hq hk
    (fun y hy => ⟨b.label, Option.some.inj (hy.symm.trans hl)⟩)
  unfold Ignores at h ⊢
  rw [ho] at h ⊢
  exact sum_outcome_congr hL hl ((hfind tag hne).trans hl) hb h

/-- Which of the two lists it is does not change either. -/
theorem selectOptions_ignores (hL : L.Lawful) {xs : List Json} {i : Nat} {y : Json} (hy : xs[i]? = some y)
    (hk : p = [] → k ≠ "group") (hu : frontHasGroup xs = false → Ignores (L.codec ConfigSelectOption) k x p y)
    (hg : frontHasGroup xs = true → Ignores (L.codec ConfigSelectGroup) k x p y) :
    Ignores (L.codec ConfigSelectOptions) k x (.item i :: p) (.arr xs) := by
  have hfront := frontHasGroup_editAt x xs i hk
  unfold Ignores
  rw [Json.editAt_item_arr, configSelectOptions_decode, configSelectOptions_decode, hfront]
  cases h : frontHasGroup xs with
  | true => exact outcome_map_congr _ (list_ignores hL hy (hg h))
  | false => exact outcome_map_congr _ (list_ignores hL hy (hu h))

theorem configOption_ignores {o : Json.Members}
    (hk : k ∉ ["id", "name", "description", "category", "type", "currentValue", "options", "_meta"]) :
    Ignores (L.codec ConfigOption) k x [] (.obj o) := by
  have hfind : ∀ k' ∈ ["id", "name", "description", "category", "type", "currentValue", "options", "_meta"],
      (o.put k x).find? k' = o.find? k' := fun k' hk' => FinMap.find?_put_of_ne o x (fun he => hk (he ▸ hk'))
  have hsub : ["id", "name", "description", "category", "type", "currentValue", "_meta"] ⊆
      ["id", "name", "description", "category", "type", "currentValue", "options", "_meta"] := by decide
  refine configOption_outcome_congr (fun k' hk' => hfind k' (hsub hk')) ?_
  rw [Json.at_congr (hfind "options" (by decide))]

theorem configOption_ignores_options {o : Json.Members} {y : Json} (hy : o.find? "options" = some y)
    (h : Ignores (L.codec ConfigSelectOptions) k x p y) :
    Ignores (L.codec ConfigOption) k x (.key "options" :: p) (.obj o) := by
  have hfind := fun k' => FinMap.find?_adjust o "options" k' (Json.editAt k x p)
  have hopt : (o.adjust "options" (Json.editAt k x p)).find? "options" = some (y.editAt k x p) := by
    rw [hfind, if_pos rfl, hy]; rfl
  refine configOption_outcome_congr (fun k' hk' => (hfind k').trans (if_neg (fun he => ?_))) ?_
  · rw [he] at hk'
    simp at hk'
  · rw [Json.at_of_some hy, Json.at_of_some hopt]
    exact h

theorem commandInput_ignores {o : Json.Members}
    (ht : (Json.obj o).value "type" "unstructured" = .ok "unstructured")
    (hp : ∃ q, Json.get? p (.obj o) = some (.obj q)) (hk : p = [] → "type" ≠ k)
    (h : Ignores (L.codec UnstructuredCommandInput) k x p (.obj o)) :
    Ignores (L.codec AvailableCommandInput) k x p (.obj o) := by
  obtain ⟨o', ho, hfind⟩ := editAt_obj k x p o
  have hne := firstStep_ne_of_value ht hp hk
  unfold Ignores at h ⊢
  rw [ho] at h ⊢
  rw [availableCommandInput_decode, availableCommandInput_decode, Json.value_congr (hfind "type" hne), ht]
  exact outcome_map_congr _ h

theorem clientCapabilities_ignores_here (hL : L.Lawful) {o : Json.Members}
    (hk : k ∉ ["fs", "terminal", "session", "_meta", "auth", "elicitation"]) :
    Ignores (L.codec ClientCapabilities) k x [] (.obj o) := by
  refine clientCapabilities_ignores (record_ignores hL (fun f hf he => hk ?_))
    (clientOverlay_editAt (fun _ hm => hk ?_) (fun h => by cases h) (fun h => by cases h))
  · have hm := List.mem_map_of_mem (f := FieldSpec.key) hf
    rw [clientBase_keys, ← Step.key.inj he] at hm
    exact List.mem_append_left ["auth", "elicitation"] hm
  · exact List.mem_append_right ["fs", "terminal", "session", "_meta"] hm

theorem clientCapabilities_ignores_member (hL : L.Lawful) {f : FieldSpec ClientCapabilities}
    (hf : f ∈ ClientCapabilities.baseFields L) {k' : String} {A : Type} {c : Codec A} (hv : f.Via k' c)
    {o : Json.Members} {y : Json} (hy : o.find? k' = some y) (hne : y ≠ .null) (h : Ignores c k x p y) :
    Ignores (L.codec ClientCapabilities) k x (.key k' :: p) (.obj o) := by
  have hm := List.mem_map_of_mem (f := FieldSpec.key) hf
  rw [clientBase_keys, show f.key = k' by cases hv <;> rfl] at hm
  refine clientCapabilities_ignores (record_ignores_member hL (clientBase_nodup L) hf hv hy hne h)
    (clientOverlay_editAt (fun he => by cases he) (fun he => ?_) (fun he => ?_))
  · obtain rfl : k' = "auth" := Step.key.inj (Option.some.inj he)
    simp at hm
  · obtain rfl : k' = "elicitation" := Step.key.inj (List.cons.inj he).1
    simp at hm

theorem authMethod_ignores {o : Json.Members} (hk : k ∉ ["id", "name", "description", "type", "args", "env", "_meta"]) :
    Ignores (L.codec AuthMethod) k x [] (.obj o) := by
  have hfind : ∀ k' ∈ ["id", "name", "description", "type", "args", "env", "_meta"],
      (o.put k x).find? k' = o.find? k' := fun k' hk' => FinMap.find?_put_of_ne o x (fun he => hk (he ▸ hk'))
  exact congrArg outcome (authMethod_decode_congr hfind)

theorem clientOverlay_ignores (hL : L.Lawful) {ks : List String} (hp : (p, ks) ∈ clientOverlayObjects) (hk : k ∉ ks)
    {j : Json} {q : Json.Members} (hq : j.get? p = some (.obj q)) : Ignores (L.codec ClientCapabilities) k x p j := by
  have hhead : ∃ s p', p = .key s :: p' ∧ s ∈ ["auth", "elicitation"] := by
    simp only [clientOverlayObjects, List.mem_cons, Prod.mk.injEq, List.not_mem_nil, or_false] at hp
    rcases hp with ⟨rfl, -⟩ | ⟨rfl, -⟩ | ⟨rfl, -⟩ | ⟨rfl, -⟩ <;> exact ⟨_, _, rfl, by decide⟩
  obtain ⟨s, p', rfl, hs⟩ := hhead
  have hbase : Ignores (ClientCapabilities.base L) k x (.key s :: p') j := by
    cases j with
    | obj o =>
      refine record_ignores hL (fun f hf he => ?_)
      have hm := List.mem_map_of_mem (f := FieldSpec.key) hf
      rw [clientBase_keys, ← Step.key.inj he] at hm
      revert hs hm
      simp only [List.mem_cons, List.not_mem_nil, or_false]
      rintro (rfl | rfl) <;> decide
    | _ => cases hq
  refine clientCapabilities_ignores hbase (clientOverlay_editAt (fun h => by cases h) (fun h => ?_) (fun h => ?_))
  · obtain rfl : s = "auth" := Step.key.inj (Option.some.inj h)
    obtain ⟨rfl, rfl⟩ : p' = [] ∧ ks = ["terminal"] := by simpa [clientOverlayObjects] using hp
    exact ⟨rfl, fun he => hk (by simp [he])⟩
  · rw [h] at hp
    obtain rfl : ks = ["form", "url"] := by simpa [clientOverlayObjects] using hp
    exact hk

end Codecs

/-! ## Every codec -/

theorem Reads.ignores {L : Jsonrpc} (hL : L.Lawful) {α : Type} {c : Codec α} {p : JsonPath} {j : Json}
    {ks : List String} (h : Reads L c p j ks) {k : String} (hk : k ∉ ks) (x : Option Json) : Ignores c k x p j := by
  induction h with
  | unit hu o => exact congrArg outcome ((hu (o.put k x)).trans (hu o).symm)
  | record init fs o =>
    refine record_ignores hL (fun f hf he => hk ?_)
    rw [show k = f.key from Step.key.inj he]
    exact List.mem_map_of_mem hf
  | member hn hf hv hy h ih => exact record_ignores_member hL hn hf hv hy h.ne_null (ih hk)
  | item hy _ ih => exact list_ignores hL hy (ih hk)
  | @arm _ tag _ b o hl hb p _ h ih =>
    obtain ⟨hks, htag⟩ := notMem_declared hk
    exact arm_ignores hL hl hb h.object (fun hp he => htag hp (by simp [he])) (ih hks)
  | @noArm _ tag _ o hl =>
    have hne : tag ≠ k := fun he => hk (by simp [he])
    exact sum_outcome_noArm hL hl (FinMap.find?_put_of_ne o x hne)
  | textResource ht _ ih =>
    obtain ⟨hks, hkeys⟩ := notMem_declared hk
    exact embeddedResource_ignores (fun k' hk' hp he => hkeys hp (he ▸ hk')) (fun _ => ih hks)
      (fun h _ => by rw [ht] at h; cases h)
  | blobResource ht hb _ ih =>
    obtain ⟨hks, hkeys⟩ := notMem_declared hk
    exact embeddedResource_ignores (fun k' hk' hp he => hkeys hp (he ▸ hk')) (fun h => by rw [ht] at h; cases h)
      (fun _ _ => ih hks)
  | stdioServer ht hh hs h ih =>
    obtain ⟨hks, htype⟩ := notMem_declared hk
    exact mcpServer_ignores ht h.object (fun hp he => htype hp (by simp [he]))
      (mcpServerOf_congr (fun _ _ => ih hks) (fun he => absurd he hh) (fun he => absurd he hs))
  | httpServer ht h ih =>
    obtain ⟨hks, htype⟩ := notMem_declared hk
    exact mcpServer_ignores ht h.object (fun hp he => htype hp (by simp [he]))
      (mcpServerOf_congr (fun hh _ => absurd rfl hh) (fun _ => ih hks) (fun he => absurd he (by decide)))
  | sseServer ht h ih =>
    obtain ⟨hks, htype⟩ := notMem_declared hk
    exact mcpServer_ignores ht h.object (fun hp he => htype hp (by simp [he]))
      (mcpServerOf_congr (fun _ hs => absurd rfl hs) (fun he => absurd he (by decide)) (fun _ => ih hks))
  | selectOption hg hy _ ih =>
    obtain ⟨hks, hgroup⟩ := notMem_declared hk
    exact selectOptions_ignores hL hy (fun hp he => hgroup hp (by simp [he])) (fun _ => ih hks)
      (fun h => by rw [hg] at h; cases h)
  | selectGroup hg hy _ ih =>
    obtain ⟨hks, hgroup⟩ := notMem_declared hk
    exact selectOptions_ignores hL hy (fun hp he => hgroup hp (by simp [he])) (fun h => by rw [hg] at h; cases h)
      (fun _ => ih hks)
  | configOption o => exact configOption_ignores hk
  | options hy _ ih => exact configOption_ignores_options hy (ih hk)
  | commandInput ht h ih =>
    obtain ⟨hks, htype⟩ := notMem_declared hk
    exact commandInput_ignores ht h.object (fun hp he => htype hp (by simp [he])) (ih hks)
  | clientSession hp _ => exact clientSession_ignores hp hk _
  | clientCapabilities o => exact clientCapabilities_ignores_here hL hk
  | clientMember hf hv hy h ih => exact clientCapabilities_ignores_member hL hf hv hy h.ne_null (ih hk)
  | clientOverlay hp ho => exact clientOverlay_ignores hL hp hk ho
  | authMethod o => exact authMethod_ignores hk
  | suToolCall _ ih => exact outcome_map_congr _ (ih hk)
  | suToolCallUpdate _ ih => exact outcome_map_congr _ (ih hk)

/-- **Members nobody declared are ignored, at every depth**: however member `k` of an object a message is read from is
put, changed or taken out, the message decodes to the same value, or to none both times. -/
theorem unknown_ignored (L : Jsonrpc) (hL : L.Lawful) {α : Type} [CodecOf α] (p : JsonPath) (j : Json)
    (ks : List String) (h : Reads L (L.codec α) p j ks) (k : String) (hk : k ∉ ks) (x : Option Json) :
    outcome (L.fromJson α (j.editAt k x p)) = outcome (L.fromJson α j) :=
  h.ignores hL hk x

/-- A server that names a member it may need one day. -/
theorem unknown_ignored_httpServer :
    outcome (reference.fromJson NewSessionParams (Json.editAt "timeout" (some (.int 3)) [.key "mcpServers", .item 0]
      (.obj (((∅ : Json.Members).insert "cwd" (.str "/")).insert "mcpServers" (.arr [.obj
        ((((∅ : Json.Members).insert "type" (.str "http")).insert "name" (.str "a")).insert "url" (.str "u"))]))))) =
      outcome (reference.fromJson NewSessionParams (.obj (((∅ : Json.Members).insert "cwd" (.str "/")).insert
        "mcpServers" (.arr [.obj
          ((((∅ : Json.Members).insert "type" (.str "http")).insert "name" (.str "a")).insert "url"
            (.str "u"))])))) := by
  have hread : Reads reference (reference.codec McpServer) [] (.obj ((((∅ : Json.Members).insert "type"
      (.str "http")).insert "name" (.str "a")).insert "url" (.str "u"))) ["type", "name", "url", "headers"] :=
    .httpServer rfl (.record _ _ _)
  have hlist : Reads reference (reference.codec (List McpServer)) [.item 0] (.arr [.obj ((((∅ : Json.Members).insert
      "type" (.str "http")).insert "name" (.str "a")).insert "url" (.str "u"))]) ["type", "name", "url", "headers"] :=
    .item rfl hread
  exact unknown_ignored reference reference_lawful (α := NewSessionParams) _ _ _
    (.member (RecordOk.keys_nodup (α := NewSessionParams) reference) (.tail _ (.head _)) (.defaulted _ _ _ _) rfl hlist)
    "timeout" (by simp) (some (.int 3))

end Acp
