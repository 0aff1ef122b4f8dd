import Acp.Dispatch
import Acp.Unknown
import Acp.Evidence
/-!
# Idle — members that say no more than if they were left out

A null for an optional member, the default of a defaulted one, an empty `_meta`, the `type` that is understood anyway:
of an object that is read, such a member can be left out or spelled out, in every message and at every depth
(`idle_ignored`).  What a decoder makes of an object inside a message is all that the message's decoder sees of it, but
for the keys that the sums around it pick an arm by (`Inside.ignores`).
-/
namespace Acp

open Wire

/-! ## What is read with what -/

/-- **`Inside L d q c p j ks`**: of `j`, `c` reads the object `q` at `p` with `d`, and looks at its keys `ks` before. -/
inductive Inside (L : Jsonrpc) {β : Type} (d : Codec β) (q : Json.Members) : {α : Type} → Codec α → JsonPath → Json →
    List String → Prop where
  | here : Inside L d q d [] (.obj q) []
  | member {T A : Type} {init : T} {fs : List (FieldSpec T)} (hn : (fs.map FieldSpec.key).Nodup) {f : FieldSpec T}
      (hf : f ∈ fs) {k : String} {c : Codec A} (hv : f.Via k c) {o : Json.Members} {y : Json} (hy : o.find? k = some y)
      {p : JsonPath} {ks : List String} (h : Inside L d q c p y ks) :
      Inside L d q (L.record init fs) (.key k :: p) (.obj o) ks
  | item {A : Type} {c : Codec A} {xs : List Json} {i : Nat} {y : Json} (hy : xs[i]? = some y) {p : JsonPath}
      {ks : List String} (h : Inside L d q c p y ks) : Inside L d q (L.listCodec c) (.item i :: p) (.arr xs) ks
  | arm {S : Type} {tag : String} {arms : List (Arm S)} {b : Arm S} {o : Json.Members}
      (hl : o.find? tag = some (.str b.label)) (hb : arms.find? (fun b' => b'.label == b.label) = some b) {p : JsonPath}
      {ks : List String} (h : Inside L d q b.codec p (.obj o) ks) :
      Inside L d q (L.sumTagged tag arms) p (.obj o) (declared p [tag] ks)
  | textResource {o : Json.Members} (ht : (o.find? "text").isSome = true) {p : JsonPath} {ks : List String}
      (h : Inside L d q (L.codec TextResource) p (.obj o) ks) :
      Inside L d q (L.codec EmbeddedResource) p (.obj o) (declared p ["text", "blob"] ks)
  | blobResource {o : Json.Members} (ht : (o.find? "text").isSome = false) {p : JsonPath} {ks : List String}
      (h : Inside L d q (L.codec BlobResource) p (.obj o) ks) :
      Inside L d q (L.codec EmbeddedResource) p (.obj o) (declared p ["text", "blob"] ks)
  | stdioServer {o : Json.Members} {t : String} (ht : (Json.obj o).value "type" "stdio" = .ok t) (hh : t ≠ "http")
      (hs : t ≠ "sse") {p : JsonPath} {ks : List String} (h : Inside L d q (L.codec StdioMcpServer) p (.obj o) ks) :
      Inside L d q (L.codec McpServer) p (.obj o) (declared p ["type"] ks)
  | httpServer {o : Json.Members} (ht : (Json.obj o).value "type" "stdio" = .ok "http") {p : JsonPath}
      {ks : List String} (h : Inside L d q (L.codec HttpMcpServer) p (.obj o) ks) :
      Inside L d q (L.codec McpServer) p (.obj o) (declared p ["type"] ks)
  | sseServer {o : Json.Members} (ht : (Json.obj o).value "type" "stdio" = .ok "sse") {p : JsonPath} {ks : List String}
      (h : Inside L d q (L.codec SseMcpServer) p (.obj o) ks) :
      Inside L d q (L.codec McpServer) p (.obj o) (declared p ["type"] ks)
  | selectOption {xs : List Json} (hg : frontHasGroup xs = false) {i : Nat} {y : Json} (hy : xs[i]? = some y)
      {p : JsonPath} {ks : List String} (h : Inside L d q (L.codec ConfigSelectOption) p y ks) :
      Inside L d q (L.codec ConfigSelectOptions) (.item i :: p) (.arr xs) (declared p ["group"] ks)
  | selectGroup {xs : List Json} (hg : frontHasGroup xs = true) {i : Nat} {y : Json} (hy : xs[i]? = some y)
      {p : JsonPath} {ks : List String} (h : Inside L d q (L.codec ConfigSelectGroup) p y ks) :
      Inside L d q (L.codec ConfigSelectOptions) (.item i :: p) (.arr xs) (declared p ["group"] ks)
  | options {o : Json.Members} {y : Json} (hy : o.find? "options" = some y) {p : JsonPath} {ks : List String}
      (h : Inside L d q (L.codec ConfigSelectOptions) p y ks) :
      Inside L d q (L.codec ConfigOption) (.key "options" :: p) (.obj o) ks
  | commandInput {o : Json.Members} (ht : (Json.obj o).value "type" "unstructured" = .ok "unstructured") {p : JsonPath}
      {ks : List String} (h : Inside L d q (L.codec UnstructuredCommandInput) p (.obj o) ks) :
      Inside L d q (L.codec AvailableCommandInput) p (.obj o) (declared p ["type"] ks)
  | clientMember {A : Type} {f : FieldSpec ClientCapabilities} (hf : f ∈ ClientCapabilities.baseFields L) {k : String}
      {c : Codec A} (hv : f.Via k c) {o : Json.Members} {y : Json} (hy : o.find? k = some y) {p : JsonPath}
      {ks : List String} (h : Inside L d q c p y ks) :
      Inside L d q (L.codec ClientCapabilities) (.key k :: p) (.obj o) ks
  | suToolCall {p : JsonPath} {j : Json} {ks : List String} (h : Inside L d q (L.codec ToolCall) p j ks) :
      Inside L d q (L.codec SuToolCall) p j ks
  | suToolCallUpdate {p : JsonPath} {j : Json} {ks : List String} (h : Inside L d q (L.codec ToolCallUpdate) p j ks) :
      Inside L d q (L.codec SuToolCallUpdate) p j ks

section Inside

variable {L : Jsonrpc} {α β : Type} {d : Codec β} {q : Json.Members} {c : Codec α} {p : JsonPath} {j : Json}
  {ks : List String}

theorem Inside.object (h : Inside L d q c p j ks) : j.get? p = some (.obj q) := by
  induction h with
  | here => rfl
  | member _ _ _ hy _ ih | options hy _ ih | clientMember _ _ hy _ ih =>
    show (Option.bind _ _) = _
    rw [Json.find?_obj, hy]
    exact ih
  | item hy _ ih | selectOption _ hy _ ih | selectGroup _ hy _ ih =>
    show (Option.bind _ _) = _
    rw [hy]
    exact ih
  | arm _ _ _ ih | textResource _ _ ih | blobResource _ _ ih | stdioServer _ _ _ _ ih | httpServer _ _ ih
    | sseServer _ _ ih | commandInput _ _ ih | suToolCall _ ih | suToolCallUpdate _ ih => exact ih

theorem Inside.ne_null (h : Inside L d q c p j ks) : j ≠ .null := by
  rintro rfl
  have ho := h.object
  rcases p with _ | ⟨_ | _, p⟩ <;> cases ho

/-- **What is read of a message depends on an object inside it only through what is read of that object**, and on the
keys that an arm around it is picked by. -/
theorem Inside.ignores (hL : L.Lawful) (h : Inside L d q c p j ks) {k : String} (hk : k ∉ ks) {x : Option Json}
    (hx : Ignores d k x [] (.obj q)) : Ignores c k x p j := by
  induction h with
  | here => exact hx
  | member hn hf hv hy h ih => exact record_ignores_member hL hn hf hv hy h.ne_null (ih hk)
  | item hy _ ih => exact list_ignores hL hy (ih hk)
  | arm hl hb h ih =>
    obtain ⟨hks, htag⟩ := notMem_declared hk
    exact arm_ignores hL hl hb ⟨q, h.object⟩ (fun hp he => htag hp (by simp [he])) (ih hks)
  | textResource ht _ ih =>
    obtain ⟨hks, hkeys⟩ := notMem_declared hk
    exact embeddedResource_ignores (fun k' hk' hp he => hkeys hp (he ▸ hk')) (fun _ => ih hks)
      (fun h _ => by rw [ht] at h; cases h)
  | blobResource ht _ ih =>
    obtain ⟨hks, hkeys⟩ := notMem_declared hk
    exact embeddedResource_ignores (fun k' hk' hp he => hkeys hp (he ▸ hk')) (fun h => by rw [ht] at h; cases h)
      (fun _ _ => ih hks)
  | stdioServer ht hh hs h ih =>
    obtain ⟨hks, htype⟩ := notMem_declared hk
    exact mcpServer_ignores ht ⟨q, h.object⟩ (fun hp he => htype hp (by simp [he]))
      (mcpServerOf_congr (fun _ _ => ih hks) (fun he => absurd he hh) (fun he => absurd he hs))
  | httpServer ht h ih =>
    obtain ⟨hks, htype⟩ := notMem_declared hk
    exact mcpServer_ignores ht ⟨q, h.object⟩ (fun hp he => htype hp (by simp [he]))
      (mcpServerOf_congr (fun hh _ => absurd rfl hh) (fun _ => ih hks) (fun he => absurd he (by decide)))
  | sseServer ht h ih =>
    obtain ⟨hks, htype⟩ := notMem_declared hk
    exact mcpServer_ignores ht ⟨q, h.object⟩ (fun hp he => htype hp (by simp [he]))
      (mcpServerOf_congr (fun _ hs => absurd rfl hs) (fun he => absurd he (by decide)) (fun _ => ih hks))
  | selectOption hg hy _ ih =>
    obtain ⟨hks, hgroup⟩ := notMem_declared hk
    exact selectOptions_ignores hL hy (fun hp he => hgroup hp (by simp [he])) (fun _ => ih hks)
      (fun h => by rw [hg] at h; cases h)
  | selectGroup hg hy _ ih =>
    obtain ⟨hks, hgroup⟩ := notMem_declared hk
    exact selectOptions_ignores hL hy (fun hp he => hgroup hp (by simp [he])) (fun h => by rw [hg] at h; cases h)
      (fun _ => ih hks)
  | options hy _ ih => exact configOption_ignores_options hy (ih hk)
  | commandInput ht h ih =>
    obtain ⟨hks, htype⟩ := notMem_declared hk
    exact commandInput_ignores ht ⟨q, h.object⟩ (fun hp he => htype hp (by simp [he])) (ih hks)
  | clientMember hf hv hy h ih => exact clientCapabilities_ignores_member hL hf hv hy h.ne_null (ih hk)
  | suToolCall _ ih => exact outcome_map_congr _ (ih hk)
  | suToolCallUpdate _ ih => exact outcome_map_congr _ (ih hk)

end Inside

/-! ## Idle members -/

/-- **The field reads `y` as it reads nothing.** -/
inductive IdleField (L : Jsonrpc) {T : Type} : FieldSpec T → Json → Prop where
  | optional {A : Type} (k : String) (m : Member T (Option A)) (c : Codec A) : IdleField L (.optional k m c) .null
  | defaulted {A : Type} (k : String) (m : Member T A) {a : A} {c : Codec A} {y : Json} (hy : y ≠ .null)
      (ha : c.decode y = .ok a) : IdleField L (.defaulted k m a c) y
  | meta_ (k : String) (m : Member T Json) : IdleField L (.meta_ k m) Json.object

/-- The idle members of a config option. -/
def configOptionIdle : List (String × Json) := [
  ("description", .null), ("category", .null), ("type", .str "select"), ("_meta", .null), ("_meta", Json.object)]

/-- The idle members of an authentication method. -/
def authMethodIdle : List (String × Json) := [
  ("description", .null), ("type", .str "agent"), ("args", .null), ("args", .arr []), ("env", .null),
  ("env", Json.object), ("_meta", .null), ("_meta", Json.object)]

/-- **To `d`, the member `y` under `k` says no more than if it were not there.** -/
inductive Idle (L : Jsonrpc) : {β : Type} → Codec β → String → Json → Prop where
  | field {T : Type} {init : T} {fs : List (FieldSpec T)} (hn : (fs.map FieldSpec.key).Nodup) {f : FieldSpec T}
      (hf : f ∈ fs) {y : Json} (h : IdleField L f y) : Idle L (L.record init fs) f.key y
  | configOption {k : String} {y : Json} (h : (k, y) ∈ configOptionIdle) : Idle L (L.codec ConfigOption) k y
  | authMethod {k : String} {y : Json} (h : (k, y) ∈ authMethodIdle) : Idle L (L.codec AuthMethod) k y
  | mcpServer : Idle L (L.codec McpServer) "type" (.str "stdio")
  | commandInput : Idle L (L.codec AvailableCommandInput) "type" (.str "unstructured")
  | clientSession (k : String) : Idle L (L.codec ClientSessionCapabilities) k .null
  | clientSessionMeta : Idle L (L.codec ClientSessionCapabilities) "_meta" Json.object
  | clientField {f : FieldSpec ClientCapabilities} (hf : f ∈ ClientCapabilities.baseFields L) {y : Json}
      (h : IdleField L f y) : Idle L (L.codec ClientCapabilities) f.key y
  | clientNull {k : String} (hk : k ∈ ["session", "auth", "elicitation"]) : Idle L (L.codec ClientCapabilities) k .null

section Idle

variable {L : Jsonrpc} {o : Json.Members} {k : String} {y : Json}

/-! ### nlohmann's accessors -/

theorem value_idle (ho : o.find? k = none) (k' d : String) (h : k' = k → y = .str d) :
    (Json.obj (o.insert k y)).value k' d = (Json.obj o).value k' d := by
  by_cases hk : k' = k
  · rw [hk, Json.value_of_some (FinMap.find?_insert_self o k y), Json.value_of_none ho, h hk]
    rfl
  · exact Json.value_congr (FinMap.find?_insert_of_ne o y hk) d

theorem string?_idle (ho : o.find? k = none) (k' : String) (h : k' = k → y.isString = false) :
    (Json.obj (o.insert k y)).string? k' = (Json.obj o).string? k' := by
  by_cases hk : k' = k
  · have hy := h hk
    subst hk
    unfold Json.string?
    rw [Json.find?_obj, Json.find?_obj, FinMap.find?_insert_self, ho]
    cases y <;> first | rfl | cases hy
  · exact Json.string?_congr (FinMap.find?_insert_of_ne o y hk)

theorem objectOr_idle (ho : o.find? k = none) (k' : String) (h : k' = k → y = .null ∨ y = Json.object) :
    (Json.obj (o.insert k y)).objectOr k' = (Json.obj o).objectOr k' := by
  by_cases hk : k' = k
  · have hy := h hk
    subst hk
    unfold Json.objectOr
    rw [Json.find?_obj, Json.find?_obj, FinMap.find?_insert_self, ho]
    rcases hy with rfl | rfl <;> rfl
  · exact Json.objectOr_congr (FinMap.find?_insert_of_ne o y hk)

theorem present_idle (ho : o.find? k = none) (k' : String) (h : k' = k → y.isObject = false) :
    present (.obj (o.insert k y)) k' = present (.obj o) k' := by
  unfold present
  rw [Json.find?_obj, Json.find?_obj]
  by_cases hk : k' = k
  · have hy := h hk
    rw [hk, FinMap.find?_insert_self, ho]
    exact hy
  · rw [FinMap.find?_insert_of_ne o y hk]

theorem stringsOr_idle (ho : o.find? k = none) (k' : String) (h : k' = k → y = .null ∨ y = .arr []) :
    stringsOr (.obj (o.insert k y)) k' = stringsOr (.obj o) k' := by
  unfold stringsOr
  rw [Json.find?_obj, Json.find?_obj]
  by_cases hk : k' = k
  · rw [hk, FinMap.find?_insert_self, ho]
    rcases h hk with rfl | rfl <;> rfl
  · rw [FinMap.find?_insert_of_ne o y hk]

theorem stringMapOr_idle (ho : o.find? k = none) (k' : String) (h : k' = k → y = .null ∨ y = Json.object) :
    stringMapOr (.obj (o.insert k y)) k' = stringMapOr (.obj o) k' := by
  unfold stringMapOr
  rw [Json.find?_obj, Json.find?_obj]
  by_cases hk : k' = k
  · rw [hk, FinMap.find?_insert_self, ho]
    rcases h hk with rfl | rfl
    · rfl
    · have hempty : (∅ : FinMap String String).map Json.str = ∅ := FinMap.ext_find? (fun k => by simp)
      have hmap := Json.getStringMap_map_str ∅
      rwa [hempty] at hmap
  · rw [FinMap.find?_insert_of_ne o y hk]

/-! ### The decoders -/

/-- A field that reads the member as it reads nothing, in a record. -/
theorem IdleField.read (hL : L.Lawful) {T : Type} {f : FieldSpec T} (h : IdleField L f y) (t : T) :
    L.read f (some y) t = L.read f none t := by
  cases h with
  | optional k m c => rw [hL.read_optional_null, hL.read_optional_none]
  | defaulted k m hy ha => rw [(hL.read_defaulted k m _ _ y t hy).ok ha, hL.read_defaulted_none]
  | meta_ k m =>
    rw [hL.read_meta_none]
    exact hL.read_meta k m ∅ t

theorem readAll_idle {T : Type} {fs : List (FieldSpec T)} (ho : o.find? k = none)
    (h : ∀ f ∈ fs, f.key = k → ∀ t, L.read f (some y) t = L.read f none t) (t : T) :
    L.readAll fs (o.insert k y) t = L.readAll fs o t := by
  induction fs generalizing t with
  | nil => rfl
  | cons f fs ih =>
    have hread : L.read f ((o.insert k y).find? f.key) t = L.read f (o.find? f.key) t := by
      by_cases hk : f.key = k
      · rw [hk, FinMap.find?_insert_self, ho]
        exact h f List.mem_cons_self hk t
      · rw [FinMap.find?_insert_of_ne o y hk]
    unfold Jsonrpc.readAll at ih ⊢
    rw [List.foldlM_cons, List.foldlM_cons, hread]
    congr 1
    funext t'
    exact ih (fun g hg => h g (List.mem_cons_of_mem _ hg)) t'

theorem record_idle (hL : L.Lawful) {T : Type} {init : T} {fs : List (FieldSpec T)} (hn : (fs.map FieldSpec.key).Nodup)
    {f : FieldSpec T} (hf : f ∈ fs) (h : IdleField L f y) (ho : o.find? f.key = none) :
    (L.record init fs).decode (.obj (o.insert f.key y)) = (L.record init fs).decode (.obj o) := by
  rw [hL.record_decode, hL.record_decode]
  refine readAll_idle ho (fun g hg hk t => ?_) init
  obtain rfl : g = f := List.inj_on_of_nodup_map hn hg hf hk
  exact h.read hL t

theorem configOption_idle (h : (k, y) ∈ configOptionIdle) (ho : o.find? k = none) :
    (L.codec ConfigOption).decode (.obj (o.insert k y)) = (L.codec ConfigOption).decode (.obj o) := by
  have hother : ∀ k' ∈ ["id", "name", "currentValue", "options"], (o.insert k y).find? k' = o.find? k' := by
    intro k' hk'
    have hne : ∀ e ∈ configOptionIdle, e.1 ∉ ["id", "name", "currentValue", "options"] := by decide
    exact FinMap.find?_insert_of_ne o y (fun he => hne _ h (he ▸ hk'))
  have htype : (Json.obj (o.insert k y)).value "type" "select" = (Json.obj o).value "type" "select" :=
    value_idle ho _ _ (by rintro rfl; simpa [configOptionIdle] using h)
  have hbase : ∀ id name type, configOptionBase (.obj (o.insert k y)) id name type =
      configOptionBase (.obj o) id name type := fun id name type => by
    unfold configOptionBase
    rw [string?_idle ho "description" (by rintro rfl; simp [configOptionIdle] at h; simp [h, Json.isString]),
      string?_idle ho "category" (by rintro rfl; simp [configOptionIdle] at h; simp [h, Json.isString]),
      objectOr_idle ho "_meta" (by rintro rfl; simpa [configOptionIdle] using h)]
  have hrest : ∀ v cv, configOptionRest L (.obj (o.insert k y)) v cv = configOptionRest L (.obj o) v cv := fun v cv => by
    unfold configOptionRest
    rw [Json.at_congr (hother "options" (by simp))]
  rw [configOption_decode, configOption_decode, Json.at_congr (hother "id" (by simp)),
    Json.at_congr (hother "name" (by simp)), htype, Json.at_congr (hother "currentValue" (by simp))]
  simp only [hbase, hrest]

theorem authMethod_idle (h : (k, y) ∈ authMethodIdle) (ho : o.find? k = none) :
    (L.codec AuthMethod).decode (.obj (o.insert k y)) = (L.codec AuthMethod).decode (.obj o) := by
  have hother : ∀ k' ∈ ["id", "name"], (o.insert k y).find? k' = o.find? k' := by
    intro k' hk'
    have hne : ∀ e ∈ authMethodIdle, e.1 ∉ ["id", "name"] := by decide
    exact FinMap.find?_insert_of_ne o y (fun he => hne _ h (he ▸ hk'))
  rw [authMethod_decode, authMethod_decode, Json.at_congr (hother "id" (by simp)),
    Json.at_congr (hother "name" (by simp)),
    value_idle ho "type" _ (by rintro rfl; simpa [authMethodIdle] using h),
    stringsOr_idle ho "args" (by rintro rfl; simpa [authMethodIdle] using h),
    stringMapOr_idle ho "env" (by rintro rfl; simpa [authMethodIdle] using h),
    string?_idle ho "description" (by rintro rfl; simp [authMethodIdle] at h; simp [h, Json.isString]),
    objectOr_idle ho "_meta" (by rintro rfl; simpa [authMethodIdle] using h)]

/-- A `type` that names stdio picks the arm that no `type` picks, and is not a key of that arm. -/
theorem mcpServer_idle (hL : L.Lawful) (ho : o.find? "type" = none) :
    (L.codec McpServer).decode (.obj (o.insert "type" (.str "stdio"))) = (L.codec McpServer).decode (.obj o) := by
  have hskips := Skips.skips (α := StdioMcpServer) (t := "type") hL o (.str "stdio")
  rw [mcpServer_decode_of_untyped ho, mcpServer_decode_of_type (FinMap.find?_insert_self o "type" _),
    mcpServerOf_other L _ (by decide) (by decide), mcpServerOf_other L _ (by decide) (by decide)]
  exact congrArg (McpServer.stdio <$> ·) hskips

theorem commandInput_idle (hL : L.Lawful) (ho : o.find? "type" = none) :
    (L.codec AvailableCommandInput).decode (.obj (o.insert "type" (.str "unstructured"))) =
      (L.codec AvailableCommandInput).decode (.obj o) := by
  have hskips := Skips.skips (α := UnstructuredCommandInput) (t := "type") hL o (.str "unstructured")
  rw [availableCommandInput_decode, availableCommandInput_decode, value_idle ho "type" _ (fun _ => rfl),
    Json.value_of_none ho]
  exact congrArg (AvailableCommandInput.unstructured <$> ·) hskips

theorem clientSession_idle (ho : o.find? k = none) (h : y = .null ∨ k = "_meta" ∧ y = Json.object) :
    clientSession (some (.obj (o.insert k y))) = clientSession (some (.obj o)) := by
  have hpresent : ∀ k' ∈ ["compaction", "notices", "configOptions"],
      present (.obj (o.insert k y)) k' = present (.obj o) k' := fun k' hk' => by
    refine present_idle ho k' (fun he => ?_)
    rcases h with rfl | ⟨rfl, -⟩
    · rfl
    · simp [he] at hk'
  have hobject : ∀ k', (Json.obj (o.insert k y)).objectOr k' = (Json.obj o).objectOr k' := fun k' =>
    objectOr_idle ho k' (fun _ => h.imp_right And.right)
  unfold clientSession
  simp only [Option.getD_some, hpresent "compaction" (by simp), hpresent "notices" (by simp),
    hpresent "configOptions" (by simp), hobject]

/-- A member of the capabilities that is not overlaid. -/
theorem clientField_idle (hL : L.Lawful) {f : FieldSpec ClientCapabilities} (hf : f ∈ ClientCapabilities.baseFields L)
    (h : IdleField L f y) (ho : o.find? f.key = none) :
    (L.codec ClientCapabilities).decode (.obj (o.insert f.key y)) = (L.codec ClientCapabilities).decode (.obj o) := by
  have hm := List.mem_map_of_mem (f := FieldSpec.key) hf
  rw [clientBase_keys] at hm
  have hkeys : ∀ k ∈ ["fs", "terminal", "session", "_meta"], k ≠ "auth" ∧ k ≠ "elicitation" := by decide
  have hoverlay : clientOverlay (.obj (o.insert f.key y)) = clientOverlay (.obj o) := by
    funext c
    unfold clientOverlay
    rw [present_idle ho "auth" (fun he => absurd he.symm (hkeys _ hm).1),
      present_idle ho "elicitation" (fun he => absurd he.symm (hkeys _ hm).2),
      objectOr_idle ho "auth" (fun he => absurd he.symm (hkeys _ hm).1),
      objectOr_idle ho "elicitation" (fun he => absurd he.symm (hkeys _ hm).2)]
  rw [clientCapabilities_decode, clientCapabilities_decode, hoverlay]
  exact congrArg (clientOverlay (.obj o) <$> ·) (record_idle hL (clientBase_nodup L) hf h ho)

/-- A session that is null is read as none, and what is overlaid only where there is an object. -/
theorem clientNull_idle (hL : L.Lawful) (hk : k ∈ ["session", "auth", "elicitation"]) (ho : o.find? k = none) :
    (L.codec ClientCapabilities).decode (.obj (o.insert k .null)) = (L.codec ClientCapabilities).decode (.obj o) := by
  have hoverlay : clientOverlay (.obj (o.insert k .null)) = clientOverlay (.obj o) := by
    funext c
    unfold clientOverlay
    rw [present_idle ho _ (fun _ => rfl), present_idle ho _ (fun _ => rfl), objectOr_idle ho _ (fun _ => .inl rfl),
      objectOr_idle ho _ (fun _ => .inl rfl)]
  have hbase : L.readAll (ClientCapabilities.baseFields L) (o.insert k .null) {} =
      L.readAll (ClientCapabilities.baseFields L) o {} := by
    refine readAll_idle ho (fun f hf he t => ?_) _
    have hm := List.mem_map_of_mem (f := FieldSpec.key) hf
    rw [clientBase_keys] at hm
    have hkeys : ∀ k ∈ ["fs", "terminal", "session", "_meta"], k ∈ ["session", "auth", "elicitation"] → k = "session" :=
      by decide
    obtain rfl : f = _ := List.inj_on_of_nodup_map (clientBase_nodup L) hf (.tail _ (.tail _ (.head _)))
      (hkeys _ hm (he ▸ hk))
    exact (read_session hL (some .null) t).trans (read_session hL none t).symm
  rw [clientCapabilities_decode, clientCapabilities_decode, hoverlay]
  have hdecode : ∀ q : Json.Members,
      (ClientCapabilities.base L).decode (.obj q) = L.readAll (ClientCapabilities.baseFields L) q {} :=
    fun q => hL.record_decode _ _ q
  rw [hdecode, hdecode, hbase]

/-- **An idle member that is put in changes nothing.** -/
theorem Idle.decode (hL : L.Lawful) {β : Type} {d : Codec β} (h : Idle L d k y) (ho : o.find? k = none) :
    d.decode (.obj (o.insert k y)) = d.decode (.obj o) := by
  cases h with
  | field hn hf h => exact record_idle hL hn hf h ho
  | configOption h => exact configOption_idle h ho
  | authMethod h => exact authMethod_idle h ho
  | mcpServer => exact mcpServer_idle hL ho
  | commandInput => exact commandInput_idle hL ho
  | clientSession k => exact congrArg Except.ok (clientSession_idle ho (.inl rfl))
  | clientSessionMeta => exact congrArg Except.ok (clientSession_idle ho (.inr ⟨rfl, rfl⟩))
  | clientField hf h => exact clientField_idle hL hf h ho
  | clientNull hk => exact clientNull_idle hL hk ho

/-- The member is idle, if it is there. -/
def Quiet (L : Jsonrpc) {β : Type} (d : Codec β) (k : String) (x : Option Json) : Prop := ∀ y, x = some y → Idle L d k y

theorem Quiet.ignores (hL : L.Lawful) {β : Type} {d : Codec β} (h : Quiet L d k (o.find? k)) {x : Option Json}
    (hx : Quiet L d k x) : Ignores d k x [] (.obj o) := by
  -- either way it is as if the member were left out
  have hput : ∀ x, Quiet L d k x → d.decode (.obj (o.put k x)) = d.decode (.obj (o.erase k)) := fun x hx => by
    cases x with
    | none => rfl
    | some y =>
      show d.decode (.obj (o.insert k y)) = _
      rw [← FinMap.insert_of_erase]
      exact (hx y rfl).decode hL (FinMap.find?_erase_self o k)
  have ho := hput _ h
  rw [FinMap.put_find?] at ho
  exact congrArg outcome ((hput x hx).trans ho.symm)

end Idle

/-- **Idle members can be left out or spelled out**, in every message and at every depth: where a member of an object that
is read is absent or idle, it can be made absent, or any other idle one, and the message decodes to the same value, or to
none both times. -/
theorem idle_ignored (L : Jsonrpc) (hL : L.Lawful) {α : Type} [CodecOf α] {β : Type} {d : Codec β} {q : Json.Members}
    {p : JsonPath} {j : Json} {ks : List String} (h : Inside L d q (L.codec α) p j ks) {k : String} (hk : k ∉ ks)
    (hq : Quiet L d k (q.find? k)) {x : Option Json} (hx : Quiet L d k x) :
    outcome (L.fromJson α (j.editAt k x p)) = outcome (L.fromJson α j) :=
  h.ignores hL hk (hq.ignores hL hx)

/-- An elicitation that is null is none. -/
theorem idle_ignored_elicitation :
    let client : Json.Members := (∅ : Json.Members).insert "terminal" (.bool true)
    let j : Json := .obj (((∅ : Json.Members).insert "protocolVersion" (.int 1)).insert "clientCapabilities"
      (.obj client))
    outcome (reference.fromJson (InitializeParams {})
        (j.editAt "elicitation" (some .null) [.key "clientCapabilities"])) =
      outcome (reference.fromJson (InitializeParams {}) j) := by
  intro client j
  have hclient : Idle reference (reference.codec ClientCapabilities) "elicitation" .null := .clientNull (by simp)
  exact idle_ignored reference reference_lawful (α := InitializeParams {})
    (.member (RecordOk.keys_nodup (α := InitializeParams {}) reference) (.tail _ (.head _)) (.defaulted _ _ _ _) rfl
      .here)
    (by simp) (fun y hy => by simp [client, FinMap.find?_insert] at hy) (fun y hy => by cases hy; exact hclient)

end Acp
