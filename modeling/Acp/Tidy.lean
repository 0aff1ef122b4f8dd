import Acp.RoundTrip
/-!
# Tidy — nothing empty is put on the wire

`Tidy L c v j` walks the JSON `j` that `v` is written to, next to `v`: a member is there only when a field put it there,
none of them is null, and `_meta` is there exactly when the struct's is not empty.  Every payload is written so
(`sent_tidy`), the ones whose encoders are written by hand included.
-/
namespace Acp

open Wire

/-! ## The walk -/

/-- **`_meta` is written exactly when it is not empty**, as it is. -/
def MetaWritten (m : Json) (x : Option Json) : Prop :=
  ∀ o : Json.Members, m = .obj o → x = if o.isEmpty then none else some (.obj o)

/-- No null and no `_meta`, at any depth. -/
inductive Plain : Json → Prop where
  | bool (b : Bool) : Plain (.bool b)
  | str (s : String) : Plain (.str s)
  | arr {xs : List Json} (h : ∀ x ∈ xs, Plain x) : Plain (.arr xs)
  | obj {o : Json.Members} (hm : o.find? "_meta" = none) (h : ∀ k y, o.find? k = some y → Plain y) : Plain (.obj o)

/-- Of `v`, the field writes `a` under `k` with the codec `c`. -/
inductive Carries {T : Type} (v : T) : FieldSpec T → String → {A : Type} → Codec A → A → Prop where
  | required {A : Type} (k : String) (m : Member T A) (c : Codec A) : Carries v (.required k m c) k c (m.get v)
  | optional {A : Type} (k : String) (m : Member T (Option A)) (c : Codec A) {a : A} (h : m.get v = some a) :
      Carries v (.optional k m c) k c a
  | defaulted {A : Type} (k : String) (m : Member T A) (d : A) (c : Codec A) :
      Carries v (.defaulted k m d c) k c (m.get v)

/-- The members of `o` are the fields' own, and those of the `_meta` fields stand as they should. -/
structure Declared {T : Type} (fs : List (FieldSpec T)) (v : T) (o : Json.Members) : Prop where
  known : ∀ k y, o.find? k = some y →
    (∃ f ∈ fs, ∃ (A : Type) (c : Codec A) (a : A), Carries v f k c a) ∨ ∃ m, FieldSpec.meta_ k m ∈ fs
  metas : ∀ k m, FieldSpec.meta_ k m ∈ fs → MetaWritten (m.get v) (o.find? k)
  bare  : (∀ m, metaField "_meta" m ∉ fs) → o.find? "_meta" = none

/-- **`j` is a tidy way to write `v`.**  Raw JSON is not looked into. -/
inductive Tidy (L : Jsonrpc) : {α : Type} → Codec α → α → Json → Prop where
  | bool (b : Bool) {j : Json} (hj : j ≠ .null) : Tidy L L.bool b j
  | int (i : Int32) {j : Json} (hj : j ≠ .null) : Tidy L L.int i j
  | int64 (i : Int64) {j : Json} (hj : j ≠ .null) : Tidy L L.int64 i j
  | double (x : Double) {j : Json} (hj : j ≠ .null) : Tidy L L.double x j
  | string (s : String) : Tidy L L.string s (.str s)
  | unit : Tidy L L.unit () (.obj ∅)
  | payload (x j : Json) : Tidy L L.json x j
  | enum {E : Type} [DecidableEq E] (ms : List (E × String)) (e : E) (s : String) : Tidy L (L.enumCodec ms) e (.str s)
  | newtype {Tag A : Type} {c : Codec A} {v : Newtype Tag A} {j : Json} (h : Tidy L c v.value j) :
      Tidy L (L.newtypeCodec c) v j
  | list {A : Type} {c : Codec A} {as : List A} {xs : List Json} (hl : xs.length = as.length)
      (h : ∀ (i : Nat) (a : A) (x : Json), as[i]? = some a → xs[i]? = some x → Tidy L c a x) :
      Tidy L (L.listCodec c) as (.arr xs)
  | record {T : Type} {init : T} {fs : List (FieldSpec T)} {v : T} {o : Json.Members} (hd : Declared fs v o)
      (h : ∀ f ∈ fs, ∀ (k : String) (A : Type) (c : Codec A) (a : A) (y : Json), Carries v f k c a →
        o.find? k = some y → Tidy L c a y) : Tidy L (L.record init fs) v (.obj o)
  | sum {S : Type} {tag : String} {arms : List (Arm S)} (ht : tag ≠ "_meta") {b : Arm S} (hb : b ∈ arms) {s : S}
      {a : b.carrier} (ha : b.alt.proj s = some a) {o : Json.Members} (h : Tidy L b.codec a (.obj o)) :
      Tidy L (L.sumTagged tag arms) s (.obj (o.insert tag (.str b.label)))
  | textResource {x : TextResource} {o : Json.Members} (h : Tidy L (L.codec TextResource) x (.obj o)) :
      Tidy L (L.codec EmbeddedResource) (.text x) (.obj o)
  | blobResource {x : BlobResource} {o : Json.Members} (h : Tidy L (L.codec BlobResource) x (.obj o)) :
      Tidy L (L.codec EmbeddedResource) (.blob x) (.obj o)
  | poCancelled (x : PoCancelled) : Tidy L (L.codec PoCancelled) x (.obj ∅)
  | stdioServer {x : StdioMcpServer} {o : Json.Members} (h : Tidy L (L.codec StdioMcpServer) x (.obj o)) :
      Tidy L (L.codec McpServer) (.stdio x) (.obj o)
  | httpServer {x : HttpMcpServer} {o : Json.Members} (h : Tidy L (L.codec HttpMcpServer) x (.obj o)) :
      Tidy L (L.codec McpServer) (.http x) (.obj (o.insert "type" (.str "http")))
  | sseServer {x : SseMcpServer} {o : Json.Members} (h : Tidy L (L.codec SseMcpServer) x (.obj o)) :
      Tidy L (L.codec McpServer) (.sse x) (.obj (o.insert "type" (.str "sse")))
  | ungrouped {items : List ConfigSelectOption} {xs : List Json}
      (h : Tidy L (L.codec (List ConfigSelectOption)) items (.arr xs)) :
      Tidy L (L.codec ConfigSelectOptions) (.ungrouped items) (.arr xs)
  | grouped {items : List ConfigSelectGroup} {xs : List Json}
      (h : Tidy L (L.codec (List ConfigSelectGroup)) items (.arr xs)) :
      Tidy L (L.codec ConfigSelectOptions) (.grouped items) (.arr xs)
  | configOption {v : ConfigOption} {o : Json.Members} (hm : MetaWritten v.meta_ (o.find? "_meta"))
      (hp : ∀ k y, o.find? k = some y → k ≠ "options" → k ≠ "_meta" → Plain y)
      (h : ∀ y, o.find? "options" = some y → Tidy L (L.codec ConfigSelectOptions) v.options y) :
      Tidy L (L.codec ConfigOption) v (.obj o)
  | commandInput {x : UnstructuredCommandInput} {o : Json.Members}
      (h : Tidy L (L.codec UnstructuredCommandInput) x (.obj o)) :
      Tidy L (L.codec AvailableCommandInput) (.unstructured x) (.obj o)
  | clientSession {v : ClientSessionCapabilities} {o : Json.Members} (hm : MetaWritten v.meta_ (o.find? "_meta"))
      (hp : ∀ k y, o.find? k = some y → k ≠ "_meta" → Plain y) : Tidy L (L.codec ClientSessionCapabilities) v (.obj o)
  | clientCapabilities {v : ClientCapabilities} {o o' : Json.Members}
      (h : Tidy L (ClientCapabilities.base L) v (.obj o'))
      (hs : ∀ k, k ∉ ["auth", "elicitation"] → o.find? k = o'.find? k)
      (hp : ∀ k ∈ ["auth", "elicitation"], ∀ y, o.find? k = some y → Plain y) :
      Tidy L (L.codec ClientCapabilities) v (.obj o)
  | authMethod {v : AuthMethod} {o : Json.Members} (hm : MetaWritten v.meta_ (o.find? "_meta"))
      (hp : ∀ k y, o.find? k = some y → k ≠ "env" → k ≠ "_meta" → Plain y) : Tidy L (L.codec AuthMethod) v (.obj o)
  | suToolCall {v : SuToolCall} {o : Json.Members} (h : Tidy L (L.codec ToolCall) v.toolCall (.obj o)) :
      Tidy L (L.codec SuToolCall) v (.obj o)
  | suToolCallUpdate {v : SuToolCallUpdate} {o : Json.Members} (h : Tidy L (L.codec ToolCallUpdate) v.update (.obj o)) :
      Tidy L (L.codec SuToolCallUpdate) v (.obj o)

/-- Raw JSON, by whatever name. -/
inductive Raw (L : Jsonrpc) : {α : Type} → Codec α → Prop where
  | json : Raw L L.json
  | newtype {Tag A : Type} {c : Codec A} (h : Raw L c) : Raw L (L.newtypeCodec c : Codec (Newtype Tag A))

/-- **Nothing but raw JSON is written as null.** -/
theorem Tidy.raw_of_null {L : Jsonrpc} {α : Type} {c : Codec α} {v : α} {j : Json} (h : Tidy L c v j) (hj : j = .null) :
    Raw L c := by
  induction h with
  | payload x j => exact .json
  | newtype _ ih => exact .newtype (ih hj)
  | bool _ hn | int _ hn | int64 _ hn | double _ hn => exact absurd hj hn
  | _ => cases hj

/-! ## What the encoders write -/

theorem metaWritten_of_find? {m : Json} {x : Option Json} (h : x = if m.isEmpty = false then some m else none) :
    MetaWritten m x := by
  rintro o rfl
  have he : (Json.obj o).isEmpty = o.isEmpty := rfl
  rw [h, he]
  cases o.isEmpty <;> rfl

theorem plain_object : Plain Json.object :=
  .obj (FinMap.find?_empty _) (fun k y h => by rw [FinMap.find?_empty] at h; cases h)

theorem plain_set {j : Json} (hj : Plain j) (hobj : j.isObject = true) {k : String} (hk : k ≠ "_meta") {v : Json}
    (hv : Plain v) : Plain (j.set k v) := by
  obtain ⟨o, rfl⟩ := (Json.isObject_iff j).1 hobj
  cases hj with
  | obj hm h =>
    refine .obj ((FinMap.find?_insert_of_ne o v (Ne.symm hk)).trans hm) (fun k' y hy => ?_)
    rw [FinMap.find?_insert] at hy
    by_cases he : k' = k
    · rw [if_pos he] at hy
      cases hy; exact hv
    · rw [if_neg he] at hy
      exact h k' y hy

theorem plain_setIf {j : Json} (hj : Plain j) (hobj : j.isObject = true) (b : Bool) {k : String} (hk : k ≠ "_meta")
    {v : Json} (hv : Plain v) : Plain (setIf j b k v) := by
  cases b with
  | false => exact hj
  | true => exact plain_set hj hobj hk hv

theorem plain_some {x y : Json} (hx : Plain x) (h : some x = some y) : Plain y := Option.some.inj h ▸ hx

theorem plain_map_str {x : Option String} {y : Json} (h : x.map Json.str = some y) : Plain y := by
  obtain ⟨s, -, rfl⟩ := Option.map_eq_some_iff.1 h
  exact .str s

section Record

variable {L : Jsonrpc} (hL : L.Lawful) {T : Type} {fs : List (FieldSpec T)} {v : T}
include hL

omit hL in
theorem Carries.key {f : FieldSpec T} {k : String} {A : Type} {c : Codec A} {a : A}
    (h : Carries v f k c a) : f.key = k := by
  cases h <;> rfl

omit hL in
theorem Carries.via {f : FieldSpec T} {k : String} {A : Type} {c : Codec A} {a : A}
    (h : Carries v f k c a) : f.Via k c := by
  cases h <;> constructor

/-- **A field writes what it carries**, or nothing. -/
theorem Carries.write {f : FieldSpec T} {k : String} {A : Type} {c : Codec A} {a : A} (h : Carries v f k c a) {y : Json}
    (hy : L.write f v = some y) : y = c.encode a := by
  cases h with
  | required k m c =>
    rw [hL.write_required] at hy
    exact (Option.some.inj hy).symm
  | optional k m c h =>
    rw [hL.write_optional, h] at hy
    exact (Option.some.inj hy).symm
  | defaulted k m d c =>
    rcases hL.write_defaulted k m d c v with hw | ⟨-, hw⟩
    · rw [hw] at hy
      exact (Option.some.inj hy).symm
    · rw [hw] at hy; cases hy

/-- What a field writes, it carries, or it is a `_meta`. -/
theorem carries_of_write {f : FieldSpec T} {y : Json} (hy : L.write f v = some y) :
    (∃ (A : Type) (c : Codec A) (a : A), Carries v f f.key c a) ∨ ∃ m, f = .meta_ f.key m := by
  cases f with
  | required k m c => exact .inl ⟨_, c, _, .required k m c⟩
  | optional k m c =>
    rw [hL.write_optional] at hy
    cases hg : m.get v with
    | none => rw [hg] at hy; cases hy
    | some a => exact .inl ⟨_, c, a, .optional k m c hg⟩
  | defaulted k m d c => exact .inl ⟨_, c, _, .defaulted k m d c⟩
  | meta_ k m => exact .inr ⟨m, rfl⟩

theorem metaWritten_write (k : String) (m : Member T Json) : MetaWritten (m.get v) (L.write (.meta_ k m) v) := by
  intro o ho
  by_cases he : o = ∅
  · subst he
    exact hL.write_meta_empty k m v ho
  · have hne : o.isEmpty = false := by
      rw [← Bool.not_eq_true, FinMap.isEmpty_iff]
      exact he
    rw [hL.write_meta k m v o ho he, hne]
    rfl

/-- **A record's members are its fields' own.** -/
theorem declared_writeAll (hn : (fs.map FieldSpec.key).Nodup)
    (hm : ∀ f ∈ fs, f.key = "_meta" → ∃ m, f = metaField "_meta" m) : Declared fs v (L.writeAll fs v ∅) where
  known k y hy := by
    by_cases hk : k ∈ fs.map FieldSpec.key
    · obtain ⟨f, hf, rfl⟩ := List.mem_map.1 hk
      rw [find?_writeAll_empty hn hf] at hy
      rcases carries_of_write hL hy with ⟨A, c, a, h⟩ | ⟨m, h⟩
      · exact .inl ⟨f, hf, A, c, a, h⟩
      · exact .inr ⟨m, h ▸ hf⟩
    · rw [find?_writeAll_empty_of_notMem hk] at hy; cases hy
  metas k m hf := by
    have hw : (L.writeAll fs v ∅).find? k = L.write (.meta_ k m) v := find?_writeAll_empty hn hf v
    rw [hw]
    exact metaWritten_write hL k m
  bare hno := by
    refine find?_writeAll_empty_of_notMem (fun hk => ?_) v
    obtain ⟨f, hf, hkey⟩ := List.mem_map.1 hk
    obtain ⟨m, rfl⟩ := hm f hf hkey
    exact hno m hf

/-- Each member of a record is written by what carries it. -/
theorem encoded_of_carries (hn : (fs.map FieldSpec.key).Nodup) {f : FieldSpec T} (hf : f ∈ fs) {k : String} {A : Type}
    {c : Codec A} {a : A} (hc : Carries v f k c a) {y : Json} (hy : (L.writeAll fs v ∅).find? k = some y) :
    y = c.encode a := by
  rw [← hc.key, find?_writeAll_empty hn hf] at hy
  exact hc.write hL hy

end Record

/-! ### The hand-written encoders -/

section HandWritten

variable {L : Jsonrpc}

/-- A codec that writes what a record's does is tidy where the record is. -/
theorem Tidy.wrap (hL : L.Lawful) {α β : Type} [Record α] {v : α} {c : Codec β} {w : β}
    (hw : c.encode w = (L.codec α).encode v) (h : Tidy L (L.codec α) v ((L.codec α).encode v))
    (hc : ∀ o, Tidy L (L.codec α) v (.obj o) → Tidy L c w (.obj o)) : Tidy L c w (c.encode w) := by
  rw [hw]
  rw [record_encode_obj hL] at h ⊢
  exact hc _ h

/-- The same, where the codec adds a tag. -/
theorem Tidy.wrapTagged (hL : L.Lawful) {α β : Type} [Record α] {v : α} {c : Codec β} {w : β} {k l : String}
    (hw : c.encode w = ((L.codec α).encode v).set k (.str l)) (h : Tidy L (L.codec α) v ((L.codec α).encode v))
    (hc : ∀ o, Tidy L (L.codec α) v (.obj o) → Tidy L c w (.obj (o.insert k (.str l)))) : Tidy L c w (c.encode w) := by
  rw [hw]
  rw [record_encode_obj hL] at h ⊢
  exact hc _ h

theorem tidy_embeddedResource (hL : L.Lawful)
    (ht : ∀ v, Tidy L (L.codec TextResource) v ((L.codec TextResource).encode v))
    (hb : ∀ v, Tidy L (L.codec BlobResource) v ((L.codec BlobResource).encode v)) (v : EmbeddedResource) :
    Tidy L (L.codec EmbeddedResource) v ((L.codec EmbeddedResource).encode v) := by
  cases v with
  | text x => exact .wrap hL rfl (ht x) (fun _ => .textResource)
  | blob x => exact .wrap hL rfl (hb x) (fun _ => .blobResource)

theorem tidy_mcpServer (hL : L.Lawful) (ho : ∀ v, Tidy L (L.codec StdioMcpServer) v ((L.codec StdioMcpServer).encode v))
    (hh : ∀ v, Tidy L (L.codec HttpMcpServer) v ((L.codec HttpMcpServer).encode v))
    (hs : ∀ v, Tidy L (L.codec SseMcpServer) v ((L.codec SseMcpServer).encode v)) (v : McpServer) :
    Tidy L (L.codec McpServer) v ((L.codec McpServer).encode v) := by
  cases v with
  | stdio x => exact .wrap hL rfl (ho x) (fun _ => .stdioServer)
  | http x => exact .wrapTagged hL rfl (hh x) (fun _ => .httpServer)
  | sse x => exact .wrapTagged hL rfl (hs x) (fun _ => .sseServer)

theorem tidy_configSelectOptions (hL : L.Lawful)
    (hu : ∀ v, Tidy L (L.codec (List ConfigSelectOption)) v ((L.codec (List ConfigSelectOption)).encode v))
    (hg : ∀ v, Tidy L (L.codec (List ConfigSelectGroup)) v ((L.codec (List ConfigSelectGroup)).encode v))
    (v : ConfigSelectOptions) : Tidy L (L.codec ConfigSelectOptions) v ((L.codec ConfigSelectOptions).encode v) := by
  cases v with
  | ungrouped items =>
    have he : (L.codec (List ConfigSelectOption)).encode items = .arr (items.map _) := hL.list_encode _ items
    have h := hu items
    show Tidy L _ _ ((L.codec (List ConfigSelectOption)).encode items)
    rw [he] at h ⊢
    exact .ungrouped h
  | grouped items =>
    have he : (L.codec (List ConfigSelectGroup)).encode items = .arr (items.map _) := hL.list_encode _ items
    have h := hg items
    show Tidy L _ _ ((L.codec (List ConfigSelectGroup)).encode items)
    rw [he] at h ⊢
    exact .grouped h

theorem tidy_configOption (h : ∀ v, Tidy L (L.codec ConfigSelectOptions) v ((L.codec ConfigSelectOptions).encode v))
    (v : ConfigOption) : Tidy L (L.codec ConfigOption) v ((L.codec ConfigOption).encode v) := by
  have hfind := configOption_encode_find? L v
  obtain ⟨o, ho⟩ := (Json.isObject_iff _).1 (isObject_configOption_encode L v)
  rw [ho] at hfind ⊢
  refine .configOption (metaWritten_of_find? ?_) (fun k y hy hko hkm => ?_) (fun y hy => ?_)
  · have hm := hfind "_meta"
    rw [find?_configOptionHead] at hm
    rw [← Json.find?_obj, hm]
    simp
  · rw [← Json.find?_obj, hfind, find?_configOptionHead, if_neg (fun hc => hkm hc.1), if_neg (fun hc => hko hc.1)] at hy
    split at hy
    · refine plain_some ?_ hy
      split
      · exact .bool _
      · exact .str _
    split at hy
    · exact plain_some (.str _) hy
    split at hy
    · exact plain_map_str hy
    split at hy
    · exact plain_map_str hy
    split at hy
    · exact plain_some (.str _) hy
    split at hy
    · exact plain_some (.str _) hy
    · cases hy
  · rw [← Json.find?_obj, hfind, find?_configOptionHead] at hy
    cases hb : v.isBoolean with
    | true => simp [hb] at hy
    | false =>
      rw [if_neg (by simp), if_pos ⟨rfl, hb⟩] at hy
      cases hy
      exact h v.options

theorem tidy_clientSession (v : ClientSessionCapabilities) :
    Tidy L (L.codec ClientSessionCapabilities) v ((L.codec ClientSessionCapabilities).encode v) := by
  have hfind := clientSession_encode_find? L v
  obtain ⟨o, ho⟩ := (Json.isObject_iff _).1 (isObject_clientSession_encode L v)
  rw [ho] at hfind ⊢
  refine .clientSession (metaWritten_of_find? ?_) (fun k y hy hkm => ?_)
  · rw [← Json.find?_obj, hfind "_meta"]
    simp
  · rw [← Json.find?_obj, hfind, if_neg (fun hc => hkm hc.1)] at hy
    split at hy
    · exact plain_some (plain_set plain_object rfl (by simp) plain_object) hy
    split at hy
    · exact plain_some plain_object hy
    split at hy
    · exact plain_some plain_object hy
    · cases hy

theorem plain_elicitation (v : ClientCapabilities) : Plain (elicitation v) :=
  plain_setIf (plain_setIf plain_object rfl _ (by simp) plain_object) (isObject_setIf rfl _ _ _) _ (by simp)
    plain_object

theorem tidy_clientCapabilities (hL : L.Lawful)
    (h : ∀ v, Tidy L (ClientCapabilities.base L) v ((ClientCapabilities.base L).encode v)) (v : ClientCapabilities) :
    Tidy L (L.codec ClientCapabilities) v ((L.codec ClientCapabilities).encode v) := by
  have hbase := clientBase_encode_isObject hL v
  have hauth := isObject_setIf hbase "auth" v.authTerminal (Json.object.set "terminal" (.bool true))
  obtain ⟨o, ho⟩ := (Json.isObject_iff ((L.codec ClientCapabilities).encode v)).1 (isObject_setIf hauth _ _ _)
  have hfind : ∀ k, o.find? k = if k = "elicitation" ∧ (v.elicitForm || v.elicitUrl) = true then some (elicitation v)
      else if k = "auth" ∧ v.authTerminal = true then some (Json.object.set "terminal" (.bool true))
      else (L.writeAll (ClientCapabilities.baseFields L) v ∅).find? k := fun k => by
    rw [← Json.find?_obj, ← ho, clientCapabilities_encode, find?_setIf hauth, find?_setIf hbase, clientBase_encode hL,
      Json.find?_obj]
  have hin := h v
  rw [clientBase_encode hL] at hin
  rw [ho]
  refine .clientCapabilities hin (fun k hk => ?_) (fun k hk y hy => ?_)
  · simp only [List.mem_cons, List.not_mem_nil, or_false, not_or] at hk
    rw [hfind, if_neg (fun hc => hk.2 hc.1), if_neg (fun hc => hk.1 hc.1)]
  · have hbare : (L.writeAll (ClientCapabilities.baseFields L) v ∅).find? k = none := by
      refine find?_writeAll_empty_of_notMem ?_ v
      simp only [List.mem_cons, List.not_mem_nil, or_false] at hk
      rcases hk with rfl | rfl
      · exact clientBase_auth_notMem L
      · exact clientBase_elicitation_notMem L
    rw [hfind, hbare] at hy
    split at hy
    · exact plain_some (plain_elicitation v) hy
    split at hy
    · exact plain_some (plain_set plain_object rfl (by simp) (.bool true)) hy
    · cases hy

theorem tidy_authMethod (v : AuthMethod) : Tidy L (L.codec AuthMethod) v ((L.codec AuthMethod).encode v) := by
  have hfind := authMethod_encode_find? L v
  obtain ⟨o, ho⟩ := (Json.isObject_iff _).1 (isObject_authMethod_encode L v)
  rw [ho] at hfind ⊢
  refine .authMethod (metaWritten_of_find? ?_) (fun k y hy hke hkm => ?_)
  · rw [← Json.find?_obj, hfind "_meta"]
    simp
  · rw [← Json.find?_obj, hfind, if_neg (fun hc => hkm hc.1), if_neg (fun hc => hke hc.1)] at hy
    split at hy
    · refine plain_some (.arr (fun x hx => ?_)) hy
      obtain ⟨s, -, rfl⟩ := List.mem_map.1 hx
      exact .str s
    split at hy
    · exact plain_some (.str _) hy
    split at hy
    · exact plain_map_str hy
    split at hy
    · exact plain_some (.str _) hy
    split at hy
    · exact plain_some (.str _) hy
    · cases hy

end HandWritten

/-! ### Every codec -/

theorem Proto.tidy {L : Jsonrpc} (hL : L.Lawful) {α : Type} {c : Codec α} (h : Proto L c) :
    ∀ v, Tidy L c v (c.encode v) := by
  induction h with
  | bool => exact fun b => .bool b (hL.bool.ne_null b)
  | int => exact fun i => .int i (hL.int.ne_null i)
  | int64 => exact fun i => .int64 i (hL.int64.ne_null i)
  | double => exact fun x => .double x (hL.double.ne_null x)
  | string =>
    intro s
    rw [hL.string_encode]
    exact .string s
  | unit =>
    intro u
    rw [hL.unit_encode]
    exact .unit
  | json => exact fun x => .payload x _
  | enum ms hn ht =>
    intro e
    obtain ⟨s, hs⟩ := ht e
    rw [hL.enum_encode ms e s hn hs]
    exact .enum ms e s
  | newtype _ ih =>
    intro v
    rw [hL.newtype_encode]
    exact .newtype (ih v.value)
  | @list A c _ ih =>
    intro as
    rw [hL.list_encode]
    refine .list (List.length_map _) (fun i a x ha hx => ?_)
    rw [List.getElem?_map, ha] at hx
    cases hx
    exact ih a
  | record init fs hn hm _ ih =>
    intro v
    rw [hL.record_encode]
    refine .record (declared_writeAll hL hn hm) (fun f hf k A c a y hc hy => ?_)
    rw [encoded_of_carries hL hn hf hc hy]
    exact ih f hf hc.via a
  | sum tag arms ht hc _ ih =>
    intro s
    obtain ⟨b, a, hb, ha⟩ := hc.total s
    have hmem := List.mem_of_find?_eq_some hb
    obtain ⟨o, ho⟩ := hc.object b hmem a
    have h := ih b hmem a
    rw [ho] at h
    rw [hL.sum_encode tag arms b s a o hb ha ho]
    exact .sum ht hmem ha h
  | embeddedResource _ _ ht hb => exact tidy_embeddedResource hL ht hb
  | poCancelled => exact fun x => .poCancelled x
  | mcpServer _ _ _ ho hh hs => exact tidy_mcpServer hL ho hh hs
  | configSelectOptions _ _ hu hg => exact tidy_configSelectOptions hL hu hg
  | configOption _ ih => exact tidy_configOption ih
  | availableCommandInput _ ih =>
    intro v
    cases v with
    | unstructured x => exact .wrap hL rfl (ih x) (fun _ => .commandInput)
  | clientSessionCapabilities => exact tidy_clientSession
  | clientCapabilities _ ih => exact tidy_clientCapabilities hL ih
  | authMethod => exact tidy_authMethod
  | suToolCall _ ih => exact fun v => .wrap hL rfl (ih v.toolCall) (fun _ => .suToolCall)
  | suToolCallUpdate _ ih => exact fun v => .wrap hL rfl (ih v.update) (fun _ => .suToolCallUpdate)

/-! ## The payloads -/

/-- What a peer sends: every params and result of the protocol but the raw JSON of elicitation/create. -/
inductive SentPayload : (α : Type) → [CodecOf α] → Prop where
  | sessionUpdateMsg : SentPayload SessionUpdateMsg
  | initializeParams (b : Build) : SentPayload (InitializeParams b)
  | initializeResult (b : Build) : SentPayload (InitializeResult b)
  | other {α : Type} [CodecOf α] [Normal α] (h : OtherPayload α) : SentPayload α

theorem SentPayload.proto {L : Jsonrpc} (hL : L.Lawful) {α : Type} [CodecOf α] (h : SentPayload α) :
    Proto L (L.codec α) := by
  cases h with
  | other h =>
    have := h.conforms
    exact Conforms.proto hL
  | initializeResult b => exact initializeResult_proto hL b
  | _ => exact Conforms.proto hL

/-- **Nothing empty is put on the wire**: no member is null, no `_meta` is empty, and one is there exactly when the
struct's own is not, at every depth of every payload. -/
theorem sent_tidy (L : Jsonrpc) (hL : L.Lawful) {α : Type} [CodecOf α] (h : SentPayload α) (v : α) :
    Tidy L (L.codec α) v (L.toJson v) := (h.proto hL).tidy hL v

theorem sent_tidy_configOption : Tidy reference (reference.codec SetConfigOptionResult)
    { configOptions := [{ id := "x", name := "X", type := "boolean" }] }
    (reference.toJson { configOptions := [{ id := "x", name := "X", type := "boolean" }] : SetConfigOptionResult }) :=
  sent_tidy reference reference_lawful (.other .setConfigOptionResult)
    { configOptions := [{ id := "x", name := "X", type := "boolean" }] }

end Acp
