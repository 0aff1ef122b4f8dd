import Acp.MessagesOk
import Acp.Reference
import Mathlib.Tactic.FinCases
/-!
# MetaRelay — the types that drop a peer's `_meta`

A decoded object is sent on with its `_meta` exactly when the type it was decoded as declares one
(`meta_relayed_iff`).  A type that does not drops it without an error: of the updates the message chunks and the usage,
the cancelled outcome, and thirteen of the records; a session mode keeps the one its `SessionModeState` would lose.
-/
namespace Acp

open Wire

/-- The `_meta` of what `c` accepts is written back exactly when `p`. -/
def RelaysMeta {α : Type} (c : Codec α) (p : Prop) : Prop :=
  ∀ (o : Json.Members) (v : α) (m : Json.Members), c.decode (.obj o) = .ok v → o.find? "_meta" = some (.obj m) →
    m ≠ ∅ → ((c.encode v).find? "_meta" = some (.obj m) ↔ p)

/-! ## Records -/

section Record

variable {L : Jsonrpc} (hL : L.Lawful) {T : Type} {fs : List (FieldSpec T)} (mem : Member T Json)
include hL

/-- **The last field reads the `_meta`.** -/
theorem readAll_meta (hlast : fs.getLast? = some (metaField "_meta" mem)) (hget : ∀ t x, mem.get (mem.set t x) = x)
    {o m : Json.Members} {t v : T} (h : L.readAll fs o t = .ok v) (hm : o.find? "_meta" = some (.obj m)) :
    mem.get v = .obj m := by
  obtain ⟨pre, rfl⟩ := List.getLast?_eq_some_iff.1 hlast
  obtain ⟨t', -, h⟩ := readAll_append_inv h
  obtain ⟨w, hw, h⟩ := readAll_cons_inv h
  cases h
  have hr : L.read (metaField "_meta" mem) (some (.obj m)) t' = .ok (mem.set t' (.obj m)) :=
    hL.read_meta "_meta" mem m t'
  have hk : o.find? (metaField "_meta" mem : FieldSpec T).key = some (.obj m) := hm
  rw [hk, hr] at hw
  cases hw
  exact hget t' (.obj m)

/-- **A non-empty `_meta` is written.** -/
theorem writeAll_meta (hn : (fs.map FieldSpec.key).Nodup) (hlast : fs.getLast? = some (metaField "_meta" mem))
    {m : Json.Members} (hne : m ≠ ∅) {v : T} (hv : mem.get v = .obj m) :
    (L.writeAll fs v ∅).find? "_meta" = some (.obj m) :=
  (find?_writeAll_empty hn (List.mem_of_getLast? hlast) v).trans (hL.write_meta "_meta" mem v m hv hne)

end Record

/-- A record that declares `_meta` relays it. -/
theorem relaysMeta_of_declared {L : Jsonrpc} (hL : L.Lawful) {α : Type} [Record α] [Normal α] [RecordOk α]
    (mem : Member α Json) (hlast : (Record.fields L : List (FieldSpec α)).getLast? = some (metaField "_meta" mem))
    (hget : ∀ t x, mem.get (mem.set t x) = x) : RelaysMeta (L.codec α) True := fun o v m h hm hne => by
  obtain ⟨_, ho, hread⟩ := hL.record_decode_inv h
  cases ho
  rw [record_encode_obj hL, Json.find?_obj,
    writeAll_meta hL mem (RecordOk.keys_nodup L) hlast hne (readAll_meta hL mem hlast hget hread hm)]
  simp

section Undeclared

variable {L : Jsonrpc} (hL : L.Lawful) {α : Type} [Record α]
include hL

theorem find?_meta_undeclared (v : α)
    (h : "_meta" ∉ (Record.fields L : List (FieldSpec α)).map FieldSpec.key := by
      simp [Record.fields, FieldSpec.key, Jsonrpc.required, Jsonrpc.optional, Jsonrpc.defaulted]) :
    ((L.codec α).encode v).find? "_meta" = none := by
  rw [record_encode_obj hL]
  exact find?_writeAll_empty_of_notMem h v

/-- A record that does not declare it drops it. -/
theorem relaysMeta_of_undeclared (h : "_meta" ∉ (Record.fields L : List (FieldSpec α)).map FieldSpec.key := by
      simp [Record.fields, FieldSpec.key, Jsonrpc.required, Jsonrpc.optional, Jsonrpc.defaulted]) :
    RelaysMeta (L.codec α) False := fun o v m _ _ _ => by
  rw [find?_meta_undeclared hL v h]
  simp

end Undeclared

/-! ## Sums -/

/-- The arm is the one its values are held by, and `kept` says what it relays of an object with its label. -/
def ArmRelays {S : Type} (tag : String) (arms : List (Arm S)) (kept : Json.Members → Prop) (b : Arm S) : Prop :=
  ∃ p, RelaysMeta b.codec p ∧
    (∀ a, arms.find? (fun b' => b'.holds (b.alt.inj a)) = some b ∧ b.alt.proj (b.alt.inj a) = some a) ∧
    ∀ o : Json.Members, o.find? tag = some (.str b.label) → (p ↔ kept o)

theorem ArmRelays.arm {L : Jsonrpc} {S A : Type} [CodecOf A] {tag label : String} {alt : Alt S A} {arms : List (Arm S)}
    {kept : Json.Members → Prop} {p : Prop} (hr : RelaysMeta (L.codec A) p)
    (hi : ∀ a, arms.find? (fun b' => b'.holds (alt.inj a)) = some (L.arm label alt) ∧ alt.proj (alt.inj a) = some a)
    (hk : ∀ o : Json.Members, o.find? tag = some (.str label) → (p ↔ kept o)) :
    ArmRelays tag arms kept (L.arm label alt) := ⟨p, hr, hi, hk⟩

section Arms

variable {L : Jsonrpc} (hL : L.Lawful) {S A : Type} {tag label : String} {alt : Alt S A} {arms : List (Arm S)}
  {kept : Json.Members → Prop}
include hL

/-- An arm whose record declares `_meta`. -/
theorem ArmRelays.declared [Record A] [Normal A] [RecordOk A] (mem : Member A Json)
    (hk : ∀ o : Json.Members, o.find? tag = some (.str label) → kept o)
    (hlast : (Record.fields L : List (FieldSpec A)).getLast? = some (metaField "_meta" mem) := by rfl)
    (hget : ∀ t x, mem.get (mem.set t x) = x := by intro t x; rfl)
    (hi : ∀ a, arms.find? (fun b' => b'.holds (alt.inj a)) = some (L.arm label alt) ∧
        alt.proj (alt.inj a) = some a := by
      intro a; exact ⟨rfl, rfl⟩) : ArmRelays tag arms kept (L.arm label alt) :=
  .arm (relaysMeta_of_declared hL mem hlast hget) hi (fun o ho => (iff_true_intro (hk o ho)).symm)

/-- An arm whose record does not. -/
theorem ArmRelays.undeclared [Record A] (hk : ∀ o : Json.Members, o.find? tag = some (.str label) → ¬ kept o)
    (hno : "_meta" ∉ (Record.fields L : List (FieldSpec A)).map FieldSpec.key := by
      simp [Record.fields, FieldSpec.key, Jsonrpc.required, Jsonrpc.optional, Jsonrpc.defaulted])
    (hi : ∀ a, arms.find? (fun b' => b'.holds (alt.inj a)) = some (L.arm label alt) ∧
        alt.proj (alt.inj a) = some a := by
      intro a; exact ⟨rfl, rfl⟩) : ArmRelays tag arms kept (L.arm label alt) :=
  .arm (relaysMeta_of_undeclared hL hno) hi (fun o ho => (iff_false_intro (hk o ho)).symm)

end Arms

/-- **A sum relays what the arm its tag picks relays.** -/
theorem relaysMeta_sum {L : Jsonrpc} (hL : L.Lawful) {α : Type} [TaggedSum α] [Normal α] [SumOk α]
    (htag : TaggedSum.tag α ≠ "_meta") {kept : Json.Members → Prop}
    (harms : ∀ b ∈ (TaggedSum.arms L : List (Arm α)), ArmRelays (TaggedSum.tag α) (TaggedSum.arms L) kept b)
    {o m : Json.Members} {v : α} (h : (L.codec α).decode (.obj o) = .ok v) (hm : o.find? "_meta" = some (.obj m))
    (hne : m ≠ ∅) : ((L.codec α).encode v).find? "_meta" = some (.obj m) ↔ kept o := by
  obtain ⟨o', b, a, ho, hb, hl, ha, rfl⟩ := hL.sum_decode_inv h
  cases ho
  obtain ⟨p, hp, hinj, hk⟩ := harms b hb
  obtain ⟨x, hx⟩ := ((SumOk.fits hL).fits b hb).object a
  have he : (L.codec α).encode (b.alt.inj a) = .obj (x.insert (TaggedSum.tag α) (.str b.label)) :=
    hL.sum_encode _ _ b _ a x (hinj a).1 (hinj a).2 hx
  rw [he, Json.find?_obj, FinMap.find?_insert_of_ne _ _ (Ne.symm htag), ← hk o hl, ← hp o a m ha hm hne, hx]
  rfl

/-! ## The hand-written codecs -/

theorem relaysMeta_mcpServer {L : Jsonrpc} (hL : L.Lawful) :
    RelaysMeta (L.codec McpServer) False := fun o v m _ _ _ => by
  have hnone : ((L.codec McpServer).encode v).find? "_meta" = none := by
    cases v with
    | stdio x => exact find?_meta_undeclared hL x
    | http x =>
      refine ((tagAdded_set hL "type" "http" x).find? "_meta").trans ?_
      rw [if_neg (by simp)]
      exact find?_meta_undeclared hL x
    | sse x =>
      refine ((tagAdded_set hL "type" "sse" x).find? "_meta").trans ?_
      rw [if_neg (by simp)]
      exact find?_meta_undeclared hL x
  rw [hnone]
  simp

theorem relaysMeta_clientSession {L : Jsonrpc} : RelaysMeta (L.codec ClientSessionCapabilities) True :=
  fun o v m h hm hne => by
    cases h
    have hv : (Json.obj o).objectOr "_meta" = .obj m := by
      unfold Json.objectOr
      rw [Json.find?_obj, hm]
    have he : (Json.obj m).isEmpty = false := by
      rw [← Bool.not_eq_true, Json.isEmpty_obj_iff]
      exact hne
    rw [clientSession_encode_find?, if_pos ⟨rfl, hv ▸ he⟩]
    exact iff_true_intro (congrArg some hv)

theorem clientOverlay_meta (j : Json) (c : ClientCapabilities) : (clientOverlay j c).meta_ = c.meta_ := by
  unfold clientOverlay
  split <;> split <;> rfl

theorem relaysMeta_clientCapabilities {L : Jsonrpc} (hL : L.Lawful) : RelaysMeta (L.codec ClientCapabilities) True :=
  fun o v m h hm hne => by
    rw [clientCapabilities_decode] at h
    obtain ⟨c, hc, rfl⟩ := map_ok_inv h
    obtain ⟨_, ho, hread⟩ := hL.record_decode_inv hc
    cases ho
    have hcm : c.meta_ = .obj m := readAll_meta hL ⟨(·.meta_), fun v a => { v with meta_ := a }⟩ rfl
      (fun _ _ => rfl) hread hm
    have hobj := clientBase_encode_isObject hL (clientOverlay (.obj o) c)
    rw [clientCapabilities_encode, find?_setIf (isObject_setIf hobj _ _ _), find?_setIf hobj, clientBase_encode hL,
      Json.find?_obj, writeAll_meta hL ⟨(·.meta_), fun v a => { v with meta_ := a }⟩ (clientBase_nodup L) rfl hne
        ((clientOverlay_meta _ c).trans hcm)]
    simp

/-- A wrapped value relays what it relays bare. -/
theorem RelaysMeta.wrap {α β : Type} {c : Codec α} {c' : Codec β} {p : Prop} (h : RelaysMeta c p) (mk : α → β)
    (hdecode : ∀ j, c'.decode j = mk <$> c.decode j) (hencode : ∀ a, c'.encode (mk a) = c.encode a) :
    RelaysMeta c' p := fun o v m hv hm hne => by
  rw [hdecode] at hv
  obtain ⟨a, ha, rfl⟩ := map_ok_inv hv
  rw [hencode]
  exact h o a m ha hm hne

theorem relaysMeta_suToolCall {L : Jsonrpc} (hL : L.Lawful) : RelaysMeta (L.codec SuToolCall) True :=
  (relaysMeta_of_declared hL ⟨(·.meta_), fun v a => { v with meta_ := a }⟩ rfl (fun _ _ => rfl)).wrap
    SuToolCall.mk suToolCall_decode (fun _ => rfl)

theorem relaysMeta_suToolCallUpdate {L : Jsonrpc} (hL : L.Lawful) : RelaysMeta (L.codec SuToolCallUpdate) True :=
  (relaysMeta_of_declared hL ⟨(·.meta_), fun v a => { v with meta_ := a }⟩ rfl (fun _ _ => rfl)).wrap
    SuToolCallUpdate.mk suToolCallUpdate_decode (fun _ => rfl)

theorem relaysMeta_poCancelled {L : Jsonrpc} : RelaysMeta (L.codec PoCancelled) False := fun o v m _ _ _ => by
  show Json.object.find? "_meta" = _ ↔ _
  simp

/-! ## Updates and outcomes -/

/-- The labels of the updates without a `_meta`: the message chunks and the usage. -/
def bareUpdates : List String := ["user_message_chunk", "agent_message_chunk", "agent_thought_chunk", "usage_update"]

/-- The tag is none of the updates without a `_meta`. -/
def UpdateCarriesMeta (o : Json.Members) : Prop := ∀ l ∈ bareUpdates, o.find? "sessionUpdate" ≠ some (.str l)

theorem relaysMeta_sessionUpdate {L : Jsonrpc} (hL : L.Lawful) {o m : Json.Members} {v : SessionUpdate}
    (h : (L.codec SessionUpdate).decode (.obj o) = .ok v) (hm : o.find? "_meta" = some (.obj m)) (hne : m ≠ ∅) :
    ((L.codec SessionUpdate).encode v).find? "_meta" = some (.obj m) ↔ UpdateCarriesMeta o := by
  refine relaysMeta_sum hL (by simp [TaggedSum.tag]) (fun b hb => ?_) h hm hne
  have hcarries : ∀ (l : String), l ∉ bareUpdates → ∀ o : Json.Members, o.find? "sessionUpdate" = some (.str l) →
      UpdateCarriesMeta o := fun l hl o ho l' hl' he => by
    rw [ho] at he
    cases he; exact hl hl'
  have hbare : ∀ (l : String), l ∈ bareUpdates → ∀ o : Json.Members, o.find? "sessionUpdate" = some (.str l) →
      ¬ UpdateCarriesMeta o := fun l hl o ho hc => hc l hl ho
  fin_cases hb
  · exact .undeclared hL (hbare _ (by decide))
  · exact .undeclared hL (hbare _ (by decide))
  · exact .undeclared hL (hbare _ (by decide))
  · exact .declared hL ⟨(·.meta_), fun v a => { v with meta_ := a }⟩ (hcarries _ (by decide))
  · exact .arm (relaysMeta_suToolCall hL) (fun _ => ⟨rfl, rfl⟩)
      (fun o ho => (iff_true_intro (hcarries _ (by decide) o ho)).symm)
  · exact .arm (relaysMeta_suToolCallUpdate hL) (fun _ => ⟨rfl, rfl⟩)
      (fun o ho => (iff_true_intro (hcarries _ (by decide) o ho)).symm)
  · exact .declared hL ⟨(·.meta_), fun v a => { v with meta_ := a }⟩ (hcarries _ (by decide))
  · exact .declared hL ⟨(·.meta_), fun v a => { v with meta_ := a }⟩ (hcarries _ (by decide))
  · exact .declared hL ⟨(·.meta_), fun v a => { v with meta_ := a }⟩ (hcarries _ (by decide))
  · exact .declared hL ⟨(·.meta_), fun v a => { v with meta_ := a }⟩ (hcarries _ (by decide))
  · exact .undeclared hL (hbare _ (by decide))
  · exact .declared hL ⟨(·.meta_), fun v a => { v with meta_ := a }⟩ (hcarries _ (by decide))
  · exact .declared hL ⟨(·.meta_), fun v a => { v with meta_ := a }⟩ (hcarries _ (by decide))
  · exact .declared hL ⟨(·.meta_), fun v a => { v with meta_ := a }⟩ (hcarries _ (by decide))

/-- The tag is the selected outcome's: the cancelled one has no members at all. -/
def OutcomeCarriesMeta (o : Json.Members) : Prop := o.find? "outcome" = some (.str "selected")

theorem relaysMeta_outcome {L : Jsonrpc} (hL : L.Lawful) {o m : Json.Members} {v : RequestPermissionOutcome}
    (h : (L.codec RequestPermissionOutcome).decode (.obj o) = .ok v) (hm : o.find? "_meta" = some (.obj m))
    (hne : m ≠ ∅) : ((L.codec RequestPermissionOutcome).encode v).find? "_meta" = some (.obj m) ↔
      OutcomeCarriesMeta o := by
  refine relaysMeta_sum hL (by simp [TaggedSum.tag]) (fun b hb => ?_) h hm hne
  fin_cases hb
  · exact .arm relaysMeta_poCancelled (fun _ => ⟨rfl, rfl⟩)
      (fun o ho => (iff_false_intro (fun hs => by have := ho.symm.trans hs; simp at this)).symm)
  · exact .declared hL ⟨(·.meta_), fun v a => { v with meta_ := a }⟩ (fun o ho => ho)

/-! ## The types a peer's `_meta` is relayed through, and when it survives -/

/-- The types, and the objects whose `_meta` they keep. -/
inductive MetaKept : (α : Type) → [CodecOf α] → (Json.Members → Prop) → Prop where
  | sessionUpdate             : MetaKept SessionUpdate UpdateCarriesMeta
  | outcome                   : MetaKept RequestPermissionOutcome OutcomeCarriesMeta
  | mcpServer                 : MetaKept McpServer (fun _ => False)
  | stdioMcpServer            : MetaKept StdioMcpServer (fun _ => False)
  | httpMcpServer             : MetaKept HttpMcpServer (fun _ => False)
  | sseMcpServer              : MetaKept SseMcpServer (fun _ => False)
  | keyValue                  : MetaKept KeyValue (fun _ => False)
  | sessionModeState          : MetaKept SessionModeState (fun _ => False)
  | sessionMode               : MetaKept SessionMode (fun _ => True)
  | cost                      : MetaKept Cost (fun _ => False)
  | implementationInfo        : MetaKept ImplementationInfo (fun _ => False)
  | clientCapabilities        : MetaKept ClientCapabilities (fun _ => True)
  | fsCapabilities            : MetaKept FsCapabilities (fun _ => False)
  | clientSessionCapabilities : MetaKept ClientSessionCapabilities (fun _ => True)
  | agentCapabilities         : MetaKept AgentCapabilities (fun _ => True)
  | promptCapabilities        : MetaKept PromptCapabilities (fun _ => False)
  | mcpCapabilities           : MetaKept McpCapabilities (fun _ => False)
  | authCapabilities          : MetaKept AuthCapabilities (fun _ => False)
  | sessionCapabilities       : MetaKept SessionCapabilities (fun _ => False)

/-- **A relayed `_meta` survives exactly where the type, or the arm that the tag picks, declares one.** -/
theorem meta_relayed_iff (L : Jsonrpc) (hL : L.Lawful) {α : Type} [CodecOf α] {kept : Json.Members → Prop}
    (h : MetaKept α kept) (o m : Json.Members) (v : α) (hv : L.fromJson α (.obj o) = .ok v)
    (hm : o.find? "_meta" = some (.obj m)) (hne : m ≠ ∅) :
    (L.toJson v).find? "_meta" = some (.obj m) ↔ kept o := by
  cases h with
  | sessionUpdate => exact relaysMeta_sessionUpdate hL hv hm hne
  | outcome => exact relaysMeta_outcome hL hv hm hne
  | mcpServer => exact relaysMeta_mcpServer hL o v m hv hm hne
  | clientCapabilities => exact relaysMeta_clientCapabilities hL o v m hv hm hne
  | clientSessionCapabilities => exact relaysMeta_clientSession o v m hv hm hne
  | sessionMode | agentCapabilities =>
    exact relaysMeta_of_declared hL ⟨(·.meta_), fun v a => { v with meta_ := a }⟩ rfl (fun _ _ => rfl) o v m hv hm hne
  | _ => exact (relaysMeta_of_undeclared hL) o v m hv hm hne

theorem meta_relayed_iff_notice : (reference.toJson (.notice { title := "t", meta_ := .obj ((∅ : Json.Members).insert
    "k" (.bool true)) } : SessionUpdate)).find? "_meta" = some (.obj ((∅ : Json.Members).insert "k" (.bool true))) :=
  (meta_relayed_iff reference reference_lawful .sessionUpdate
    (((((∅ : Json.Members).insert "sessionUpdate" (.str "notice")).insert "severity" (.str "info")).insert
      "title" (.str "t")).insert "_meta" (.obj ((∅ : Json.Members).insert "k" (.bool true))))
    ((∅ : Json.Members).insert "k" (.bool true))
    (.notice { title := "t", meta_ := .obj ((∅ : Json.Members).insert "k" (.bool true)) }) rfl rfl
    (fun h => by have := FinMap.isEmpty_insert (∅ : Json.Members) "k" (.bool true); rw [h] at this; cases this)).2
    (by simp [UpdateCarriesMeta, bareUpdates, FinMap.find?_insert])

/-- **A user's message chunk loses its `_meta`.** -/
theorem meta_dropped : ¬ ∀ {α : Type} [CodecOf α] {kept : Json.Members → Prop}, MetaKept α kept →
    ∀ (o m : Json.Members) (v : α), reference.fromJson α (.obj o) = .ok v → o.find? "_meta" = some (.obj m) → m ≠ ∅ →
      (reference.toJson v).find? "_meta" = some (.obj m) := fun h => by
  have hne : (∅ : Json.Members).insert "k" (.bool true) ≠ ∅ := fun he => by
    have := FinMap.isEmpty_insert (∅ : Json.Members) "k" (.bool true)
    rw [he] at this; cases this
  have hdrop := h .sessionUpdate
    ((((∅ : Json.Members).insert "sessionUpdate" (.str "user_message_chunk")).insert "content" (.obj
      (((∅ : Json.Members).insert "type" (.str "text")).insert "text" (.str "hi")))).insert "_meta" (.obj
        ((∅ : Json.Members).insert "k" (.bool true))))
    _ (.userMessageChunk { content := .text { text := "hi" } }) rfl rfl hne
  have hnone : (reference.toJson (SessionUpdate.userMessageChunk { content := .text { text := "hi" } })).find? "_meta" =
    none := rfl
  rw [hnone] at hdrop
  cases hdrop

end Acp
