import Acp.Flatten
/-!
# ToolViews — a tool call and its update are two views of one wire object

Two records with the same ten keys: what one writes, the other reads.  An update that has a title is read as the tool
call it fills in with the defaults (`ToolCallUpdate.asToolCall`), a tool call as the update that shows it (`Shows`),
and from there back as itself; so it is for the flattened arms, once the tag is swapped (`tool_two_views`).
-/
namespace Acp

open Wire

/-! ## The two views -/

/-- The tool call an update fills in, if it has a title. -/
def ToolCallUpdate.asToolCall (u : ToolCallUpdate) : Option ToolCall :=
  u.title.map fun title =>
    { toolCallId := u.toolCallId, title := title, name := u.name, kind := u.kind.getD .other,
      status := u.status.getD .pending, content := u.content.getD [], locations := u.locations.getD [],
      rawInput := u.rawInput, rawOutput := u.rawOutput, meta_ := u.meta_ }

/-- **`u` shows `t`**: each of its fields is that of `t`, or is left out where that of `t` is the default. -/
structure Shows (t : ToolCall) (u : ToolCallUpdate) : Prop where
  toolCallId : u.toolCallId = t.toolCallId
  title      : u.title = some t.title
  name       : u.name = t.name
  kind       : u.kind = some t.kind ∨ u.kind = none ∧ t.kind = .other
  status     : u.status = some t.status ∨ u.status = none ∧ t.status = .pending
  content    : u.content = some t.content ∨ u.content = none ∧ t.content = []
  locations  : u.locations = some t.locations ∨ u.locations = none ∧ t.locations = []
  rawInput   : u.rawInput = t.rawInput
  rawOutput  : u.rawOutput = t.rawOutput
  meta_      : u.meta_ = t.meta_

theorem Shows.asToolCall {t : ToolCall} {u : ToolCallUpdate} (h : Shows t u) : u.asToolCall = some t := by
  have hfill : ∀ {A : Type} {x : Option A} {a d : A}, (x = some a ∨ x = none ∧ a = d) → x.getD d = a := by
    rintro A x a d (rfl | ⟨rfl, rfl⟩) <;> rfl
  unfold ToolCallUpdate.asToolCall
  rw [h.title, h.toolCallId, h.name, hfill h.kind, hfill h.status, hfill h.content, hfill h.locations, h.rawInput,
    h.rawOutput, h.meta_]
  rfl

/-- Neither raw payload is a null that stands for itself. -/
def RawShown (rawInput rawOutput : Option Json) : Prop := rawInput ≠ some .null ∧ rawOutput ≠ some .null

/-- Every `_meta` in the update is an object, and no raw payload is null. -/
def ToolCallUpdate.Sendable (u : ToolCallUpdate) : Prop := metaOk u ∧ RawShown u.rawInput u.rawOutput

/-- Every `_meta` in the tool call is an object, and no raw payload is null. -/
def ToolCall.Sendable (t : ToolCall) : Prop := metaOk t ∧ RawShown t.rawInput t.rawOutput

/-- **Updates are read as the tool calls they fill in, and tool calls as updates that show them**, where `okU` and
`okT`: `call` and `update` are what becomes of one and of the other, up to the arms `inj` and `inj'`. -/
structure TwoViews {γ δ : Type} (okU : ToolCallUpdate → Prop) (okT : ToolCall → Prop)
    (call : ToolCallUpdate → Except Exn γ) (inj : ToolCall → γ) (update : ToolCall → Except Exn δ)
    (inj' : ToolCallUpdate → δ) : Prop where
  accepted : ∀ u, okU u → ((∃ s, call u = .ok s) ↔ ∃ title, u.title = some title)
  filled   : ∀ u, okU u → ∀ t, u.asToolCall = some t → call u = .ok (inj t)
  shown    : ∀ t, okT t → ∃ u, update t = .ok (inj' u) ∧ Shows t u ∧ call u = .ok (inj t)

theorem TwoViews.relay {γ δ γ' δ' : Type} {okU : ToolCallUpdate → Prop} {okT : ToolCall → Prop}
    {call : ToolCallUpdate → Except Exn γ} {inj : ToolCall → γ} {update : ToolCall → Except Exn δ}
    {inj' : ToolCallUpdate → δ} {f : γ → γ'} {g : δ → δ'} {call' : ToolCallUpdate → Except Exn γ'}
    {update' : ToolCall → Except Exn δ'} (h : TwoViews okU okT call inj update inj')
    (hc : ∀ u, Relays (call u) f (call' u)) (hu : ∀ t, Relays (update t) g (update' t)) :
    TwoViews okU okT call' (fun t => f (inj t)) update' (fun u => g (inj' u)) where
  accepted u hok := by
    rw [← h.accepted u hok]
    constructor
    · rintro ⟨s, hs⟩
      obtain ⟨a, ha, -⟩ := (hc u).ok_inv hs
      exact ⟨a, ha⟩
    · rintro ⟨a, ha⟩
      exact ⟨_, (hc u).ok ha⟩
  filled u hok t ht := (hc u).ok (h.filled u hok t ht)
  shown t hok := by
    obtain ⟨u, hup, hs, hcall⟩ := h.shown t hok
    exact ⟨u, (hu t).ok hup, hs, (hc u).ok hcall⟩

/-! ## What is written is read back as it was -/

/-- The codec writes `a` as no null, and reads it back. -/
def Echoes {A : Type} (c : Codec A) (a : A) : Prop := c.decode (c.encode a) = .ok a ∧ c.encode a ≠ .null

section Echo

variable {L : Jsonrpc} (hL : L.Lawful)
include hL

theorem echoes_of_good {A : Type} [CodecOf A] [Normal A] [Conforms A] [NeverNull A] {a : A} (h : Good a) :
    Echoes (L.codec A) a := by
  refine ⟨?_, NeverNull.ne_null hL a⟩
  have hl := (Conforms.retract hL).loop a h.1
  rwa [h.2] at hl

theorem echoes_json {x : Json} (h : x ≠ .null) : Echoes L.json x := by
  unfold Echoes
  rw [hL.json_encode, hL.json_decode]
  exact ⟨rfl, h⟩

/-- An optional member that its codec echoes is read as it is. -/
theorem reread_echo {T T' A : Type} {k : String} {m : Member T (Option A)} {m' : Member T' (Option A)} {c : Codec A}
    {v : T'} (h : ∀ a ∈ m'.get v, Echoes c a) (t : T) :
    L.read (.optional k m c) (L.write (.optional k m' c) v) t = .ok (m.set t (m'.get v)) := by
  have hr := hL.reread_optional (k := k) (m := m) (g := id) h t
  rwa [Option.map_id] at hr

theorem reread_echo_default {T T' A : Type} {k : String} {m : Member T A} {m' : Member T' (Option A)} {c : Codec A}
    {d : A} {v : T'} (h : ∀ a ∈ m'.get v, Echoes c a) (t : T) :
    L.read (.defaulted k m d c) (L.write (.optional k m' c) v) t = .ok (m.set t ((m'.get v).getD d)) := by
  have hr := hL.reread_optional_defaulted (k := k) (m := m) (d := d) (g := id) h t
  rwa [Option.map_id] at hr

end Echo

theorem good_list {A : Type} [Normal A] (hid : ∀ a : A, norm a = a) {as : List A} (h : metaOk as) : Good as :=
  ⟨h, (List.map_congr_left (fun a _ => hid a)).trans (List.map_id _)⟩

theorem good_of_shown {x : Option Json} (h : x ≠ some .null) {y : Json} (hy : y ∈ x) : y ≠ .null := by
  rintro rfl
  exact h hy

/-! ## From one view to the other -/

section Views

variable {L : Jsonrpc} (hL : L.Lawful)
include hL

/-- **An update with a title is read as the tool call it fills in.** -/
theorem toolCall_of_update {u : ToolCallUpdate} (hu : u.Sendable) {t : ToolCall} (ht : u.asToolCall = some t) :
    L.fromJson ToolCall (L.toJson u) = .ok t := by
  obtain ⟨title, htitle, rfl⟩ := Option.map_eq_some_iff.1 ht
  obtain ⟨⟨hcontent, hlocations, hmeta⟩, hin, hout⟩ := hu
  have hstring : ∀ s : String, Echoes (L.codec String) s := fun s => echoes_of_good hL ⟨trivial, rfl⟩
  refine hL.record_cross (RecordOk.keys_nodup L) (v := u) ?_ (RecordOk.complete L _)
  exact .cons ⟨rfl, hL.reread_required (echoes_of_good hL (a := u.toolCallId) ⟨trivial, rfl⟩).1⟩ <|
    .cons ⟨rfl, hL.reread_optional_required htitle (hstring title).1⟩ <|
    .cons ⟨rfl, reread_echo hL (fun s _ => hstring s)⟩ <|
    .cons ⟨rfl, reread_echo_default hL (fun a _ => echoes_of_good hL (a := a) ⟨trivial, rfl⟩)⟩ <|
    .cons ⟨rfl, reread_echo_default hL (fun a _ => echoes_of_good hL (a := a) ⟨trivial, rfl⟩)⟩ <|
    .cons ⟨rfl, reread_echo_default hL (fun a ha =>
      echoes_of_good hL (good_list (fun _ => rfl) (hcontent a ha)))⟩ <|
    .cons ⟨rfl, reread_echo_default hL (fun a ha =>
      echoes_of_good hL (good_list (fun _ => rfl) (hlocations a ha)))⟩ <|
    .cons ⟨rfl, reread_echo hL (fun _ hx => echoes_json hL (good_of_shown hin hx))⟩ <|
    .cons ⟨rfl, reread_echo hL (fun _ hx => echoes_json hL (good_of_shown hout hx))⟩ <|
    .cons ⟨rfl, hL.reread_meta hmeta⟩ .nil

/-- **An update without a title is no tool call.** -/
theorem title_of_toolCall {u : ToolCallUpdate} {t : ToolCall} (h : L.fromJson ToolCall (L.toJson u) = .ok t) :
    ∃ title, u.title = some title := by
  obtain ⟨y, -, hy, -⟩ := hL.record_required
    (m := ⟨ToolCall.title, fun v a => { v with title := a }⟩) (c := L.codec String) (.tail _ (.head _)) h
  have hw : (L.writeAll (Record.fields L) u ∅).find? "title" = _ :=
    find?_writeAll_empty (RecordOk.keys_nodup L)
      (f := L.optional "title" ⟨ToolCallUpdate.title, fun v a => { v with title := a }⟩) (.tail _ (.head _)) u
  rw [show L.toJson u = _ from record_encode_obj hL u, Json.find?_obj, hw, Jsonrpc.optional, hL.write_optional] at hy
  obtain ⟨title, htitle, -⟩ := Option.map_eq_some_iff.1 hy
  exact ⟨title, htitle⟩

/-- **A tool call is read as an update that shows it.** -/
theorem update_of_toolCall {t : ToolCall} (ht : t.Sendable) :
    ∃ u, L.fromJson ToolCallUpdate (L.toJson t) = .ok u ∧ Shows t u := by
  obtain ⟨⟨hcontent, hlocations, hmeta⟩, hin, hout⟩ := ht
  have hstring : ∀ s : String, Echoes (L.codec String) s := fun s => echoes_of_good hL ⟨trivial, rfl⟩
  have hkind : Echoes (L.codec ToolKind) t.kind := echoes_of_good hL ⟨trivial, rfl⟩
  have hstatus : Echoes (L.codec ToolCallStatus) t.status := echoes_of_good hL ⟨trivial, rfl⟩
  have hcs := echoes_of_good hL (good_list (fun _ => rfl) hcontent)
  have hls := echoes_of_good hL (good_list (fun _ => rfl) hlocations)
  -- each defaulted member is there or not as the library pleases
  obtain ⟨kind, hk, hkread⟩ := hL.reread_defaulted_optional (k := "kind") (d := ToolKind.other) (v := t)
    (m := ⟨ToolCallUpdate.kind, fun v a => { v with kind := a }⟩)
    (n := ⟨ToolCall.kind, fun v a => { v with kind := a }⟩) hkind.1 hkind.2
  obtain ⟨status, hs, hsread⟩ := hL.reread_defaulted_optional (k := "status") (d := ToolCallStatus.pending) (v := t)
    (m := ⟨ToolCallUpdate.status, fun v a => { v with status := a }⟩)
    (n := ⟨ToolCall.status, fun v a => { v with status := a }⟩) hstatus.1 hstatus.2
  obtain ⟨content, hc, hcread⟩ := hL.reread_defaulted_optional (k := "content") (d := []) (v := t)
    (m := ⟨ToolCallUpdate.content, fun v a => { v with content := a }⟩)
    (n := ⟨ToolCall.content, fun v a => { v with content := a }⟩) hcs.1 hcs.2
  obtain ⟨locations, hl, hlread⟩ := hL.reread_defaulted_optional (k := "locations") (d := []) (v := t)
    (m := ⟨ToolCallUpdate.locations, fun v a => { v with locations := a }⟩)
    (n := ⟨ToolCall.locations, fun v a => { v with locations := a }⟩) hls.1 hls.2
  let u : ToolCallUpdate :=
    { toolCallId := t.toolCallId, title := some t.title, name := t.name, kind := kind, status := status,
      content := content, locations := locations, rawInput := t.rawInput, rawOutput := t.rawOutput, meta_ := t.meta_ }
  refine ⟨u, ?_, ⟨rfl, rfl, rfl, hk, hs, hc, hl, rfl, rfl, rfl⟩⟩
  refine hL.record_cross (RecordOk.keys_nodup L) (v := t) ?_ (RecordOk.complete L u)
  exact .cons ⟨rfl, hL.reread_required (echoes_of_good hL (a := t.toolCallId) ⟨trivial, rfl⟩).1⟩ <|
    .cons ⟨rfl, hL.reread_required_optional (hstring t.title).1 (hstring t.title).2⟩ <|
    .cons ⟨rfl, reread_echo hL (fun s _ => hstring s)⟩ <|
    .cons ⟨rfl, hkread⟩ <| .cons ⟨rfl, hsread⟩ <| .cons ⟨rfl, hcread⟩ <| .cons ⟨rfl, hlread⟩ <|
    .cons ⟨rfl, reread_echo hL (fun _ hx => echoes_json hL (good_of_shown hin hx))⟩ <|
    .cons ⟨rfl, reread_echo hL (fun _ hx => echoes_json hL (good_of_shown hout hx))⟩ <|
    .cons ⟨rfl, hL.reread_meta hmeta⟩ .nil

/-- **The plain encodings are two views.** -/
theorem plain_two_views : TwoViews ToolCallUpdate.Sendable ToolCall.Sendable
    (fun u => L.fromJson ToolCall (L.toJson u)) id (fun t => L.fromJson ToolCallUpdate (L.toJson t)) id where
  accepted u hu := by
    constructor
    · rintro ⟨t, ht⟩
      exact title_of_toolCall hL ht
    · rintro ⟨title, htitle⟩
      exact ⟨_, toolCall_of_update hL hu (congrArg (Option.map _) htitle)⟩
  filled u hu t ht := toolCall_of_update hL hu ht
  shown t ht := by
    obtain ⟨u, hu, hs⟩ := update_of_toolCall hL ht
    refine ⟨u, hu, hs, toolCall_of_update hL ⟨?_, ?_⟩ hs.asToolCall⟩
    · exact ((Conforms.retract hL).lands _ u hu).1
    · rw [hs.rawInput, hs.rawOutput]
      exact ht.2

end Views

/-- The arm under another label. -/
def retagged (L : Jsonrpc) (s : SessionUpdate) (label : String) : Json :=
  (L.toJson s).set "sessionUpdate" (.str label)

section Flattened

variable {L : Jsonrpc} (hL : L.Lawful)
include hL

theorem retagged_toolCall (u : ToolCallUpdate) :
    Relays (L.fromJson ToolCall (L.toJson u)) (fun t => SessionUpdate.toolCall ⟨t⟩)
      (L.fromJson SessionUpdate (retagged L (.toolCallUpdate ⟨u⟩) "tool_call")) := by
  have ht := (suToolCallUpdate_added hL u).relabel "tool_call"
  have hr : Relays ((L.codec SuToolCall).decode (L.toJson u)) SessionUpdate.toolCall _ :=
    sum_reads_tagAdded hL (TaggedSum.arms L : List (Arm SessionUpdate)) rfl ht
  rw [suToolCall_decode] at hr
  exact hr.of_map

theorem retagged_toolCallUpdate (t : ToolCall) :
    Relays (L.fromJson ToolCallUpdate (L.toJson t)) (fun u => SessionUpdate.toolCallUpdate ⟨u⟩)
      (L.fromJson SessionUpdate (retagged L (.toolCall ⟨t⟩) "tool_call_update")) := by
  have ht := (suToolCall_added hL t).relabel "tool_call_update"
  have hr : Relays ((L.codec SuToolCallUpdate).decode (L.toJson t)) SessionUpdate.toolCallUpdate _ :=
    sum_reads_tagAdded hL (TaggedSum.arms L : List (Arm SessionUpdate)) rfl ht
  rw [suToolCallUpdate_decode] at hr
  exact hr.of_map

end Flattened

/-- **A tool call and its update are two views of one wire object**, on their own and as arms of a session update whose
tag is swapped. -/
theorem tool_two_views (L : Jsonrpc) (hL : L.Lawful) :
    TwoViews ToolCallUpdate.Sendable ToolCall.Sendable
      (fun u => L.fromJson ToolCall (L.toJson u)) id (fun t => L.fromJson ToolCallUpdate (L.toJson t)) id ∧
    TwoViews ToolCallUpdate.Sendable ToolCall.Sendable
      (fun u => L.fromJson SessionUpdate (retagged L (.toolCallUpdate ⟨u⟩) "tool_call")) (fun t => .toolCall ⟨t⟩)
      (fun t => L.fromJson SessionUpdate (retagged L (.toolCall ⟨t⟩) "tool_call_update"))
      (fun u => .toolCallUpdate ⟨u⟩) :=
  ⟨plain_two_views hL, (plain_two_views hL).relay (retagged_toolCall hL) (retagged_toolCallUpdate hL)⟩

/-- An update with a title and a status, read as the tool call it starts. -/
theorem tool_two_views_titled :
    reference.fromJson ToolCall (reference.toJson
      ({ toolCallId := ⟨"c"⟩, title := some "T", status := some .inProgress } : ToolCallUpdate)) =
      .ok { toolCallId := ⟨"c"⟩, title := "T", status := .inProgress } :=
  (tool_two_views reference reference_lawful).1.filled
    { toolCallId := ⟨"c"⟩, title := some "T", status := some .inProgress }
    ⟨⟨by simp [metaOk], by simp [metaOk], rfl⟩, by simp, by simp⟩ _ rfl

/-- An update whose own `_meta` is an object, but not that of the terminal it shows: no library gives that back. -/
theorem nested_meta_replaced : ¬ ∃ L : Jsonrpc, L.Lawful ∧
    TwoViews (fun u => u.meta_.isObject = true ∧ RawShown u.rawInput u.rawOutput)
      (fun t => t.meta_.isObject = true ∧ RawShown t.rawInput t.rawOutput)
      (fun u => L.fromJson ToolCall (L.toJson u)) id (fun t => L.fromJson ToolCallUpdate (L.toJson t)) id := by
  rintro ⟨L, hL, h⟩
  let u : ToolCallUpdate := { title := some "T", content := some [.terminal { terminalId := "x", meta_ := .arr [] }] }
  have hd : L.fromJson ToolCall (L.toJson u) = .ok _ := h.filled u ⟨rfl, by simp [u], by simp [u]⟩ _ rfl
  have hok := ((Conforms.retract hL).lands _ _ hd).1
  have hm := hok.1 (.terminal { terminalId := "x", meta_ := .arr [] }) (List.mem_singleton.2 rfl)
  cases hm

end Acp
