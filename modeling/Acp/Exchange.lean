import Acp.RoundTrip
import Acp.Wire.Simulation
/-!
# Exchange — the protocol as a table (`protocol.hpp`)

The methods of the protocol as a `Table`: what is asked, told and answered arrives as its normal form, once its `_meta`
are objects, and a host that sends nothing else, nor what a text does not carry, and keeps to its promise is `Proper`.
-/
namespace Acp

open Wire

/-! ## The payloads of a method -/

/-- A payload whose `_meta` are objects arrives as its normal form, and what arrives is such a payload. -/
class Crosses (α : Type) [CodecOf α] [Normal α] : Prop where
  arrives : ∀ {L : Jsonrpc}, L.Lawful → ∀ v : α, metaOk v → (L.codec α).Arrives v (norm v)
  lands   : ∀ {L : Jsonrpc}, L.Lawful → ∀ (j : Json) (v : α), (L.codec α).decode j = .ok v → metaOk v

instance {α : Type} [CodecOf α] [Normal α] [Conforms α] : Crosses α where
  arrives hL := (Conforms.retract hL).loop
  lands hL j v h := ((Conforms.retract hL).lands j v h).1

instance (b : Build) : Crosses (InitializeResult b) where
  arrives hL := initializeResult_loop hL
  lands hL _ _ h := initializeResult_metaOk hL h

/-- A method, with the normal forms of its payloads. -/
structure CallType : Type 1 where
  method : Method
  [normalParams : Normal method.Params]
  [normalResult : Normal method.Result]
  params : @Crosses method.Params method.paramsCodec normalParams
  result : @Crosses method.Result method.resultCodec normalResult

structure NoteType : Type 1 where
  note : Note
  [normalParams : Normal note.Params]
  params : @Crosses note.Params note.paramsCodec normalParams

def CallType.of (name : String) (P R : Type) [CodecOf P] [Normal P] [Crosses P] [CodecOf R] [Normal R] [Crosses R] :
    CallType := ⟨⟨name, P, R⟩, ‹Crosses P›, ‹Crosses R›⟩

def NoteType.of (name : String) (P : Type) [CodecOf P] [Normal P] [Crosses P] : NoteType := ⟨⟨name, P⟩, ‹Crosses P›⟩

def initializeType (b : Build) : CallType := .of "initialize" (InitializeParams b) (InitializeResult b)

def logoutType : CallType := .of "logout" Unit Unit

def sessionNewType : CallType := .of "session/new" NewSessionParams NewSessionResult

def sessionPromptType : CallType := .of "session/prompt" PromptParams PromptResult

def requestPermissionType : CallType :=
  .of "session/request_permission" RequestPermissionParams RequestPermissionResult

def sessionUpdateType : NoteType := .of "session/update" SessionUpdateMsg

def callTypes (b : Build) : List CallType := [
  initializeType b, .of "authenticate" AuthenticateParams Unit, logoutType, sessionNewType,
  .of "session/load" LoadSessionParams LoadSessionResult, .of "session/resume" ResumeSessionParams ResumeSessionResult,
  .of "session/fork" ForkSessionParams NewSessionResult, .of "session/close" CloseSessionParams Unit,
  .of "session/delete" DeleteSessionParams Unit, .of "session/list" ListSessionsParams ListSessionsResult,
  sessionPromptType, .of "session/set_mode" SetModeParams Unit,
  .of "session/set_config_option" SetConfigOptionParams SetConfigOptionResult, requestPermissionType,
  .of "fs/read_text_file" ReadTextFileParams ReadTextFileResult, .of "fs/write_text_file" WriteTextFileParams Unit,
  .of "terminal/create" CreateTerminalParams CreateTerminalResult,
  .of "terminal/output" TerminalOutputParams TerminalOutputResult,
  .of "terminal/wait_for_exit" TerminalWaitForExitParams TerminalWaitForExitResult,
  .of "terminal/kill" TerminalKillParams Unit, .of "terminal/release" TerminalReleaseParams Unit,
  .of "elicitation/create" Json Json]

def noteTypes : List NoteType := [
  .of "session/cancel" CancelParams, sessionUpdateType, .of "$/cancel_request" CancelRequestParams]

/-- **They are the methods and notes of the protocol.** -/
theorem callTypes_methods (b : Build) : (callTypes b).map CallType.method = methods b := rfl

theorem noteTypes_notes : noteTypes.map NoteType.note = notes := rfl

theorem callTypes_nodup (b : Build) : ((callTypes b).map (fun c => c.method.name)).Nodup := by
  simp [callTypes, CallType.of, initializeType, logoutType, sessionNewType, sessionPromptType, requestPermissionType]

theorem noteTypes_nodup : (noteTypes.map (fun n => n.note.name)).Nodup := by
  decide

namespace CallType

def paramsOk (c : CallType) (v : c.method.Params) : Prop := c.normalParams.metaOk v

def resultOk (c : CallType) (r : c.method.Result) : Prop := c.normalResult.metaOk r

def normParams (c : CallType) (v : c.method.Params) : c.method.Params := c.normalParams.norm v

def normResult (c : CallType) (r : c.method.Result) : c.method.Result := c.normalResult.norm r

end CallType

def NoteType.paramsOk (n : NoteType) (v : n.note.Params) : Prop := n.normalParams.metaOk v

def NoteType.normParams (n : NoteType) (v : n.note.Params) : n.note.Params := n.normalParams.norm v

/-- **What the two ends can say**: the methods and notes of the protocol, as the codecs write them. -/
def table (L : Jsonrpc) (b : Build) : Table where
  Call     := { c : CallType // c ∈ callTypes b }
  Note     := { n : NoteType // n ∈ noteTypes }
  callName := fun c => c.1.method.name
  noteName := fun n => n.1.note.name
  Params   := fun c => c.1.method.Params
  Result   := fun c => c.1.method.Result
  Body     := fun n => n.1.note.Params
  params   := fun c => @Jsonrpc.codec L c.1.method.Params c.1.method.paramsCodec
  result   := fun c => @Jsonrpc.codec L c.1.method.Result c.1.method.resultCodec
  body     := fun n => @Jsonrpc.codec L n.1.note.Params n.1.note.paramsCodec
  callName_inj := fun c c' h => Subtype.ext (List.inj_on_of_nodup_map (callTypes_nodup b) c.2 c'.2 h)
  noteName_inj := fun n n' h => Subtype.ext (List.inj_on_of_nodup_map noteTypes_nodup n.2 n'.2 h)

/-! ## What a text carries -/

/-- What the field writes, a text carries. -/
def TextField (L : Jsonrpc) {T : Type} (v : T) (f : FieldSpec T) : Prop :=
  ∀ x, L.write f v = some x → x.isText = true

section Texts

variable {L : Jsonrpc} (hL : L.Lawful) {T A : Type} {v : T}

theorem isText_writeAll : ∀ (fs : List (FieldSpec T)) (o : Json.Members), (∀ f ∈ fs, TextField L v f) →
    (Json.obj o).isText = true → (Json.obj (L.writeAll fs v o)).isText = true
  | [], _, _, ho => ho
  | f :: fs, o, hfs, ho => by
    refine isText_writeAll fs _ (fun g hg => hfs g (List.mem_cons_of_mem _ hg)) ?_
    cases hw : L.write f v with
    | none => exact ho
    | some x => exact Json.isText_insert (hfs f List.mem_cons_self x hw) ho

include hL

/-- **A text carries a record when it carries what its fields write.** -/
theorem isText_record (init : T) {fs : List (FieldSpec T)} (hfs : ∀ f ∈ fs, TextField L v f) :
    ((L.record init fs).encode v).isText = true := by
  rw [hL.record_encode]
  exact isText_writeAll fs ∅ hfs Json.isText_object

variable {k : String} {c : Codec A}

theorem isText_required {m : Member T A} (h : (c.encode (m.get v)).isText = true) :
    TextField L v (.required k m c) := fun x hx => by
  rw [hL.write_required] at hx
  exact Option.some.inj hx ▸ h

theorem isText_nothing {m : Member T (Option A)} (h : m.get v = none) : TextField L v (.optional k m c) :=
  fun x hx => by
    rw [hL.write_optional, h] at hx
    cases hx

theorem isText_defaulted {m : Member T A} {d : A} (h : (c.encode (m.get v)).isText = true) :
    TextField L v (.defaulted k m d c) := fun x hx => by
  rcases hL.write_defaulted k m d c v with hw | ⟨-, hw⟩
  · rw [hw] at hx
    exact Option.some.inj hx ▸ h
  · rw [hw] at hx
    cases hx

theorem isText_noMeta {m : Member T Json} (h : m.get v = Json.object) : TextField L v (.meta_ k m) :=
  fun x hx => by
    rw [hL.write_meta_empty k m v h] at hx
    cases hx

theorem isText_string (s : String) : (L.string.encode s).isText = true := by
  rw [hL.string_encode]
  rfl

/-- What an agent answers to a session/new when it has nothing to say but the id. -/
theorem isText_newSessionResult (i : SessionId) :
    ((L.codec NewSessionResult).encode { sessionId := i }).isText = true := by
  refine isText_record hL _ ?_
  simp only [Record.fields, List.forall_mem_cons]
  refine ⟨isText_required hL ?_, isText_nothing hL rfl, isText_nothing hL rfl, isText_noMeta hL rfl,
    List.forall_mem_nil _⟩
  show ((L.newtypeCodec L.string).encode i).isText = true
  rw [hL.newtype_encode]
  exact isText_string hL i.value

theorem isText_agentCapabilities (hW : L.WritesText) : ((L.codec AgentCapabilities).encode {}).isText = true := by
  have hbool : (L.bool.encode false).isText = true := hW.1 false
  have hprompt : ((L.codec PromptCapabilities).encode {}).isText = true :=
    isText_record hL _ (by simpa only [Record.fields, List.forall_mem_cons] using
      ⟨isText_defaulted hL hbool, isText_defaulted hL hbool, isText_defaulted hL hbool, List.forall_mem_nil _⟩)
  have hmcp : ((L.codec McpCapabilities).encode {}).isText = true :=
    isText_record hL _ (by simpa only [Record.fields, List.forall_mem_cons] using
      ⟨isText_defaulted hL hbool, isText_defaulted hL hbool, List.forall_mem_nil _⟩)
  have hauth : ((L.codec AuthCapabilities).encode {}).isText = true :=
    isText_record hL _ (List.forall_mem_singleton.2 (isText_nothing hL rfl))
  have hsession : ((L.codec SessionCapabilities).encode {}).isText = true := by
    refine isText_record hL _ ?_
    simp only [Record.fields, List.forall_mem_cons]
    exact ⟨isText_nothing hL rfl, isText_nothing hL rfl, isText_nothing hL rfl, isText_nothing hL rfl,
      isText_nothing hL rfl, isText_nothing hL rfl, List.forall_mem_nil _⟩
  refine isText_record hL _ ?_
  simp only [Record.fields, List.forall_mem_cons]
  exact ⟨isText_defaulted hL hbool, isText_defaulted hL hprompt, isText_defaulted hL hmcp, isText_defaulted hL hauth,
    isText_defaulted hL hsession, isText_noMeta hL rfl, List.forall_mem_nil _⟩

/-- What an agent answers to an initialize when it has nothing to say but the version. -/
theorem isText_initializeResult (hW : L.WritesText) (b : Build) (v : Int32) :
    ((L.codec (InitializeResult b)).encode { protocolVersion := v }).isText = true := by
  refine isText_record hL _ ?_
  simp only [Record.fields, List.forall_mem_cons]
  refine ⟨isText_defaulted hL (hW.2 v), isText_defaulted hL (isText_agentCapabilities hL hW), isText_nothing hL rfl,
    isText_defaulted hL ?_, isText_noMeta hL rfl, List.forall_mem_nil _⟩
  show ((L.listCodec (L.codec AuthMethod)).encode []).isText = true
  rw [hL.list_encode]
  rfl

/-- What a client answers when it selects an option. -/
theorem isText_selected (i : String) :
    ((L.codec RequestPermissionResult).encode { outcome := .selected { optionId := i } }).isText = true := by
  have hopt : ((L.codec PoSelected).encode { optionId := i }).isText = true := by
    refine isText_record hL _ ?_
    simp only [Record.fields, List.forall_mem_cons]
    exact ⟨isText_required hL (isText_string hL i), isText_noMeta hL rfl, List.forall_mem_nil _⟩
  have hout : ((L.codec RequestPermissionOutcome).encode (.selected { optionId := i })).isText = true := by
    obtain ⟨b, a, o, hb, ha, ho, he⟩ := sum_encode_obj hL (RequestPermissionOutcome.selected { optionId := i })
    rw [he]
    refine Json.isText_insert rfl (ho ▸ ?_)
    rcases hb with _ | ⟨_, _ | ⟨_, hb⟩⟩
    · cases ha
    · cases ha
      exact hopt
    · cases hb
  refine isText_record hL _ ?_
  simp only [Record.fields, List.forall_mem_cons]
  exact ⟨isText_required hL hout, isText_noMeta hL rfl, List.forall_mem_nil _⟩

end Texts

/-! ## Hosts -/

section Hosts

variable {L : Jsonrpc} {b : Build} {Id E σ τ : Type}

theorem params_arrive_iff (hL : L.Lawful) (c : (table L b).Call) {v w : (table L b).Params c} (hv : c.1.paramsOk v) :
    ((table L b).params c).Arrives v w ↔ w = c.1.normParams v := by
  have h : ((table L b).params c).Arrives v (c.1.normParams v) := c.1.params.arrives hL v hv
  exact ⟨fun hw => hw.unique h, fun hw => hw ▸ h⟩

theorem result_arrives_iff (hL : L.Lawful) (c : (table L b).Call) {v w : (table L b).Result c} (hv : c.1.resultOk v) :
    ((table L b).result c).Arrives v w ↔ w = c.1.normResult v := by
  have h : ((table L b).result c).Arrives v (c.1.normResult v) := c.1.result.arrives hL v hv
  exact ⟨fun hw => hw.unique h, fun hw => hw ▸ h⟩

theorem body_arrives_iff (hL : L.Lawful) (n : (table L b).Note) {v w : (table L b).Body n} (hv : n.1.paramsOk v) :
    ((table L b).body n).Arrives v w ↔ w = n.1.normParams v := by
  have h : ((table L b).body n).Arrives v (n.1.normParams v) := n.1.params.arrives hL v hv
  exact ⟨fun hw => hw.unique h, fun hw => hw ▸ h⟩

/-- Its `_meta` are objects, and a text carries it. -/
def ParamsSend (c : (table L b).Call) (v : (table L b).Params c) : Prop :=
  c.1.paramsOk v ∧ (((table L b).params c).encode v).isText = true

def ResultSend (c : (table L b).Call) (r : (table L b).Result c) : Prop :=
  c.1.resultOk r ∧ (((table L b).result c).encode r).isText = true

def BodySend (n : (table L b).Note) (v : (table L b).Body n) : Prop :=
  n.1.paramsOk v ∧ (((table L b).body n).encode v).isText = true

/-- **A host of the protocol**: it routes no name twice, all it sends has objects for its `_meta` and is carried by a
text, and its handlers keep to its promise on all that can arrive. -/
structure Proper (H : Host (table L b) σ) : Prop where
  calls  : (H.router.filterMap Route.callName?).Nodup
  notes  : (H.router.filterMap Route.noteName?).Nodup
  asks   : ∀ c v, H.asks c v → ParamsSend c v
  tells  : ∀ n v, H.tells n v → BodySend n v
  keeps  : ∀ c v r, H.keeps c v r → ResultSend c r
  serves : ∀ c h, Route.on c h ∈ H.router → ∀ s v, c.1.paramsOk v → ∀ r, (h s v).2 = some r → H.keeps c v r

theorem Proper.sound (hL : L.Lawful) {H : Host (table L b) σ} (hH : Proper H) : H.Sound where
  calls := hH.calls
  notes := hH.notes
  asksSend c v h := ⟨(hH.asks c v h).2, _, (params_arrive_iff hL c (hH.asks c v h).1).2 rfl⟩
  tellsSend n v h := ⟨(hH.tells n v h).2, _, (body_arrives_iff hL n (hH.tells n v h).1).2 rfl⟩
  keepsSend c v r h := ⟨(hH.keeps c v r h).2, _, (result_arrives_iff hL c (hH.keeps c v r h).1).2 rfl⟩
  serves c h hm s _ w hw r hr := hH.serves c h hm s w (c.1.params.lands hL _ w hw) r hr

/-- **A call has ended in what `A` answered to it**: in the normal form of the result that a handler of `A`'s returned
for the normal form of what was asked, or that `A` gave later; or in an error, where the handler threw on the normal form
of what was asked, where `A` refused later, or where `A` does not route the call. -/
inductive EndedWell (A : Host (table L b) τ) : Given (table L b) Id → Done (table L b) Id E → Prop
  | returned {a : Ask (table L b) Id} {h : τ → a.call.1.method.Params → τ × Option a.call.1.method.Result} {t : τ}
      {r : a.call.1.method.Result} (hm : .on a.call h ∈ A.router)
      (hr : (h t (a.call.1.normParams a.params)).2 = some r) :
      EndedWell A ⟨a.wire, .returned a.call (a.call.1.normParams a.params) r⟩ ⟨a, .ok (a.call.1.normResult r)⟩
  | replied {a : Ask (table L b) Id} {r : a.call.1.method.Result} (hm : .defer a.call ∈ A.router) :
      EndedWell A ⟨a.wire, .replied a.call r⟩ ⟨a, .ok (a.call.1.normResult r)⟩
  | threw {a : Ask (table L b) Id} {h : τ → a.call.1.method.Params → τ × Option a.call.1.method.Result} {t : τ} {e : E}
      (hm : .on a.call h ∈ A.router) (hr : (h t (a.call.1.normParams a.params)).2 = none) :
      EndedWell A ⟨a.wire, .threw a.call (a.call.1.normParams a.params)⟩ ⟨a, .error e⟩
  | refused {a : Ask (table L b) Id} {e : E} (hm : .defer a.call ∈ A.router) :
      EndedWell A ⟨a.wire, .refused⟩ ⟨a, .error e⟩
  | unrouted {a : Ask (table L b) Id} {e : E} (hm : ∀ r ∈ A.router, r.callName? ≠ some a.call.1.method.name) :
      EndedWell A ⟨a.wire, .unrouted⟩ ⟨a, .error e⟩

theorem Proper.endedWell (hL : L.Lawful) {A : Host (table L b) τ} (hA : Proper A) {g : Given (table L b) Id}
    {d : Done (table L b) Id E} (hd : d.ask.call.1.paramsOk d.ask.params) (h : Ended A g d) : EndedWell A g d := by
  cases h with
  | returned hm hv hr hr' =>
    have hk := hA.serves _ _ hm _ _ (CallType.params _ |>.lands hL _ _ hv) _ hr
    obtain rfl := (params_arrive_iff hL _ hd).1 hv
    obtain rfl := (result_arrives_iff hL _ (hA.keeps _ _ _ hk).1).1 hr'
    exact .returned hm hr
  | replied hm hv hk hr' =>
    obtain rfl := (result_arrives_iff hL _ (hA.keeps _ _ _ hk).1).1 hr'
    exact .replied hm
  | threw hm hv hr =>
    obtain rfl := (params_arrive_iff hL _ hd).1 hv
    exact .threw hm hr
  | refused hm => exact .refused hm
  | unrouted hm => exact .unrouted hm

/-- **A call of a handled name ends in what its handler made of it.** -/
theorem EndedWell.handled {A : Host (table L b) τ} (hA : Proper A) {a : Ask (table L b) Id}
    {h : τ → a.call.1.method.Params → τ × Option a.call.1.method.Result} (hm : Route.on a.call h ∈ A.router)
    {g : Given (table L b) Id} {o : Except E a.call.1.method.Result} (hw : EndedWell A g ⟨a, o⟩) :
    (∃ t r, (h t (a.call.1.normParams a.params)).2 = some r ∧ o = .ok (a.call.1.normResult r) ∧
        g = ⟨a.wire, .returned a.call (a.call.1.normParams a.params) r⟩) ∨
      ∃ t e, (h t (a.call.1.normParams a.params)).2 = none ∧ o = .error e ∧
        g = ⟨a.wire, .threw a.call (a.call.1.normParams a.params)⟩ := by
  cases hw with
  | returned hm' hr =>
    cases eq_of_name hA.calls hm hm' rfl rfl
    exact .inl ⟨_, _, hr, rfl, rfl⟩
  | threw hm' hr =>
    cases eq_of_name hA.calls hm hm' rfl rfl
    exact .inr ⟨_, _, hr, rfl, rfl⟩
  | replied hm' | refused hm' => cases eq_of_name hA.calls hm hm' rfl rfl
  | unrouted hm' => exact absurd rfl (hm' _ hm)

/-- A host that sends nothing whose `_meta` are not objects or that no text carries. -/
def answering (rs : List (Route (table L b) σ)) : Host (table L b) σ where
  router := rs
  asks   := ParamsSend
  tells  := BodySend
  keeps  := fun c _ r => ResultSend c r

theorem answering_proper {rs : List (Route (table L b) σ)} (hc : (rs.filterMap Route.callName?).Nodup)
    (hn : (rs.filterMap Route.noteName?).Nodup)
    (hs : ∀ c h, Route.on c h ∈ rs → ∀ s v, c.1.paramsOk v → ∀ r, (h s v).2 = some r → ResultSend c r) :
    Proper (answering rs) where
  calls := hc
  notes := hn
  asks _ _ h := h
  tells _ _ h := h
  keeps _ _ _ h := h
  serves c h hm s v hv r hr := hs c h hm s v hv r hr

end Hosts

end Acp
