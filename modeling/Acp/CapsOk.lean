import Acp.SessionOk
/-!
# CapsOk — capabilities and authentication methods conform

The client's capabilities are a record with two members laid over it, so its codec gives back the record's members and
then the overlaid ones (`clientCapabilities_loop`).  An authentication method gives back its normal form, but a decoded
one need not be in it: the decoder takes `args` and `env` of every type.
-/
namespace Acp

open Wire

section Set

variable {j : Json} (hj : j.isObject = true) (k k' : String)
include hj

theorem find?_setIf (b : Bool) (v : Json) :
    (setIf j b k v).find? k' = if k' = k ∧ b = true then some v else j.find? k' := by
  cases b with
  | false => simp [setIf]
  | true =>
    show (j.set k v).find? k' = _
    rw [Json.find?_set hj]
    simp

theorem isObject_setIf (b : Bool) (v : Json) : (setIf j b k v).isObject = true := by
  cases b with
  | false => exact hj
  | true => exact Json.isObject_set hj k v

end Set

instance : RecordOk FsCapabilities where
  fits hL := .defaulted hL <| .defaulted hL .nil

/-! ## The client's session capabilities -/

theorem clientSession_encode (L : Jsonrpc) (c : ClientSessionCapabilities) :
    (L.codec ClientSessionCapabilities).encode c = setMeta (setIf (setIf (setIf Json.object c.compaction "compaction"
      Json.object) c.notices "notices" Json.object) c.booleanConfig "configOptions"
      (Json.object.set "boolean" Json.object)) c.meta_ := rfl

theorem clientSession_encode_find? (L : Jsonrpc) (c : ClientSessionCapabilities) (k : String) :
    ((L.codec ClientSessionCapabilities).encode c).find? k =
      if k = "_meta" ∧ c.meta_.isEmpty = false then some c.meta_
      else if k = "configOptions" ∧ c.booleanConfig = true then some (Json.object.set "boolean" Json.object)
      else if k = "notices" ∧ c.notices = true then some Json.object
      else if k = "compaction" ∧ c.compaction = true then some Json.object else none := by
  rw [clientSession_encode, find?_setMeta (isObject_setIf (isObject_setIf (isObject_setIf rfl _ _ _) _ _ _) _ _ _),
    find?_setIf (isObject_setIf (isObject_setIf rfl _ _ _) _ _ _), find?_setIf (isObject_setIf rfl _ _ _),
    find?_setIf rfl, Json.find?_object]

theorem isObject_clientSession_encode (L : Jsonrpc) (c : ClientSessionCapabilities) :
    ((L.codec ClientSessionCapabilities).encode c).isObject = true := by
  rw [clientSession_encode]
  exact isObject_setMeta (isObject_setIf (isObject_setIf (isObject_setIf rfl _ _ _) _ _ _) _ _ _) _

theorem clientSession_loop (L : Jsonrpc) (c : ClientSessionCapabilities) (hc : metaOk c) :
    (L.codec ClientSessionCapabilities).decode ((L.codec ClientSessionCapabilities).encode c) = .ok c := by
  have hfind := clientSession_encode_find? L c
  generalize (L.codec ClientSessionCapabilities).encode c = j at hfind
  have h1 : present j "compaction" = c.compaction := by
    unfold present
    rw [hfind]
    cases c.compaction <;> simp
  have h2 : present j "notices" = c.notices := by
    unfold present
    rw [hfind]
    cases c.notices <;> simp
  have h3 : (present j "configOptions" && present (j.objectOr "configOptions") "boolean") = c.booleanConfig := by
    unfold present Json.objectOr
    rw [hfind]
    cases c.booleanConfig <;> simp [Json.object, Json.set]
  have h4 : j.objectOr "_meta" = c.meta_ := objectOr_meta hc (by rw [hfind]; simp)
  show Except.ok (ClientSessionCapabilities.mk _ _ _ _) = _
  rw [h1, h2, h3, h4]

instance : Conforms ClientSessionCapabilities where
  retract {L} _ :=
    { loop := clientSession_loop L
      lands := fun j v h => by
        cases h
        exact ⟨Json.isObject_objectOr _ _, rfl⟩ }
  proto _ := .clientSessionCapabilities

instance : NeverNull ClientSessionCapabilities where
  ne_null {L} _ c h := by
    have := isObject_clientSession_encode L c
    rw [h] at this; cases this

/-! ## The client's capabilities -/

theorem clientBase_fits {L : Jsonrpc} (hL : L.Lawful) : AllFits L (ClientCapabilities.baseFields L) :=
  .defaulted hL <| .defaulted hL <| .defaulted hL <| .meta_ hL .nil

theorem clientBase_nodup (L : Jsonrpc) : ((ClientCapabilities.baseFields L).map FieldSpec.key).Nodup := by
  simp [ClientCapabilities.baseFields, FieldSpec.key, Jsonrpc.defaulted, metaField]

theorem clientBase_meta_only (L : Jsonrpc) : ∀ f ∈ ClientCapabilities.baseFields L, f.key = "_meta" →
    ∃ m, f = metaField "_meta" m := by
  simp [ClientCapabilities.baseFields, FieldSpec.key, Jsonrpc.defaulted, metaField]

theorem clientBase_proto {L : Jsonrpc} (hL : L.Lawful) : Proto L (ClientCapabilities.base L) :=
  .record _ _ (clientBase_nodup L) (clientBase_meta_only L) (fun f hf => ((clientBase_fits hL).fits f hf).proto)

theorem clientBase_auth_notMem (L : Jsonrpc) : "auth" ∉ (ClientCapabilities.baseFields L).map FieldSpec.key := by
  simp [ClientCapabilities.baseFields, FieldSpec.key, Jsonrpc.defaulted, metaField]

theorem clientBase_elicitation_notMem (L : Jsonrpc) :
    "elicitation" ∉ (ClientCapabilities.baseFields L).map FieldSpec.key := by
  simp [ClientCapabilities.baseFields, FieldSpec.key, Jsonrpc.defaulted, metaField]

/-- What the overlaid members read. -/
def clientOverlay (j : Json) (c : ClientCapabilities) : ClientCapabilities :=
  let c := if present j "auth" then { c with authTerminal := isTrue (j.objectOr "auth") "terminal" } else c
  if present j "elicitation" then
    { c with elicitForm := present (j.objectOr "elicitation") "form",
             elicitUrl := present (j.objectOr "elicitation") "url" }
  else c

theorem clientCapabilities_decode {L : Jsonrpc} (j : Json) : (L.codec ClientCapabilities).decode j =
    clientOverlay j <$> (ClientCapabilities.base L).decode j := by
  show ((ClientCapabilities.base L).decode j >>= _) = _
  cases (ClientCapabilities.base L).decode j with
  | error e => rfl
  | ok c =>
    show (if present j "elicitation" = true then Except.ok _ else Except.ok _) = Except.ok (clientOverlay j c)
    unfold clientOverlay
    cases present j "elicitation" <;> rfl

/-- The object under `elicitation`. -/
def elicitation (c : ClientCapabilities) : Json :=
  setIf (setIf Json.object c.elicitForm "form" Json.object) c.elicitUrl "url" Json.object

theorem clientCapabilities_encode (L : Jsonrpc) (c : ClientCapabilities) : (L.codec ClientCapabilities).encode c =
    setIf (setIf ((ClientCapabilities.base L).encode c) c.authTerminal "auth" (Json.object.set "terminal" (.bool true)))
      (c.elicitForm || c.elicitUrl) "elicitation" (elicitation c) := rfl

theorem clientBase_encode {L : Jsonrpc} (hL : L.Lawful) (c : ClientCapabilities) :
    (ClientCapabilities.base L).encode c = .obj (L.writeAll (ClientCapabilities.baseFields L) c ∅) :=
  hL.record_encode _ _ c

theorem clientBase_encode_isObject {L : Jsonrpc} (hL : L.Lawful) (c : ClientCapabilities) :
    ((ClientCapabilities.base L).encode c).isObject = true := by rw [clientBase_encode hL]; rfl

/-- The record reads no overlaid member. -/
theorem clientBase_setIf {L : Jsonrpc} (hL : L.Lawful) {j : Json} (hj : j.isObject = true) {k : String}
    (hk : k ∉ (ClientCapabilities.baseFields L).map FieldSpec.key) (b : Bool) (v : Json) :
    (ClientCapabilities.base L).decode (setIf j b k v) = (ClientCapabilities.base L).decode j := by
  obtain ⟨o, rfl⟩ := (Json.isObject_iff j).1 hj
  cases b with
  | false => rfl
  | true => exact hL.record_skips hk o v

theorem clientBase_loop {L : Jsonrpc} (hL : L.Lawful) (c : ClientCapabilities) (hc : metaOk c) :
    (ClientCapabilities.base L).decode ((ClientCapabilities.base L).encode c) =
      .ok { c with authTerminal := false, elicitForm := false, elicitUrl := false } := by
  rw [clientBase_encode hL]
  show (L.record _ _).decode _ = _
  rw [hL.record_decode]
  refine (foldlM_ok (g := fun t f => f.copy c t) _ _ (fun f hf t => ?_)).trans rfl
  rw [find?_writeAll_empty (clientBase_nodup L) hf]
  exact ((clientBase_fits hL).fits f hf).loop c t hc

theorem clientOverlay_encode {L : Jsonrpc} (hL : L.Lawful) (c : ClientCapabilities) :
    clientOverlay ((L.codec ClientCapabilities).encode c)
      { c with authTerminal := false, elicitForm := false, elicitUrl := false } = c := by
  have hobj := clientBase_encode_isObject hL c
  have hauth : ((ClientCapabilities.base L).encode c).find? "auth" = none := by
    rw [clientBase_encode hL]
    exact find?_writeAll_empty_of_notMem (clientBase_auth_notMem L) c
  have helic : ((ClientCapabilities.base L).encode c).find? "elicitation" = none := by
    rw [clientBase_encode hL]
    exact find?_writeAll_empty_of_notMem (clientBase_elicitation_notMem L) c
  have hfind : ∀ k, ((L.codec ClientCapabilities).encode c).find? k =
      if k = "elicitation" ∧ (c.elicitForm || c.elicitUrl) = true then some (elicitation c)
      else if k = "auth" ∧ c.authTerminal = true then some (Json.object.set "terminal" (.bool true))
      else ((ClientCapabilities.base L).encode c).find? k := fun k => by
    rw [clientCapabilities_encode, find?_setIf (isObject_setIf hobj _ _ _), find?_setIf hobj]
  generalize (L.codec ClientCapabilities).encode c = j at hfind
  have h1 := hfind "auth"
  have h2 := hfind "elicitation"
  rw [hauth] at h1
  rw [helic] at h2
  simp only [String.reduceEq, false_and, if_false, true_and] at h1 h2
  unfold clientOverlay present Json.objectOr
  rw [h1, h2]
  obtain ⟨fs, terminal, session, a, f, u, m⟩ := c
  cases a <;> cases f <;> cases u <;> rfl

theorem clientCapabilities_loop {L : Jsonrpc} (hL : L.Lawful) (c : ClientCapabilities) (hc : metaOk c) :
    (L.codec ClientCapabilities).decode ((L.codec ClientCapabilities).encode c) = .ok c := by
  have hobj := clientBase_encode_isObject hL c
  rw [clientCapabilities_decode, ← congrArg Except.ok (clientOverlay_encode hL c)]
  conv => lhs; arg 2; rw [clientCapabilities_encode]
  rw [clientBase_setIf hL (isObject_setIf hobj _ _ _) (clientBase_elicitation_notMem L),
    clientBase_setIf hL hobj (clientBase_auth_notMem L), clientBase_loop hL c hc]
  rfl

theorem metaOk_clientOverlay {j : Json} {c : ClientCapabilities} (hc : metaOk c) : metaOk (clientOverlay j c) := by
  unfold clientOverlay
  split <;> split <;> exact hc

instance : Conforms ClientCapabilities where
  retract hL :=
    { loop := clientCapabilities_loop hL
      lands := fun j v h => by
        rw [clientCapabilities_decode] at h
        obtain ⟨c, hc, rfl⟩ := map_ok_inv h
        have hinit : Good ({} : ClientCapabilities) := ⟨⟨rfl, rfl⟩, rfl⟩
        have hgood : Good c :=
          hL.record_lands hinit (fun f hf => ((clientBase_fits hL).fits f hf).keeps) hc
        exact ⟨metaOk_clientOverlay hgood.1, rfl⟩ }
  proto hL := .clientCapabilities (clientBase_proto hL)

instance : NeverNull ClientCapabilities where
  ne_null {L} hL c h := by
    have := isObject_setIf (isObject_setIf (clientBase_encode_isObject hL c) "auth" c.authTerminal
      (Json.object.set "terminal" (.bool true))) "elicitation" (c.elicitForm || c.elicitUrl) (elicitation c)
    rw [← clientCapabilities_encode, h] at this; cases this

/-! ## The agent's capabilities -/

instance : RecordOk PromptCapabilities where
  fits hL := .defaulted hL <| .defaulted hL <| .defaulted hL .nil

instance : RecordOk McpCapabilities where
  fits hL := .defaulted hL <| .defaulted hL .nil

instance : RecordOk AuthCapabilities where
  fits hL := .optional hL .nil

instance : RecordOk SessionCapabilities where
  fits hL := .optional hL <| .optional hL <| .optional hL <| .optional hL <| .optional hL <| .optional hL .nil

instance : RecordOk AgentCapabilities where
  fits hL := .defaulted hL <| .defaulted hL <| .defaulted hL <| .defaulted hL <| .defaulted hL <| .meta_ hL .nil

instance : RecordOk ImplementationInfo where
  fits hL := .required hL <| .optional hL <| .optional hL .nil

/-! ## Authentication methods -/

/-- What the encoder writes of every type. -/
def authMethodHead (m : AuthMethod) : Json :=
  setIf (setOpt ((Json.object.set "id" (.str m.id)).set "name" (.str m.name)) "description" (m.description.map .str))
    (m.type != "agent") "type" (.str m.type)

/-- `args` and `env`, of a terminal method. -/
def authMethodTerminal (m : AuthMethod) (j : Json) : Json :=
  if m.type = "terminal" then
    setIf (setIf j (!m.args.isEmpty) "args" (.arr (m.args.map .str))) (!m.env.isEmpty) "env" (.obj (m.env.map .str))
  else j

theorem authMethod_encode (L : Jsonrpc) (m : AuthMethod) :
    (L.codec AuthMethod).encode m = setMeta (authMethodTerminal m (authMethodHead m)) m.meta_ := rfl

theorem isObject_authMethodHead (m : AuthMethod) : (authMethodHead m).isObject = true :=
  isObject_setIf (isObject_setOpt rfl _ _) _ _ _

theorem isObject_authMethodTerminal (m : AuthMethod) {j : Json} (hj : j.isObject = true) :
    (authMethodTerminal m j).isObject = true := by
  unfold authMethodTerminal
  split
  · exact isObject_setIf (isObject_setIf hj _ _ _) _ _ _
  · exact hj

theorem isObject_authMethod_encode (L : Jsonrpc) (m : AuthMethod) : ((L.codec AuthMethod).encode m).isObject = true :=
  isObject_setMeta (isObject_authMethodTerminal m (isObject_authMethodHead m)) _

theorem authMethod_encode_find? (L : Jsonrpc) (m : AuthMethod) (k : String) :
    ((L.codec AuthMethod).encode m).find? k =
      if k = "_meta" ∧ m.meta_.isEmpty = false then some m.meta_
      else if k = "env" ∧ m.type = "terminal" ∧ m.env.isEmpty = false then some (.obj (m.env.map .str))
      else if k = "args" ∧ m.type = "terminal" ∧ m.args.isEmpty = false then some (.arr (m.args.map .str))
      else if k = "type" ∧ m.type ≠ "agent" then some (.str m.type)
      else if k = "description" then m.description.map .str
      else if k = "name" then some (.str m.name) else if k = "id" then some (.str m.id) else none := by
  have hh := isObject_authMethodHead m
  have hd : (authMethodHead m).find? k = if k = "type" ∧ m.type ≠ "agent" then some (.str m.type)
      else if k = "description" then m.description.map .str
      else if k = "name" then some (.str m.name) else if k = "id" then some (.str m.id) else none := by
    unfold authMethodHead
    rw [find?_setIf (isObject_setOpt rfl _ _), find?_setOpt rfl, Json.find?_set rfl, Json.find?_set rfl,
      Json.find?_object]
    by_cases hk : k = "description"
    · subst hk; simp
    · simp [hk]
  rw [authMethod_encode, find?_setMeta (isObject_authMethodTerminal m hh)]
  unfold authMethodTerminal
  by_cases ht : m.type = "terminal"
  · rw [if_pos ht, find?_setIf (isObject_setIf hh _ _ _), find?_setIf hh, hd]
    simp [ht]
  · rw [if_neg ht, hd]
    simp [ht]

theorem authMethod_decode {L : Jsonrpc} (o : Json.Members) : (L.codec AuthMethod).decode (.obj o) = (do
    let id ← (← (Json.obj o).at_ "id").getString
    let name ← (← (Json.obj o).at_ "name").getString
    let type ← (Json.obj o).value "type" "agent"
    let args ← stringsOr (.obj o) "args"
    let env ← stringMapOr (.obj o) "env"
    .ok (AuthMethod.mk id name ((Json.obj o).string? "description") type args env
      ((Json.obj o).objectOr "_meta"))) := rfl

theorem stringsOr_of_arr {o : Json.Members} {k : String} {ss : List String}
    (h : o.find? k = if ss.isEmpty = false then some (.arr (ss.map .str)) else none) :
    stringsOr (.obj o) k = .ok ss := by
  unfold stringsOr
  rw [Json.find?_obj, h]
  cases ss with
  | nil => rfl
  | cons s ss => exact Json.mapM_getString_map_str (s :: ss)

theorem stringMapOr_of_obj {o : Json.Members} {k : String} {m : FinMap String String}
    (h : o.find? k = if m.isEmpty = false then some (.obj (m.map .str)) else none) :
    stringMapOr (.obj o) k = .ok m := by
  unfold stringMapOr
  rw [Json.find?_obj, h]
  cases he : m.isEmpty with
  | true => rw [(FinMap.isEmpty_iff m).1 he]; rfl
  | false => exact Json.getStringMap_map_str m

theorem authMethod_loop (L : Jsonrpc) (m : AuthMethod) (hm : metaOk m) :
    (L.codec AuthMethod).decode ((L.codec AuthMethod).encode m) = .ok (norm m) := by
  obtain ⟨o, ho⟩ := (Json.isObject_iff _).1 (isObject_authMethod_encode L m)
  have hfind : ∀ k, o.find? k = ((L.codec AuthMethod).encode m).find? k := fun k => by rw [ho]; rfl
  have hid : o.find? "id" = some (.str m.id) := by rw [hfind, authMethod_encode_find?]; simp
  have hname : o.find? "name" = some (.str m.name) := by rw [hfind, authMethod_encode_find?]; simp
  have htype : (Json.obj o).value "type" "agent" = .ok m.type := by
    have h : o.find? "type" = if m.type ≠ "agent" then some (.str m.type) else none := by
      rw [hfind, authMethod_encode_find?]; simp
    by_cases ha : m.type = "agent"
    · rw [Json.value_of_none (by rw [h]; simp [ha]), ha]
    · rw [Json.value_of_some (by rw [h, if_pos ha])]; rfl
  have hargs : stringsOr (.obj o) "args" = .ok (if m.type = "terminal" then m.args else []) := by
    refine stringsOr_of_arr ?_
    rw [hfind, authMethod_encode_find?]
    by_cases ht : m.type = "terminal" <;> simp [ht]
  have henv : stringMapOr (.obj o) "env" = .ok (if m.type = "terminal" then m.env else ∅) := by
    refine stringMapOr_of_obj ?_
    rw [hfind, authMethod_encode_find?]
    by_cases ht : m.type = "terminal"
    · simp [ht]
    · have he : (∅ : FinMap String String).isEmpty = true := (FinMap.isEmpty_iff ∅).2 rfl
      simp [ht, he]
  have hdesc : (Json.obj o).string? "description" = m.description := by
    unfold Json.string?
    rw [Json.find?_obj, hfind, authMethod_encode_find?]
    cases m.description <;> simp
  have hmeta : (Json.obj o).objectOr "_meta" = m.meta_ := objectOr_meta hm (by
    rw [Json.find?_obj, hfind, authMethod_encode_find?]; simp)
  rw [ho, authMethod_decode, Json.at_of_some hid, Json.at_of_some hname, htype, hargs, henv, hdesc, hmeta]
  show Except.ok (AuthMethod.mk _ _ _ _ _ _ _) = Except.ok (if m.type = "terminal" then m else _)
  by_cases ht : m.type = "terminal"
  · rw [if_pos ht, if_pos ht, if_pos ht]
  · rw [if_neg ht, if_neg ht, if_neg ht]

theorem authMethod_encode_norm (L : Jsonrpc) (m : AuthMethod) :
    (L.codec AuthMethod).encode (norm m) = (L.codec AuthMethod).encode m := by
  by_cases ht : m.type = "terminal"
  · rw [show norm m = m from if_pos ht]
  · rw [show norm m = { m with args := [], env := ∅ } from if_neg ht, authMethod_encode, authMethod_encode]
    unfold authMethodTerminal
    rw [if_neg ht, if_neg ht]; rfl

/-- A decoded `_meta` is an object. -/
theorem authMethod_metaOk {L : Jsonrpc} {j : Json} {m : AuthMethod} (h : (L.codec AuthMethod).decode j = .ok m) :
    metaOk m := by
  cases j with
  | obj o =>
    rw [authMethod_decode] at h
    obtain ⟨_, -, h₁⟩ := bind_ok_inv h
    obtain ⟨_, -, h₂⟩ := bind_ok_inv h₁
    obtain ⟨_, -, h₃⟩ := bind_ok_inv h₂
    obtain ⟨_, -, h₄⟩ := bind_ok_inv h₃
    obtain ⟨_, -, h₅⟩ := bind_ok_inv h₄
    obtain ⟨_, -, h₆⟩ := bind_ok_inv h₅
    obtain ⟨_, -, h₇⟩ := bind_ok_inv h₆
    cases h₇
    exact Json.isObject_objectOr _ _
  | _ => cases h

/-- **A method is in normal form** when it is terminal, or has no arguments and no environment. -/
theorem authMethod_norm_iff (m : AuthMethod) : norm m = m ↔ (m.type ≠ "terminal" → m.args = [] ∧ m.env = ∅) := by
  by_cases ht : m.type = "terminal"
  · rw [show norm m = m from if_pos ht]
    exact ⟨fun _ h => absurd ht h, fun _ => rfl⟩
  · rw [show norm m = { m with args := [], env := ∅ } from if_neg ht]
    constructor
    · intro h _
      rw [← h]
      exact ⟨rfl, rfl⟩
    · intro h
      obtain ⟨ha, he⟩ := h ht
      rw [← ha, ← he]

end Acp
