import Acp.ContentOk
/-!
# SessionOk — session types conform

A stdio MCP server is known by the `type` it does not have, a grouped option list by the `group` of its first item, and
a config option by its own `type`; each is read back by the branch that wrote it.
-/
namespace Acp

open Wire

/-! ## MCP servers -/

instance : RecordOk KeyValue where
  fits hL := .required hL <| .required hL .nil

instance : RecordOk StdioMcpServer where
  fits hL := .required hL <| .required hL <| .defaulted hL <| .defaulted hL .nil

instance : RecordOk HttpMcpServer where
  fits hL := .required hL <| .required hL <| .defaulted hL .nil

instance : RecordOk SseMcpServer where
  fits hL := .required hL <| .required hL <| .defaulted hL .nil

instance : Skips StdioMcpServer "type" := .record
instance : Skips HttpMcpServer "type" := .record
instance : Skips SseMcpServer "type" := .record

/-- The arm that a `type` picks. -/
def mcpServerOf (L : Jsonrpc) (type : String) (j : Json) : Except Exn McpServer :=
  if type = "http" then .http <$> L.fromJson HttpMcpServer j
  else if type = "sse" then .sse <$> L.fromJson SseMcpServer j
  else .stdio <$> L.fromJson StdioMcpServer j

theorem mcpServer_decode {L : Jsonrpc} (o : Json.Members) :
    (L.codec McpServer).decode (.obj o) =
      ((Json.obj o).value "type" "stdio" >>= fun t => mcpServerOf L t (.obj o)) := rfl

theorem mcpServer_decode_of_type {L : Jsonrpc} {o : Json.Members} {t : String} (h : o.find? "type" = some (.str t)) :
    (L.codec McpServer).decode (.obj o) = mcpServerOf L t (.obj o) := by
  rw [mcpServer_decode, Json.value_of_some h]; rfl

theorem mcpServer_decode_of_untyped {L : Jsonrpc} {o : Json.Members} (h : o.find? "type" = none) :
    (L.codec McpServer).decode (.obj o) = mcpServerOf L "stdio" (.obj o) := by
  rw [mcpServer_decode, Json.value_of_none h]; rfl

theorem mcpServer_decode_of_tagAdded {L : Jsonrpc} {payload whole : Json} {t : String}
    (h : TagAdded payload "type" t whole) : (L.codec McpServer).decode whole = mcpServerOf L t whole := by
  obtain ⟨o, rfl, -, rfl⟩ := h
  exact mcpServer_decode_of_type (FinMap.find?_insert_self _ _ _)

instance : Conforms McpServer where
  retract {L} hL :=
    { loop := fun v _ => by
        cases v with
        | stdio x =>
          obtain ⟨o, ho, ht⟩ := Skips.object (α := StdioMcpServer) (t := "type") hL x
          have hx := (Conforms.retract hL).loop x trivial
          show (L.codec McpServer).decode ((L.codec StdioMcpServer).encode x) = _
          rw [ho] at hx ⊢
          rw [mcpServer_decode_of_untyped ht]
          exact congrArg (McpServer.stdio <$> ·) hx
        | http x =>
          have ht := tagAdded_set hL "type" "http" x
          have hx := (tagAdded_decode hL ht).trans ((Conforms.retract hL).loop x trivial)
          exact (mcpServer_decode_of_tagAdded ht).trans (congrArg (McpServer.http <$> ·) hx)
        | sse x =>
          have ht := tagAdded_set hL "type" "sse" x
          have hx := (tagAdded_decode hL ht).trans ((Conforms.retract hL).loop x trivial)
          exact (mcpServer_decode_of_tagAdded ht).trans (congrArg (McpServer.sse <$> ·) hx)
      lands := fun _ _ _ => ⟨trivial, rfl⟩ }
  proto hL := .mcpServer (Conforms.proto hL) (Conforms.proto hL) (Conforms.proto hL)

instance : NeverNull McpServer where
  ne_null hL v := by
    cases v with
    | stdio x => exact NeverNull.ne_null hL x
    | http x => exact (tagAdded_set hL "type" "http" x).ne_null
    | sse x => exact (tagAdded_set hL "type" "sse" x).ne_null

/-! ## Modes -/

instance : RecordOk SessionMode where
  fits hL := .required hL <| .required hL <| .optional hL <| .meta_ hL .nil

instance : RecordOk SessionModeState where
  fits hL := .required hL <| .required hL .nil

/-! ## Config options -/

instance : RecordOk ConfigSelectOption where
  fits hL := .required hL <| .required hL <| .optional hL <| .meta_ hL .nil

instance : RecordOk ConfigSelectGroup where
  fits hL := .required hL <| .required hL <| .required hL <| .meta_ hL .nil

instance : Skips ConfigSelectOption "group" := .record

theorem configSelectOptions_decode {L : Jsonrpc} (xs : List Json) :
    (L.codec ConfigSelectOptions).decode (.arr xs) =
      if frontHasGroup xs then .grouped <$> L.fromJson (List ConfigSelectGroup) (.arr xs)
      else .ungrouped <$> L.fromJson (List ConfigSelectOption) (.arr xs) := rfl

theorem frontHasGroup_obj (o : Json.Members) (xs : List Json) :
    frontHasGroup (.obj o :: xs) = (o.find? "group").isSome := rfl

theorem frontHasGroup_options {L : Jsonrpc} (hL : L.Lawful) (items : List ConfigSelectOption) :
    frontHasGroup (items.map (L.codec ConfigSelectOption).encode) = false := by
  cases items with
  | nil => rfl
  | cons x items =>
    obtain ⟨o, ho, hg⟩ := Skips.object (t := "group") hL x
    rw [List.map_cons, ho, frontHasGroup_obj, hg]; rfl

theorem frontHasGroup_groups {L : Jsonrpc} (hL : L.Lawful) (x : ConfigSelectGroup) (items : List ConfigSelectGroup) :
    frontHasGroup ((x :: items).map (L.codec ConfigSelectGroup).encode) = true := by
  have hk := find?_required hL "group" ⟨ConfigSelectGroup.group, fun v a => { v with group := a }⟩ (.head _) x
  rw [List.map_cons, record_encode_obj hL, frontHasGroup_obj, hk]; rfl

instance : Conforms ConfigSelectOptions where
  retract {L} hL :=
    { loop := fun v hv => by
        cases v with
        | ungrouped items =>
          have hx := (Conforms.retract hL).loop items hv
          have he : (L.codec (List ConfigSelectOption)).encode items = .arr (items.map (L.codec _).encode) :=
            hL.list_encode _ _
          show (L.codec ConfigSelectOptions).decode ((L.codec (List ConfigSelectOption)).encode items) = _
          rw [he] at hx ⊢
          rw [configSelectOptions_decode, frontHasGroup_options hL]
          have hid : norm items = items := List.map_id items
          rw [hid] at hx
          exact congrArg (ConfigSelectOptions.ungrouped <$> ·) hx
        | grouped items =>
          have hx := (Conforms.retract hL).loop items hv
          have he : (L.codec (List ConfigSelectGroup)).encode items = .arr (items.map (L.codec _).encode) :=
            hL.list_encode _ _
          show (L.codec ConfigSelectOptions).decode ((L.codec (List ConfigSelectGroup)).encode items) = _
          rw [he] at hx ⊢
          have hid : norm items = items := List.map_id items
          rw [hid] at hx
          cases items with
          | nil =>
            have h0 := (Conforms.retract hL).loop ([] : List ConfigSelectOption) (fun _ h => by cases h)
            rw [show (L.codec (List ConfigSelectOption)).encode [] = .arr [] from hL.list_encode _ _] at h0
            exact congrArg (ConfigSelectOptions.ungrouped <$> ·) h0
          | cons x items =>
            rw [configSelectOptions_decode, frontHasGroup_groups hL]
            exact congrArg (ConfigSelectOptions.grouped <$> ·) hx
      lands := fun j v h => by
        cases j with
        | arr xs =>
          rw [configSelectOptions_decode] at h
          split at h
          · rename_i hg
            obtain ⟨items, hx, rfl⟩ := map_ok_inv h
            refine ⟨((Conforms.retract hL).lands _ items hx).1, ?_⟩
            obtain ⟨xs', hxs, hall⟩ := hL.list_decode_inv hx
            cases hxs
            cases hall with
            | nil => cases hg
            | cons _ _ => rfl
          · obtain ⟨items, hx, rfl⟩ := map_ok_inv h
            exact ⟨((Conforms.retract hL).lands _ items hx).1, rfl⟩
        | _ => cases h }
  proto hL := .configSelectOptions (Conforms.proto hL) (Conforms.proto hL)

/-! ### What the hand-written encoders assign -/

section Set

variable {j : Json} (hj : j.isObject = true) (k k' : String)
include hj

theorem find?_setOpt (x : Option Json) :
    (setOpt j k x).find? k' = if k' = k then x.or (j.find? k') else j.find? k' := by
  cases x with
  | none => simp [setOpt]
  | some v => exact Json.find?_set hj k k' v

theorem isObject_setOpt (x : Option Json) : (setOpt j k x).isObject = true := by
  cases x with
  | none => exact hj
  | some v => exact Json.isObject_set hj k v

/-- `_meta` is there exactly when it is not empty. -/
theorem find?_setMeta (m : Json) :
    (setMeta j m).find? k' = if k' = "_meta" ∧ m.isEmpty = false then some m else j.find? k' := by
  unfold setMeta
  cases hm : m.isEmpty with
  | true => simp
  | false =>
    rw [if_neg (by simp), Json.find?_set hj]
    simp

theorem isObject_setMeta (m : Json) : (setMeta j m).isObject = true := by
  unfold setMeta
  split
  · exact hj
  · exact Json.isObject_set hj _ m

end Set

/-- A `_meta` written so is read back. -/
theorem objectOr_meta {j m : Json} (hm : m.isObject = true)
    (h : j.find? "_meta" = if m.isEmpty = false then some m else none) : j.objectOr "_meta" = m := by
  obtain ⟨o, rfl⟩ := (Json.isObject_iff m).1 hm
  unfold Json.objectOr
  rw [h]
  cases he : (Json.obj o).isEmpty with
  | true =>
    rw [if_neg (by simp), (Json.isEmpty_obj_iff o).1 he]; rfl
  | false => rw [if_pos rfl]

/-! ### One config option -/

/-- What the encoder writes before the members that depend on `type`. -/
def configOptionHead (o : ConfigOption) : Json :=
  (setOpt (setOpt ((Json.object.set "id" (.str o.id)).set "name" (.str o.name)) "description" (o.description.map .str))
    "category" (o.category.map .str)).set "type" (.str o.type)

theorem isObject_configOptionHead (o : ConfigOption) : (configOptionHead o).isObject = true :=
  Json.isObject_set (isObject_setOpt (isObject_setOpt rfl _ _) _ _) _ _

theorem find?_configOptionHead (o : ConfigOption) (k : String) : (configOptionHead o).find? k =
    if k = "type" then some (.str o.type) else if k = "category" then o.category.map .str
    else if k = "description" then o.description.map .str else if k = "name" then some (.str o.name)
    else if k = "id" then some (.str o.id) else none := by
  unfold configOptionHead
  rw [Json.find?_set (isObject_setOpt (isObject_setOpt rfl _ _) _ _), find?_setOpt (isObject_setOpt rfl _ _),
    find?_setOpt rfl, Json.find?_set rfl, Json.find?_set rfl, Json.find?_object]
  by_cases hc : k = "category"
  · subst hc; simp
  · by_cases hd : k = "description"
    · subst hd; simp
    · simp [hc, hd]

theorem configOption_encode (L : Jsonrpc) (o : ConfigOption) : (L.codec ConfigOption).encode o =
    setMeta (if o.isBoolean then (configOptionHead o).set "currentValue" (.bool o.currentBool)
      else ((configOptionHead o).set "currentValue" (.str o.currentValue)).set "options" (L.toJson o.options))
      o.meta_ := rfl

theorem configOption_encode_find? (L : Jsonrpc) (o : ConfigOption) (k : String) :
    ((L.codec ConfigOption).encode o).find? k =
      if k = "_meta" ∧ o.meta_.isEmpty = false then some o.meta_
      else if k = "options" ∧ o.isBoolean = false then some (L.toJson o.options)
      else if k = "currentValue" then some (if o.isBoolean then .bool o.currentBool else .str o.currentValue)
      else (configOptionHead o).find? k := by
  have hh := isObject_configOptionHead o
  rw [configOption_encode]
  cases o.isBoolean with
  | true =>
    rw [if_pos rfl, find?_setMeta (Json.isObject_set hh _ _), Json.find?_set hh]
    simp
  | false =>
    rw [if_neg (by simp), find?_setMeta (Json.isObject_set (Json.isObject_set hh _ _) _ _),
      Json.find?_set (Json.isObject_set hh _ _), Json.find?_set hh]
    simp

theorem isObject_configOption_encode (L : Jsonrpc) (o : ConfigOption) :
    ((L.codec ConfigOption).encode o).isObject = true := by
  have hh := isObject_configOptionHead o
  rw [configOption_encode]
  refine isObject_setMeta ?_ _
  split
  · exact Json.isObject_set hh _ _
  · exact Json.isObject_set (Json.isObject_set hh _ _) _ _

/-- The option that `id`, `name`, `type` and the optional members make. -/
def configOptionBase (j : Json) (id name type : String) : ConfigOption :=
  { id := id, name := name, description := j.string? "description", category := j.string? "category", type := type,
    meta_ := j.objectOr "_meta" }

/-- The members whose form depends on `type`. -/
def configOptionRest (L : Jsonrpc) (j : Json) (o : ConfigOption) (cv : Json) : Except Exn ConfigOption :=
  if o.isBoolean then
    match cv with
    | .bool b => .ok { o with currentBool := b }
    | _       => .error (.codecError "ConfigOption: boolean currentValue")
  else do
    let currentValue ← cv.getString
    let options ← L.fromJson ConfigSelectOptions (← j.at_ "options")
    .ok { o with currentValue := currentValue, options := options }

theorem configOption_decode {L : Jsonrpc} (m : Json.Members) : (L.codec ConfigOption).decode (.obj m) = (do
    let id ← (← (Json.obj m).at_ "id").getString
    let name ← (← (Json.obj m).at_ "name").getString
    let type ← (Json.obj m).value "type" "select"
    let cv ← (Json.obj m).at_ "currentValue"
    configOptionRest L (.obj m) (configOptionBase (.obj m) id name type) cv) := rfl

/-- **What a decoded option was read from.** -/
theorem configOption_decode_inv {L : Jsonrpc} {j : Json} {v : ConfigOption}
    (h : (L.codec ConfigOption).decode j = .ok v) :
    ∃ m id name type cv, j = .obj m ∧ m.find? "id" = some (.str id) ∧ m.find? "name" = some (.str name) ∧
      (Json.obj m).value "type" "select" = .ok type ∧ m.find? "currentValue" = some cv ∧
      configOptionRest L (.obj m) (configOptionBase (.obj m) id name type) cv = .ok v := by
  cases j with
  | obj m =>
    rw [configOption_decode] at h
    obtain ⟨x, hx, h⟩ := bind_ok_inv h
    obtain ⟨id, hid, h⟩ := bind_ok_inv h
    obtain ⟨y, hy, h⟩ := bind_ok_inv h
    obtain ⟨name, hname, h⟩ := bind_ok_inv h
    obtain ⟨type, htype, h⟩ := bind_ok_inv h
    obtain ⟨cv, hcv, h⟩ := bind_ok_inv h
    exact ⟨m, id, name, type, cv, rfl, Json.getString_ok hid ▸ Json.at_inv hx, Json.getString_ok hname ▸ Json.at_inv hy,
      htype, Json.at_inv hcv, h⟩
  | _ => cases h

theorem configOption_decode_of {L : Jsonrpc} {m : Json.Members} {id name type : String} {cv : Json}
    (hid : m.find? "id" = some (.str id)) (hname : m.find? "name" = some (.str name))
    (htype : m.find? "type" = some (.str type)) (hcv : m.find? "currentValue" = some cv) :
    (L.codec ConfigOption).decode (.obj m) =
      configOptionRest L (.obj m) (configOptionBase (.obj m) id name type) cv := by
  rw [configOption_decode, Json.at_of_some hid, Json.at_of_some hname, Json.value_of_some htype, Json.at_of_some hcv]
  rfl

/-- The two forms of what follows `currentValue`. -/
theorem configOptionRest_inv {L : Jsonrpc} {m : Json.Members} {o v : ConfigOption} {cv : Json}
    (h : configOptionRest L (.obj m) o cv = .ok v) :
    (o.isBoolean = true ∧ ∃ b, cv = .bool b ∧ v = { o with currentBool := b }) ∨
      (o.isBoolean = false ∧ ∃ s x os, cv = .str s ∧ m.find? "options" = some x ∧
        (L.codec ConfigSelectOptions).decode x = .ok os ∧ v = { o with currentValue := s, options := os }) := by
  unfold configOptionRest at h
  cases hb : o.isBoolean with
  | true =>
    rw [hb, if_pos rfl] at h
    cases cv <;> cases h
    exact .inl ⟨rfl, _, rfl, rfl⟩
  | false =>
    rw [hb, if_neg (by simp)] at h
    obtain ⟨s, hs, h⟩ := bind_ok_inv h
    obtain ⟨x, hx, h⟩ := bind_ok_inv h
    obtain ⟨os, hos, h⟩ := bind_ok_inv h
    cases h
    exact .inr ⟨rfl, s, x, os, Json.getString_ok hs, Json.at_inv hx, hos, rfl⟩

theorem configOption_loop {L : Jsonrpc} (hL : L.Lawful) (o : ConfigOption) (ho : metaOk o) :
    (L.codec ConfigOption).decode ((L.codec ConfigOption).encode o) = .ok (norm o) := by
  obtain ⟨m, hm⟩ := (Json.isObject_iff _).1 (isObject_configOption_encode L o)
  have hfind : ∀ k, m.find? k = ((L.codec ConfigOption).encode o).find? k := fun k => by rw [hm]; rfl
  have hbase : configOptionBase (.obj m) o.id o.name o.type =
      { o with currentValue := "", currentBool := false, options := .ungrouped [] } := by
    have hd : (Json.obj m).string? "description" = o.description := by
      unfold Json.string?
      rw [Json.find?_obj, hfind, configOption_encode_find?, find?_configOptionHead]
      cases o.description <;> simp
    have hc : (Json.obj m).string? "category" = o.category := by
      unfold Json.string?
      rw [Json.find?_obj, hfind, configOption_encode_find?, find?_configOptionHead]
      cases o.category <;> simp
    have hmeta : (Json.obj m).objectOr "_meta" = o.meta_ := objectOr_meta ho.2 (by
      rw [Json.find?_obj, hfind, configOption_encode_find?, find?_configOptionHead]
      simp)
    unfold configOptionBase
    rw [hd, hc, hmeta]
  have hid : m.find? "id" = some (.str o.id) := by rw [hfind, configOption_encode_find?, find?_configOptionHead]; simp
  have hname : m.find? "name" = some (.str o.name) := by
    rw [hfind, configOption_encode_find?, find?_configOptionHead]; simp
  have htype : m.find? "type" = some (.str o.type) := by
    rw [hfind, configOption_encode_find?, find?_configOptionHead]; simp
  have hcv : m.find? "currentValue" = some (if o.isBoolean then .bool o.currentBool else .str o.currentValue) := by
    rw [hfind, configOption_encode_find?]; simp
  rw [hm, configOption_decode_of hid hname htype hcv, hbase]
  have hb : ConfigOption.isBoolean { o with currentValue := "", currentBool := false, options := .ungrouped [] } =
    o.isBoolean := rfl
  unfold configOptionRest
  show _ = Except.ok (if o.isBoolean then _ else _)
  rw [hb]
  cases hbool : o.isBoolean with
  | true => rfl
  | false =>
    have hopts : m.find? "options" = some (L.toJson o.options) := by
      rw [hfind, configOption_encode_find?, hbool]; simp
    have hos : L.fromJson ConfigSelectOptions (L.toJson o.options) = .ok (norm o.options) :=
      (Conforms.retract hL).loop o.options ho.1
    rw [if_neg (by simp), if_neg (by simp), if_neg (by simp), Json.at_of_some hopts]
    show (L.fromJson ConfigSelectOptions (L.toJson o.options) >>= fun options => Except.ok _) = _
    rw [hos]; rfl

instance : Conforms ConfigOption where
  retract {L} hL :=
    { loop := configOption_loop hL
      lands := fun j v h => by
        obtain ⟨m, id, name, type, cv, -, -, -, -, -, h⟩ := configOption_decode_inv h
        have hmeta : (configOptionBase (.obj m) id name type).meta_.isObject = true := Json.isObject_objectOr _ _
        rcases configOptionRest_inv h with ⟨hb, b, -, rfl⟩ | ⟨hb, s, x, os, -, -, hos, rfl⟩
        · exact ⟨⟨fun _ hi => (by cases hi), hmeta⟩, if_pos hb⟩
        · obtain ⟨h1, h2⟩ := (Conforms.retract hL).lands x os hos
          refine ⟨⟨h1, hmeta⟩, (if_neg (by rw [ConfigOption.isBoolean] at hb ⊢; simp [hb])).trans ?_⟩
          show ConfigOption.mk _ _ _ _ _ _ _ (norm os) _ = _
          rw [h2]; rfl }
  proto hL := .configOption (Conforms.proto hL)

instance : NeverNull ConfigOption where
  ne_null {L} _ v h := by
    have := isObject_configOption_encode L v
    rw [h] at this; cases this

/-! ## Commands, usage, session info -/

instance : RecordOk UnstructuredCommandInput where
  fits hL := .required hL <| .meta_ hL .nil

instance : Skips UnstructuredCommandInput "type" := .record

/-- What the `type` of a command input picks. -/
def commandInputOf (L : Jsonrpc) (type : String) (j : Json) : Except Exn AvailableCommandInput :=
  if type = "unstructured" then .unstructured <$> L.fromJson UnstructuredCommandInput j
  else .error (.codecError ("AvailableCommandInput: unknown type \"" ++ type ++ "\""))

theorem availableCommandInput_decode {L : Jsonrpc} (o : Json.Members) :
    (L.codec AvailableCommandInput).decode (.obj o) =
      ((Json.obj o).value "type" "unstructured" >>= fun t => commandInputOf L t (.obj o)) := rfl

instance : Conforms AvailableCommandInput where
  retract {L} hL :=
    { loop := fun v hv => by
        cases v with
        | unstructured x =>
          obtain ⟨o, ho, ht⟩ := Skips.object (t := "type") hL x
          have hx := (Conforms.retract hL).loop x hv
          show (L.codec AvailableCommandInput).decode ((L.codec UnstructuredCommandInput).encode x) = _
          rw [ho] at hx ⊢
          rw [availableCommandInput_decode, Json.value_of_none ht]
          exact congrArg (AvailableCommandInput.unstructured <$> ·) hx
      lands := fun j v h => by
        cases j with
        | obj o =>
          rw [availableCommandInput_decode] at h
          obtain ⟨t, -, h⟩ := bind_ok_inv h
          unfold commandInputOf at h
          split at h
          · obtain ⟨x, hx, rfl⟩ := map_ok_inv h
            exact ⟨((Conforms.retract hL).lands _ x hx).1, rfl⟩
          · cases h
        | _ => cases h }
  proto hL := .availableCommandInput (Conforms.proto hL)

instance : NeverNull AvailableCommandInput where
  ne_null hL v h := by
    cases v with
    | unstructured x => exact NeverNull.ne_null hL x h

instance : RecordOk AvailableCommand where
  fits hL := .required hL <| .required hL <| .optional hL <| .meta_ hL .nil

instance : RecordOk Cost where
  fits hL := .required hL <| .required hL .nil

instance : RecordOk SessionInfo where
  fits hL := .required hL <| .required hL <| .optional hL <| .optional hL <| .optional hL <| .meta_ hL .nil

end Acp
