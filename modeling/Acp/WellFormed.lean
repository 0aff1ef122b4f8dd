import Acp.Escape
import Acp.Dispatch
import Acp.Evidence
import Acp.Tidy
/-!
# WellFormed — what a decoder accepts

`WellFormed L w c j` says of a JSON value what a peer may count on: the required members are there, each member a field
reads is well formed for the field's type, a tag names an arm and the rest is well formed for it.  No order of reading,
no value and no exception is in it.  The decoders accept exactly this (`accepted_iff_wellFormed`), up to the two things
jsonrpc-cpp leaves open, which are the `Slack`; and what is neither well formed nor malformed for nlohmann's accessors
is thrown out with the library's own error (`decode_verdict`).  What is got past before a malformed object is reached
(`rawFault_record_iff`, `rawFault_list_iff`), and what falls through to stdio (`fallsThrough_iff`), is said of the JSON
in the same terms.
-/
namespace Acp

open Wire

/-! ## What a library may let pass -/

/-- What is let pass: a null where a member has a default, and a `_meta` that is no object. -/
structure Slack where
  nulls : Bool
  metas : Bool

def Slack.none : Slack := ⟨false, false⟩

def Slack.all : Slack := ⟨true, true⟩

/-- **The library lets pass what `w` does.** -/
structure Jsonrpc.Gives (L : Jsonrpc) (w : Slack) : Prop where
  nulls : w.nulls = true → ∀ {T A : Type} (k : String) (m : Member T A) (d : A) (c : Codec A) (t : T),
    ∃ t', L.read (.defaulted k m d c) (some .null) t = .ok t'
  metas : w.metas = true → ∀ {T : Type} (k : String) (m : Member T Json) (x : Json) (t : T),
    ∃ t', L.read (.meta_ k m) (some x) t = .ok t'

/-- **The library lets pass no more than `w`.** -/
structure Jsonrpc.Holds (L : Jsonrpc) (w : Slack) : Prop where
  nulls : w.nulls = false → ∀ {T A : Type} (k : String) (m : Member T A) (d : A) (c : Codec A) (t t' : T),
    L.read (.defaulted k m d c) (some .null) t = .ok t' → ∃ a, c.decode .null = .ok a
  metas : w.metas = false → ∀ {T : Type} (k : String) (m : Member T Json) (x : Json) (t t' : T),
    L.read (.meta_ k m) (some x) t = .ok t' → x.isObject = true

theorem Jsonrpc.gives_none (L : Jsonrpc) : L.Gives .none where
  nulls h := by cases h
  metas h := by cases h

theorem Jsonrpc.holds_all (L : Jsonrpc) : L.Holds .all where
  nulls h := by cases h
  metas h := by cases h

/-! ## Well-formed values -/

/-- The member that a field finds, if any, is one it can do with. -/
def Finds {T : Type} (w : Slack) (f : FieldSpec T) (x : Option Json) : Prop :=
  match f with
  | .required _ _ _ => ∃ y, x = some y
  | .meta_ _ _      => w.metas = false → ∀ y, x = some y → y.isObject = true
  | _               => True

/-- The member is handed to the field's codec: a null may stand for nothing. -/
def HandsOn {T : Type} (w : Slack) (f : FieldSpec T) (x : Json) : Prop :=
  match f with
  | .optional _ _ _    => x ≠ .null
  | .defaulted _ _ _ _ => w.nulls = true → x ≠ .null
  | _                  => True

/-- The built-in types and the enumerations: of their values the library is the judge. -/
inductive Atom (L : Jsonrpc) : {α : Type} → Codec α → Prop where
  | bool   : Atom L L.bool
  | int    : Atom L L.int
  | int64  : Atom L L.int64
  | double : Atom L L.double
  | string : Atom L L.string
  | unit   : Atom L L.unit
  | json   : Atom L L.json
  | enum {E : Type} [DecidableEq E] (ms : List (E × String)) : Atom L (L.enumCodec ms)

/-- A config option has an `id` and a `name`. -/
structure Named (o : Json.Members) : Prop where
  id   : ∃ s, o.find? "id" = some (.str s)
  name : ∃ s, o.find? "name" = some (.str s)

/-- **`j` is a well-formed value of the type that `c` is the codec of.** -/
inductive WellFormed (L : Jsonrpc) (w : Slack) : {α : Type} → Codec α → Json → Prop where
  | atom {α : Type} {c : Codec α} {j : Json} {a : α} (hc : Atom L c) (h : c.decode j = .ok a) : WellFormed L w c j
  | bare {Tag A : Type} {c : Codec A} {j : Json} (h : WellFormed L w c j) :
      WellFormed L w (L.newtypeCodec c : Codec (Newtype Tag A)) j
  | list {A : Type} {c : Codec A} {xs : List Json} (h : ∀ x ∈ xs, WellFormed L w c x) :
      WellFormed L w (L.listCodec c) (.arr xs)
  | record {T : Type} {init : T} {fs : List (FieldSpec T)} {o : Json.Members}
      (hf : ∀ f ∈ fs, Finds w f (o.find? f.key))
      (h : ∀ f ∈ fs, ∀ {A : Type} {c : Codec A} {x : Json}, f.Via f.key c → o.find? f.key = some x → HandsOn w f x →
        WellFormed L w c x) : WellFormed L w (L.record init fs) (.obj o)
  | arm {S : Type} {tag l : String} {arms : List (Arm S)} {b : Arm S} {o : Json.Members}
      (hl : o.find? tag = some (.str l)) (hb : arms.find? (fun b' => b'.label == l) = some b)
      (h : WellFormed L w b.codec (.obj o)) : WellFormed L w (L.sumTagged tag arms) (.obj o)
  | textResource {j : Json} (h : WellFormed L w (L.codec TextResource) j) :
      WellFormed L w (L.codec EmbeddedResource) j
  | blobResource {j : Json} (ht : j.find? "text" = none) (h : WellFormed L w (L.codec BlobResource) j) :
      WellFormed L w (L.codec EmbeddedResource) j
  | cancelled (j : Json) : WellFormed L w (L.codec PoCancelled) j
  | stdio {o : Json.Members} {t : String} (ht : (Json.obj o).value "type" "stdio" = .ok t) (h1 : t ≠ "http")
      (h2 : t ≠ "sse") (h : WellFormed L w (L.codec StdioMcpServer) (.obj o)) :
      WellFormed L w (L.codec McpServer) (.obj o)
  | http {o : Json.Members} (ht : o.find? "type" = some (.str "http"))
      (h : WellFormed L w (L.codec HttpMcpServer) (.obj o)) : WellFormed L w (L.codec McpServer) (.obj o)
  | sse {o : Json.Members} (ht : o.find? "type" = some (.str "sse"))
      (h : WellFormed L w (L.codec SseMcpServer) (.obj o)) : WellFormed L w (L.codec McpServer) (.obj o)
  | grouped {j : Json} (h : WellFormed L w (L.codec (List ConfigSelectGroup)) j) :
      WellFormed L w (L.codec ConfigSelectOptions) j
  | ungrouped {j : Json} (hb : FrontBare j) (h : WellFormed L w (L.codec (List ConfigSelectOption)) j) :
      WellFormed L w (L.codec ConfigSelectOptions) j
  | switch {o : Json.Members} {b : Bool} (hn : Named o) (ht : o.find? "type" = some (.str "boolean"))
      (hv : o.find? "currentValue" = some (.bool b)) : WellFormed L w (L.codec ConfigOption) (.obj o)
  | select {o : Json.Members} {t s : String} {x : Json} (hn : Named o) (ht : (Json.obj o).value "type" "select" = .ok t)
      (hb : t ≠ "boolean") (hv : o.find? "currentValue" = some (.str s)) (hx : o.find? "options" = some x)
      (h : WellFormed L w (L.codec ConfigSelectOptions) x) : WellFormed L w (L.codec ConfigOption) (.obj o)
  | unstructured {o : Json.Members} (ht : (Json.obj o).value "type" "unstructured" = .ok "unstructured")
      (h : WellFormed L w (L.codec UnstructuredCommandInput) (.obj o)) :
      WellFormed L w (L.codec AvailableCommandInput) (.obj o)
  | clientSession (j : Json) : WellFormed L w (L.codec ClientSessionCapabilities) j
  | clientBase {j : Json} (h : WellFormed L w (ClientCapabilities.base L) j) :
      WellFormed L w (L.codec ClientCapabilities) j
  | authMethod {o : Json.Members} (h : ¬ AuthMethod.Malformed o) : WellFormed L w (L.codec AuthMethod) (.obj o)
  | suToolCall {j : Json} (h : WellFormed L w (L.codec ToolCall) j) : WellFormed L w (L.codec SuToolCall) j
  | suToolCallUpdate {j : Json} (h : WellFormed L w (L.codec ToolCallUpdate) j) :
      WellFormed L w (L.codec SuToolCallUpdate) j

/-! ## One field -/

section Field

variable {L : Jsonrpc} (hL : L.Lawful) {w : Slack} {T : Type} {f : FieldSpec T} {t t' : T}
include hL

theorem read_returns (hw : L.Gives w) {x : Option Json} (hf : Finds w f x)
    (h : ∀ {A : Type} {c : Codec A} {y : Json}, f.Via f.key c → x = some y → HandsOn w f y → ∃ a, c.decode y = .ok a)
    (t : T) : ∃ t', L.read f x t = .ok t' := by
  cases f with
  | required k m c =>
    obtain ⟨y, rfl⟩ := hf
    obtain ⟨a, ha⟩ := h (.required k m c) rfl trivial
    exact ⟨_, (hL.read_required k m c y t).ok ha⟩
  | optional k m c =>
    cases x with
    | none => exact ⟨_, hL.read_optional_none k m c t⟩
    | some y =>
      by_cases hy : y = .null
      · subst hy
        exact ⟨_, hL.read_optional_null k m c t⟩
      · obtain ⟨a, ha⟩ := h (.optional k m c) rfl hy
        exact ⟨_, (hL.read_optional k m c y t hy).ok ha⟩
  | defaulted k m d c =>
    by_cases hx : x = some .null ∧ w.nulls = true
    · rw [hx.1]
      exact hw.nulls hx.2 k m d c t
    · obtain ⟨a, ha⟩ := read_defaulted_accepts hL (k := k) (m := m) (d := d) (c := c) (x := x)
        (fun y hy => h (.defaulted k m d c) hy (fun hn he => hx ⟨hy.trans (congrArg some he), hn⟩)) t
      exact ⟨_, ha⟩
  | meta_ k m =>
    cases x with
    | none => exact ⟨_, hL.read_meta_none k m t⟩
    | some y =>
      cases hm : w.metas with
      | true => exact hw.metas hm k m y t
      | false =>
        obtain ⟨o, rfl⟩ := (Json.isObject_iff y).1 (hf hm y rfl)
        exact ⟨_, hL.read_meta k m o t⟩

theorem finds_of_read (hw : L.Holds w) {x : Option Json} (h : L.read f x t = .ok t') : Finds w f x := by
  cases f with
  | required k m c =>
    obtain ⟨y, -, hy, -⟩ := hL.read_required_inv h
    exact ⟨y, hy⟩
  | meta_ k m =>
    rintro hm y rfl
    exact hw.metas hm k m y t t' h
  | _ => trivial

theorem decodes_of_read (hw : L.Holds w) {k : String} {A : Type} {c : Codec A} {y : Json}
    (h : L.read f (some y) t = .ok t') (hv : f.Via k c) (hy : HandsOn w f y) : ∃ a, c.decode y = .ok a := by
  cases hv with
  | required k m c =>
    obtain ⟨_, a, he, ha, -⟩ := hL.read_required_inv h
    cases he
    exact ⟨a, ha⟩
  | optional k m c =>
    rcases hL.read_optional_inv h with ⟨he | he, -⟩ | ⟨_, a, he, -, ha, -⟩ <;> cases he
    · exact absurd rfl hy
    · exact ⟨a, ha⟩
  | defaulted k m d c =>
    by_cases hnull : y = .null
    · subst hnull
      exact hw.nulls (Bool.eq_false_iff.2 (fun hn => hy hn rfl)) k m d c t t' h
    · obtain ⟨a, ha, -⟩ := (hL.read_defaulted k m d c y t hnull).ok_inv h
      exact ⟨a, ha⟩

end Field

/-! ## The decoders written by hand -/

section HandWritten

variable {L : Jsonrpc} {o : Json.Members}

theorem stringMapOr_returns_or_escapes (o : Json.Members) (k : String) :
    (∃ m, stringMapOr (.obj o) k = .ok m) ∨ Escapes (stringMapOr (.obj o) k) := by
  unfold stringMapOr
  split
  · rename_i e _
    by_cases h : ∀ k' : e.keys, (e.val k').isString = true
    · exact .inl ⟨_, if_pos h⟩
    · exact .inr ⟨_, if_neg h, rfl⟩
  · exact .inl ⟨∅, rfl⟩

/-- **An authentication method is accepted exactly if it is not malformed.** -/
theorem authMethod_accepts : (∃ v, (L.codec AuthMethod).decode (.obj o) = .ok v) ↔ ¬ AuthMethod.Malformed o := by
  constructor
  · rintro ⟨v, hv⟩ hm
    exact not_escapes_ok v (hv ▸ escapes_authMethod.2 hm)
  · intro hm
    simp only [AuthMethod.Malformed, not_or] at hm
    obtain ⟨hid, hname, htype, hargs, henv⟩ := hm
    obtain ⟨id, hid⟩ := Option.ne_none_iff_exists'.1 hid
    obtain ⟨name, hname⟩ := Option.ne_none_iff_exists'.1 hname
    obtain ⟨t, ht⟩ := value_of_not_notString htype "agent"
    obtain ⟨args, hargs⟩ := (stringsOr_returns_or_escapes o "args").resolve_right
      (fun h => hargs (escapes_stringsOr.1 h))
    obtain ⟨env, henv⟩ := (stringMapOr_returns_or_escapes o "env").resolve_right
      (fun h => henv (escapes_stringMapOr.1 h))
    rw [authMethod_decode, Json.at_of_some (string?_eq_some.1 hid), Json.at_of_some (string?_eq_some.1 hname), ht,
      hargs, henv]
    exact ⟨_, rfl⟩

theorem value_eq_ok {k d s : String} (h : (Json.obj o).value k d = .ok s) (hd : s ≠ d) : o.find? k = some (.str s) := by
  cases hk : o.find? k with
  | none =>
    rw [Json.value_of_none hk] at h
    exact absurd (Except.ok.inj h).symm hd
  | some x =>
    rw [Json.value_of_some hk] at h
    rw [Json.getString_ok h]

/-- A server is an object, and is read by the record that its `type` picks. -/
theorem mcpServer_decode_picks {j : Json} {v : McpServer} (h : (L.codec McpServer).decode j = .ok v) :
    ∃ o t, j = .obj o ∧ (Json.obj o).value "type" "stdio" = .ok t ∧ mcpServerOf L t (.obj o) = .ok v := by
  cases j with
  | obj o =>
    rw [mcpServer_decode] at h
    obtain ⟨t, ht, h⟩ := bind_ok_inv h
    exact ⟨o, t, rfl, ht, h⟩
  | _ => cases h

theorem availableCommandInput_decode_inv {j : Json} {v : AvailableCommandInput}
    (h : (L.codec AvailableCommandInput).decode j = .ok v) :
    ∃ o x, j = .obj o ∧ (Json.obj o).value "type" "unstructured" = .ok "unstructured" ∧
      L.fromJson UnstructuredCommandInput (.obj o) = .ok x := by
  cases j with
  | obj o =>
    rw [availableCommandInput_decode] at h
    obtain ⟨t, ht, h⟩ := bind_ok_inv h
    unfold commandInputOf at h
    split at h
    · rename_i hu
      subst hu
      obtain ⟨x, hx, -⟩ := map_ok_inv h
      exact ⟨o, x, rfl, ht, hx⟩
    · cases h
  | _ => cases h

/-- A select option with a value and readable options is read. -/
theorem configOption_decode_select {t s : String} {x : Json} (hn : Named o)
    (ht : (Json.obj o).value "type" "select" = .ok t) (hb : t ≠ "boolean")
    (hv : o.find? "currentValue" = some (.str s)) (hx : o.find? "options" = some x)
    (h : ∃ os, L.fromJson ConfigSelectOptions x = .ok os) : ∃ v, (L.codec ConfigOption).decode (.obj o) = .ok v := by
  obtain ⟨⟨id, hid⟩, ⟨name, hname⟩⟩ := hn
  obtain ⟨os, hos⟩ := h
  have hselect : (configOptionBase (.obj o) id name t).isBoolean = false := by
    show (t == "boolean") = false
    exact beq_false_of_ne hb
  rw [configOption_decode, Json.at_of_some hid, Json.at_of_some hname, ht, Json.at_of_some hv]
  show ∃ v, configOptionRest L _ _ _ = .ok v
  unfold configOptionRest
  rw [hselect, Json.at_of_some hx]
  show ∃ v, (L.fromJson ConfigSelectOptions x >>= fun os => Except.ok _) = .ok v
  rw [hos]
  exact ⟨_, rfl⟩

end HandWritten

/-! ## Every decoder -/

section Every

variable {L : Jsonrpc} (hL : L.Lawful) {w : Slack}
include hL

/-- **What is well formed is accepted**, by a library that lets pass what `w` does. -/
theorem WellFormed.accepted (hw : L.Gives w) {α : Type} {c : Codec α} {j : Json} (h : WellFormed L w c j) :
    ∃ v, c.decode j = .ok v := by
  induction h with
  | atom _ h => exact ⟨_, h⟩
  | bare _ ih =>
    obtain ⟨a, ha⟩ := ih
    exact ⟨_, (hL.newtype_decode _ _).ok ha⟩
  | list _ ih =>
    obtain ⟨as, has⟩ := mapM_returns _ ih
    exact ⟨_, (hL.list_decode _ _).ok has⟩
  | @record T init fs o hf _ ih =>
    rw [hL.record_decode]
    exact foldlM_returns fs init (fun f hm => read_returns hL hw (hf f hm) (fun hv hx hy => ih f hm hv hx hy))
  | arm hl hb _ ih =>
    obtain ⟨a, ha⟩ := ih
    exact ⟨_, (hL.sum_decode _ _ _ _ _ hl hb).ok ha⟩
  | textResource _ ih => exact (embeddedResource_readsEither hL _).accepts.2 (.inl ih)
  | blobResource ht _ ih => exact (embeddedResource_readsEither hL _).accepts.2 (.inr ⟨ih, ht⟩)
  | cancelled j => exact ⟨_, rfl⟩
  | stdio ht h1 h2 _ ih =>
    rw [mcpServer_decode, ht]
    exact (map_returns _ ih).imp (fun v hv => (mcpServerOf_other L _ h1 h2).trans hv)
  | http ht _ ih =>
    rw [mcpServer_decode_of_type ht]
    exact map_returns _ ih
  | sse ht _ ih =>
    rw [mcpServer_decode_of_type ht]
    exact map_returns _ ih
  | grouped _ ih => exact (configSelectOptions_readsEither hL _).accepts.2 (.inl ih)
  | ungrouped hb _ ih => exact (configSelectOptions_readsEither hL _).accepts.2 (.inr ⟨ih, hb⟩)
  | switch hn ht hv =>
    obtain ⟨⟨id, hid⟩, ⟨name, hname⟩⟩ := hn
    rw [configOption_decode_of hid hname ht hv]
    exact ⟨_, rfl⟩
  | select hn ht hb hv hx _ ih => exact configOption_decode_select hn ht hb hv hx ih
  | unstructured ht _ ih =>
    rw [availableCommandInput_decode, ht]
    exact map_returns _ ih
  | clientSession j => exact ⟨_, rfl⟩
  | clientBase _ ih =>
    rw [clientCapabilities_decode]
    exact map_returns _ ih
  | authMethod h => exact authMethod_accepts.2 h
  | suToolCall _ ih => exact map_returns _ ih
  | suToolCallUpdate _ ih => exact map_returns _ ih

/-- **What is accepted is well formed**, where a library lets pass no more than `w`. -/
theorem wellFormed_of_accepted (hw : L.Holds w) {α : Type} {c : Codec α} (hc : Proto L c) :
    ∀ j v, c.decode j = .ok v → WellFormed L w c j := by
  induction hc with
  | bool => exact fun j v h => .atom .bool h
  | int => exact fun j v h => .atom .int h
  | int64 => exact fun j v h => .atom .int64 h
  | double => exact fun j v h => .atom .double h
  | string => exact fun j v h => .atom .string h
  | unit => exact fun j v h => .atom .unit h
  | json => exact fun j v h => .atom .json h
  | enum ms _ _ => exact fun j v h => .atom (.enum ms) h
  | newtype _ ih =>
    intro j v h
    obtain ⟨a, ha, -⟩ := (hL.newtype_decode _ j).ok_inv h
    exact .bare (ih j a ha)
  | list _ ih =>
    intro j v h
    obtain ⟨xs, rfl, hxs⟩ := hL.list_decode_inv h
    exact .list ((List.forall₂_and_left xs v).1 (hxs.imp (fun x a ha => ⟨ih x a ha, ha⟩))).1
  | record init fs _ _ _ ih =>
    intro j v h
    obtain ⟨o, rfl, ho⟩ := hL.record_decode_inv h
    have hread : ∀ f ∈ fs, ∃ t t', L.read f (o.find? f.key) t = .ok t' := foldlM_mem_inv fs init v ho
    refine .record (fun f hf => ?_) (fun f hf A c x hv hx hy => ?_)
    · obtain ⟨t, t', ht⟩ := hread f hf
      exact finds_of_read hL hw ht
    · obtain ⟨t, t', ht⟩ := hread f hf
      rw [hx] at ht
      obtain ⟨a, ha⟩ := decodes_of_read hL hw ht hv hy
      exact ih f hf hv x a ha
  | sum tag arms _ _ _ ih =>
    intro j s h
    obtain ⟨o, b, -, rfl, hb, hl, -⟩ := hL.sum_decode_inv h
    -- of arms with one label, the first is read
    obtain ⟨b', hb'⟩ := Option.isSome_iff_exists.1
      (List.find?_isSome.2 ⟨b, hb, by simp⟩ : (arms.find? (fun b' => b'.label == b.label)).isSome = true)
    obtain ⟨a, ha, -⟩ := (hL.sum_decode tag arms b' _ o hl hb').ok_inv h
    exact .arm hl hb' (ih b' (List.mem_of_find?_eq_some hb') _ a ha)
  | embeddedResource _ _ iht ihb =>
    intro j v h
    rcases embeddedResource_decode_inv h with ⟨x, -, hx⟩ | ⟨x, -, hx, ht⟩
    · exact .textResource (iht j x hx)
    · exact .blobResource ht (ihb j x hx)
  | poCancelled => exact fun j v h => .cancelled j
  | mcpServer _ _ _ iho ihh ihs =>
    intro j v h
    obtain ⟨o, t, rfl, ht, h⟩ := mcpServer_decode_picks h
    by_cases h1 : t = "http"
    · subst h1
      obtain ⟨x, hx, -⟩ := map_ok_inv h
      exact .http (value_eq_ok ht (by decide)) (ihh _ x hx)
    by_cases h2 : t = "sse"
    · subst h2
      obtain ⟨x, hx, -⟩ := map_ok_inv h
      exact .sse (value_eq_ok ht (by decide)) (ihs _ x hx)
    rw [mcpServerOf_other L _ h1 h2] at h
    obtain ⟨x, hx, -⟩ := map_ok_inv h
    exact .stdio ht h1 h2 (iho _ x hx)
  | configSelectOptions _ _ ihu ihg =>
    intro j v h
    rcases configSelectOptions_decode_inv h with ⟨x, -, hx⟩ | ⟨x, -, hx, hb⟩
    · exact .grouped (ihg j x hx)
    · exact .ungrouped hb (ihu j x hx)
  | configOption _ ih =>
    intro j v h
    obtain ⟨o, id, name, t, cv, rfl, hid, hname, ht, hcv, h⟩ := configOption_decode_inv h
    have hn : Named o := ⟨⟨id, hid⟩, ⟨name, hname⟩⟩
    have hbool : (configOptionBase (.obj o) id name t).isBoolean = (t == "boolean") := rfl
    rcases configOptionRest_inv h with ⟨hb, b, rfl, -⟩ | ⟨hb, s, x, os, rfl, hx, hos, -⟩
    · obtain rfl := eq_of_beq (hbool ▸ hb)
      exact .switch hn (value_eq_ok ht (by decide)) hcv
    · exact .select hn ht (ne_of_beq_false (hbool ▸ hb)) hcv hx (ih x os hos)
  | availableCommandInput _ ih =>
    intro j v h
    obtain ⟨o, x, rfl, ht, hx⟩ := availableCommandInput_decode_inv h
    exact .unstructured ht (ih _ x hx)
  | clientSessionCapabilities => exact fun j v h => .clientSession j
  | clientCapabilities _ ih =>
    intro j v h
    rw [clientCapabilities_decode] at h
    obtain ⟨x, hx, -⟩ := map_ok_inv h
    exact .clientBase (ih j x hx)
  | authMethod =>
    intro j v h
    cases j with
    | obj o => exact .authMethod (authMethod_accepts.1 ⟨v, h⟩)
    | _ => cases h
  | suToolCall _ ih =>
    intro j v h
    obtain ⟨x, hx, -⟩ := map_ok_inv h
    exact .suToolCall (ih j x hx)
  | suToolCallUpdate _ ih =>
    intro j v h
    obtain ⟨x, hx, -⟩ := map_ok_inv h
    exact .suToolCallUpdate (ih j x hx)

end Every

/-! ## The payloads -/

theorem accepted_iff_wellFormed {L : Jsonrpc} (hL : L.Lawful) {w : Slack} (hg : L.Gives w) (hh : L.Holds w) {α : Type}
    {c : Codec α} (hc : Proto L c) (j : Json) : (∃ v, c.decode j = .ok v) ↔ WellFormed L w c j :=
  ⟨fun ⟨v, hv⟩ => wellFormed_of_accepted hL hh hc j v hv, fun h => h.accepted hL hg⟩

/-! ## What a decoder has got past -/

/-- The member that a field finds is well formed for it. -/
def Suits (L : Jsonrpc) (w : Slack) {T : Type} (o : Json.Members) (f : FieldSpec T) : Prop :=
  Finds w f (o.find? f.key) ∧ ∀ {A : Type} {c : Codec A} {x : Json}, f.Via f.key c → o.find? f.key = some x →
    HandsOn w f x → WellFormed L w c x

section Passed

variable {L : Jsonrpc} (hL : L.Lawful) {w : Slack} (hg : L.Gives w) (hh : L.Holds w)
include hL hg hh

/-- **Fields are read where each finds a member that is well formed for it.** -/
theorem readAll_returns_iff {T : Type} {fs : List (FieldSpec T)}
    (hc : ∀ f ∈ fs, ∀ {A : Type} {c : Codec A}, f.Via f.key c → Proto L c) (init : T) (o : Json.Members) :
    (∃ t, L.readAll fs o init = .ok t) ↔ ∀ f ∈ fs, Suits L w o f := by
  constructor
  · rintro ⟨t, ht⟩ f hf
    obtain ⟨s, s', hs⟩ := foldlM_mem_inv fs init t ht f hf
    refine ⟨finds_of_read hL hh hs, fun hv hx hy => ?_⟩
    rw [hx] at hs
    obtain ⟨a, ha⟩ := decodes_of_read hL hh hs hv hy
    exact wellFormed_of_accepted hL hh (hc f hf hv) _ a ha
  · exact fun h => foldlM_returns fs init (fun f hf =>
      read_returns hL hg (h f hf).1 (fun hv hx hy => ((h f hf).2 hv hx hy).accepted hL hg))

omit hg in
theorem wellFormed_items {A : Type} {c : Codec A} (hc : Proto L c) {xs : List Json} {as : List A}
    (h : List.Forall₂ (fun x a => c.decode x = .ok a) xs as) : ∀ x ∈ xs, WellFormed L w c x :=
  ((List.forall₂_and_left xs as).1 (h.imp (fun x a ha => ⟨wellFormed_of_accepted hL hh hc x a ha, ha⟩))).1

theorem items_return_iff {A : Type} {c : Codec A} (hc : Proto L c) (xs : List Json) :
    (∃ as, xs.mapM c.decode = .ok as) ↔ ∀ x ∈ xs, WellFormed L w c x := by
  constructor
  · rintro ⟨as, has⟩
    exact wellFormed_items hL hh hc (mapM_ok_inv xs as has)
  · exact fun h => mapM_returns xs (fun x hx => (h x hx).accepted hL hg)

/-- **A record is well formed by what its fields find, and by no more.** -/
theorem wellFormed_record_iff {T : Type} {fs : List (FieldSpec T)}
    (hc : ∀ f ∈ fs, ∀ {A : Type} {c : Codec A}, f.Via f.key c → Proto L c) (init : T) (j : Json) :
    WellFormed L w (L.record init fs) j ↔ ∃ o, j = .obj o ∧ ∀ f ∈ fs, Suits L w o f := by
  constructor
  · intro h
    obtain ⟨v, hv⟩ := h.accepted hL hg
    obtain ⟨o, rfl, ho⟩ := hL.record_decode_inv hv
    exact ⟨o, rfl, (readAll_returns_iff hL hg hh hc init o).1 ⟨v, ho⟩⟩
  · rintro ⟨o, rfl, h⟩
    exact .record (fun f hf => (h f hf).1) (fun f hf => (h f hf).2)

theorem wellFormed_list_iff {A : Type} {c : Codec A} (hc : Proto L c) (j : Json) :
    WellFormed L w (L.listCodec c) j ↔ ∃ xs, j = .arr xs ∧ ∀ x ∈ xs, WellFormed L w c x := by
  constructor
  · intro h
    obtain ⟨as, has⟩ := h.accepted hL hg
    obtain ⟨xs, rfl, hxs⟩ := hL.list_decode_inv has
    exact ⟨xs, rfl, wellFormed_items hL hh hc hxs⟩
  · rintro ⟨xs, rfl, h⟩
    exact .list h

/-- **A record reaches a malformed object in a member all before which are well formed.** -/
theorem rawFault_record_iff {T : Type} {fs : List (FieldSpec T)}
    (hc : ∀ f ∈ fs, ∀ {A : Type} {c : Codec A}, f.Via f.key c → Proto L c) (init : T) (o : Json.Members) :
    RawFault L (L.record init fs) (.obj o) ↔ ∃ pre f post, fs = pre ++ f :: post ∧ (∀ g ∈ pre, Suits L w o g) ∧
      ∃ (A : Type) (c : Codec A) (x : Json), f.Via f.key c ∧ o.find? f.key = some x ∧ RawFault L c x := by
  constructor
  · intro h
    have he := h.escapes hL
    rw [hL.record_decode] at he
    obtain ⟨pre, f, post, t, rfl, hpre, hf⟩ := (escapes_foldlM fs init).1 he
    obtain ⟨A, c, x, hv, hx, hcx⟩ := hL.escapes_read_inv hf
    refine ⟨pre, f, post, rfl, ?_, A, c, x, hv, hx, ?_⟩
    · exact (readAll_returns_iff hL hg hh (fun g hm => hc g (List.mem_append_left _ hm)) init o).1 ⟨t, hpre⟩
    · exact rawFault_of_escapes hL (hc f (List.mem_append_right _ List.mem_cons_self) hv) x hcx
  · rintro ⟨pre, f, post, rfl, hpre, A, c, x, hv, hx, h⟩
    obtain ⟨t, ht⟩ :=
      (readAll_returns_iff hL hg hh (fun g hm => hc g (List.mem_append_left _ hm)) init o).2 hpre
    exact .field ht hv hx h

/-- **A list reaches one in an item all before which are well formed.** -/
theorem rawFault_list_iff {A : Type} {c : Codec A} (hc : Proto L c) (xs : List Json) :
    RawFault L (L.listCodec c) (.arr xs) ↔ ∃ pre x post, xs = pre ++ x :: post ∧ (∀ y ∈ pre, WellFormed L w c y) ∧
      RawFault L c x := by
  constructor
  · intro h
    obtain ⟨pre, x, post, as, rfl, hpre, hx⟩ := (escapes_mapM xs).1 ((hL.list_decode c xs).escapes_iff.1 (h.escapes hL))
    exact ⟨pre, x, post, rfl, (items_return_iff hL hg hh hc pre).1 ⟨as, hpre⟩, rawFault_of_escapes hL hc x hx⟩
  · rintro ⟨pre, x, post, rfl, hpre, h⟩
    obtain ⟨as, has⟩ := (items_return_iff hL hg hh hc pre).2 hpre
    exact .item has h

end Passed

/-! ## What falls through to stdio -/

/-- The member is there, and is a string. -/
def HasString (o : Json.Members) (k : String) : Prop := ∃ s, o.find? k = some (.str s)

/-- The member is an array of what `p` asks for, or not there; a null may stand for nothing. -/
def HasItems (w : Slack) (o : Json.Members) (k : String) (p : Json → Prop) : Prop :=
  ∀ x, o.find? k = some x → (w.nulls = true → x ≠ .null) → ∃ xs, x = .arr xs ∧ ∀ y ∈ xs, p y

theorem HasItems.congr {w : Slack} {o : Json.Members} {k : String} {p q : Json → Prop} (h : ∀ y, p y ↔ q y) :
    HasItems w o k p ↔ HasItems w o k q := by
  have hpq : p = q := funext (fun y => propext (h y))
  rw [hpq]

/-- **What a stdio server needs**: a name and a command; and `args` and `env`, if there, of their types. -/
structure StdioShaped (w : Slack) (o : Json.Members) : Prop where
  name    : HasString o "name"
  command : HasString o "command"
  args    : HasItems w o "args" (fun y => ∃ s, y = .str s)
  env     : HasItems w o "env" (fun y => ∃ e, y = .obj e ∧ HasString e "name" ∧ HasString e "value")

/-- The codec of a field of a record is one of the protocol's. -/
theorem record_fields_proto {L : Jsonrpc} (hL : L.Lawful) {α : Type} [Record α] [Normal α] [RecordOk α] :
    ∀ f ∈ (Record.fields L : List (FieldSpec α)), ∀ {A : Type} {c : Codec A}, f.Via f.key c → Proto L c :=
  fun f hf _ _ hv => ((RecordOk.fits hL).fits f hf).proto hv

section Stdio

variable {L : Jsonrpc} (hL : L.Lawful) {w : Slack} (hg : L.Gives w) (hh : L.Holds w)
include hL hg hh

omit hh in
theorem wellFormed_string_iff (j : Json) : WellFormed L w (L.codec String) j ↔ ∃ s, j = .str s := by
  constructor
  · intro h
    obtain ⟨s, hs⟩ := h.accepted hL hg
    exact ⟨s, hL.string_decode_inv j s hs⟩
  · rintro ⟨s, rfl⟩
    exact .atom .string (hL.string_encode s ▸ hL.string.roundTrip s)

omit hh in
theorem suits_string_iff {T : Type} {k : String} {m : Member T String} {o : Json.Members} :
    Suits L w o (L.required k m) ↔ HasString o k := by
  constructor
  · rintro ⟨⟨y, hy⟩, h⟩
    obtain ⟨s, rfl⟩ := (wellFormed_string_iff hL hg y).1 (h (.required k m L.string) hy trivial)
    exact ⟨s, hy⟩
  · rintro ⟨s, hs⟩
    refine ⟨⟨_, hs⟩, fun hv hx _ => ?_⟩
    cases hv
    obtain rfl := Option.some.inj (hs.symm.trans hx)
    exact (wellFormed_string_iff hL hg _).2 ⟨s, rfl⟩

omit hL hg hh in
theorem suits_defaulted_iff {T A : Type} [CodecOf A] {k : String} {m : Member T A} {d : A} {o : Json.Members} :
    Suits L w o (L.defaulted k m d) ↔
      ∀ x, o.find? k = some x → (w.nulls = true → x ≠ .null) → WellFormed L w (L.codec A) x := by
  constructor
  · exact fun h x hx hy => h.2 (.defaulted k m d (L.codec A)) hx hy
  · refine fun h => ⟨trivial, fun hv hx hy => ?_⟩
    cases hv
    exact h _ hx hy

theorem suits_items_iff {T A : Type} [CodecOf A] [Normal A] [Conforms A] {k : String} {m : Member T (List A)}
    {d : List A} {o : Json.Members} :
    Suits L w o (L.defaulted k m d) ↔ HasItems w o k (WellFormed L w (L.codec A)) := by
  rw [suits_defaulted_iff]
  exact forall_congr' (fun x => imp_congr_right (fun _ => imp_congr_right (fun _ =>
    wellFormed_list_iff hL hg hh (Conforms.proto hL) x)))

theorem wellFormed_keyValue_iff (j : Json) :
    WellFormed L w (L.codec KeyValue) j ↔ ∃ e, j = .obj e ∧ HasString e "name" ∧ HasString e "value" := by
  refine (wellFormed_record_iff hL hg hh (record_fields_proto hL) _ j).trans ?_
  simp [Record.fields, suits_string_iff hL hg]

/-- **A server falls through by a type of no name, and all that a stdio server needs.** -/
theorem fallsThrough_iff (j : Json) : FallsThrough L j ↔ ∃ o t, j = .obj o ∧ t ∉ ["stdio", "http", "sse"] ∧
    o.find? "type" = some (.str t) ∧ StdioShaped w o := by
  have hshape : ∀ o, (∃ x, L.fromJson StdioMcpServer (.obj o) = .ok x) ↔ StdioShaped w o := fun o => by
    have hread := readAll_returns_iff hL hg hh (record_fields_proto (α := StdioMcpServer) hL) Record.init o
    rw [← hL.record_decode] at hread
    refine hread.trans ?_
    simp only [Record.fields, List.forall_mem_cons, suits_string_iff hL hg, suits_items_iff hL hg hh,
      HasItems.congr (wellFormed_string_iff hL hg), HasItems.congr (wellFormed_keyValue_iff hL hg hh)]
    exact ⟨fun h => ⟨h.1, h.2.1, h.2.2.1, h.2.2.2.1⟩, fun h => ⟨h.1, h.2, h.3, h.4, List.forall_mem_nil _⟩⟩
  constructor
  · rintro ⟨t, x, ht, hj, hx⟩
    obtain ⟨o, rfl, -⟩ := hL.record_decode_inv hx
    exact ⟨o, t, rfl, ht, hj, (hshape o).1 ⟨x, hx⟩⟩
  · rintro ⟨o, t, rfl, ht, hj, hs⟩
    obtain ⟨x, hx⟩ := (hshape o).2 hs
    exact ⟨t, x, ht, hj, hx⟩

end Stdio

/-- A value of an enumeration is a string of its mapping. -/
theorem wellFormed_enum_iff {L : Jsonrpc} (hL : L.Lawful) {w : Slack} (hg : L.Gives w) (hh : L.Holds w) {E : Type}
    [DecidableEq E] [StringEnum E] [EnumOk E] (j : Json) :
    WellFormed L w (L.codec E) j ↔ ∃ e s, (e, s) ∈ (StringEnum.mappings : List (E × String)) ∧ j = .str s := by
  rw [← accepted_iff_wellFormed hL hg hh (Conforms.proto hL)]
  constructor
  · rintro ⟨e, he⟩
    obtain ⟨s, hj, hs⟩ := hL.enum_decode_inv _ j e he
    exact ⟨e, s, hs, hj⟩
  · rintro ⟨e, s, hs, rfl⟩
    exact ⟨e, hL.enum_decode _ e s EnumOk.snd_nodup hs⟩

/-- **Whatever the library does with a null or a `_meta` that is no object**, a payload that is well formed without any
slack is accepted, and one that is accepted is well formed with all of it. -/
theorem accepted_between {L : Jsonrpc} (hL : L.Lawful) {α : Type} [CodecOf α] (h : SentPayload α) (j : Json) :
    (WellFormed L .none (L.codec α) j → ∃ v, L.fromJson α j = .ok v) ∧
      ((∃ v, L.fromJson α j = .ok v) → WellFormed L .all (L.codec α) j) :=
  ⟨fun hj => hj.accepted hL L.gives_none, fun ⟨v, hv⟩ => wellFormed_of_accepted hL L.holds_all (h.proto hL) j v hv⟩

/-- **Every JSON value is well formed, or malformed for nlohmann's accessors, or neither**, and the three are told apart
by what a payload's decoder does: it returns, an exception of another library goes through, or it throws its own. -/
theorem decode_verdict (L : Jsonrpc) (hL : L.Lawful) (w : Slack) (hg : L.Gives w) (hh : L.Holds w) {α : Type}
    [CodecOf α] (h : SentPayload α) (j : Json) :
    ((∃ v, L.fromJson α j = .ok v) ↔ WellFormed L w (L.codec α) j) ∧
      ((∃ e, L.fromJson α j = .error e ∧ e.isCodecError = false) ↔ RawFault L (L.codec α) j) ∧
      ((∃ e, L.fromJson α j = .error e ∧ e.isCodecError = true) ↔
        ¬ WellFormed L w (L.codec α) j ∧ ¬ RawFault L (L.codec α) j) := by
  have haccepted : (∃ v, L.fromJson α j = .ok v) ↔ _ := accepted_iff_wellFormed hL hg hh (h.proto hL) j
  have hescapes : (∃ e, L.fromJson α j = .error e ∧ e.isCodecError = false) ↔ _ :=
    escapes_iff_rawFault hL (h.proto hL) j
  refine ⟨haccepted, hescapes, ?_⟩
  rw [← haccepted, ← hescapes]
  cases L.fromJson α j with
  | ok v => simp
  | error e => cases he : e.isCodecError <;> simp [he]

theorem reference_gives : reference.Gives ⟨false, true⟩ where
  nulls h := by cases h
  metas _ T k m x t := by cases x <;> exact ⟨_, rfl⟩

theorem reference_holds : reference.Holds ⟨false, true⟩ where
  nulls _ T A k m d c t t' h := by
    obtain ⟨a, ha, -⟩ := map_ok_inv (f := m.set t) (x := c.decode .null) h
    exact ⟨a, ha⟩
  metas h := by cases h

/-- A selected option is read beside a `_meta` that is a number. -/
theorem decode_verdict_selected :
    WellFormed reference ⟨false, true⟩ (reference.codec RequestPermissionResult)
      (.obj (((∅ : Json.Members).insert "_meta" (.int 1)).insert "outcome"
        (.obj (((∅ : Json.Members).insert "outcome" (.str "selected")).insert "optionId" (.str "o"))))) :=
  (decode_verdict reference reference_lawful ⟨false, true⟩ reference_gives reference_holds
    (.other .requestPermissionResult) _).1.1 ⟨_, rfl⟩

end Acp
