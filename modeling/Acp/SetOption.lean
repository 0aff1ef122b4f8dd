import Acp.MessagesOk
import Acp.Reference
/-!
# SetOption — the kind of value a config option is set to

A client sets an option to the id of a value, or to a boolean, which it also tags `type: "boolean"`.  The agent reads
the kind of value that was sent from the value itself (`kindRead`); the tag is no field of the params, so it is neither
written nor given back (`setConfigOption_kind`).
-/
namespace Acp

open Wire

/-- **The agent reads the value that was set**, as the kind of value it is. -/
def KindRead (L : Jsonrpc) (p : SetConfigOptionParams) : Prop :=
  ∃ q, L.fromJson SetConfigOptionParams (L.toJson p) = .ok q ∧ (q.isBool = true ↔ p.value.isBoolean = true) ∧
    (∀ b, p.value = .bool b → q.valueBool = b) ∧ ∀ s, p.value = .str s → q.valueString = s

/-- **The kind of value arrives**, in the message's tag as in its value. -/
structure KindCarried (L : Jsonrpc) (p : SetConfigOptionParams) : Prop where
  tagged   : p.value.isBoolean = true → (L.toJson p).find? "type" = some (.str "boolean")
  untagged : p.value.isString = true → (L.toJson p).find? "type" = none
  read     : KindRead L p

/-- What a client sends to set a boolean option: the value and its tag. -/
def taggedMessage (sessionId configId : String) (b : Bool) (m : Option Json.Members) : Json.Members :=
  let o := ((((∅ : Json.Members).insert "sessionId" (.str sessionId)).insert "configId" (.str configId)).insert
    "value" (.bool b)).insert "type" (.str "boolean")
  match m with
  | some m => o.insert "_meta" (.obj m)
  | none   => o

theorem taggedMessage_type (s c : String) (b : Bool) (m : Option Json.Members) :
    (taggedMessage s c b m).find? "type" = some (.str "boolean") := by
  cases m <;> simp [taggedMessage, FinMap.find?_insert]

section Params

variable {L : Jsonrpc} (hL : L.Lawful)
include hL

/-- **No params are written with a tag.** -/
theorem setConfigOption_untagged (p : SetConfigOptionParams) : (L.toJson p).find? "type" = none := by
  rw [show L.toJson p = _ from record_encode_obj hL p]
  exact find?_writeAll_empty_of_notMem
    (by simp [Record.fields, FieldSpec.key, Jsonrpc.required, metaField]) p

theorem kindRead (p : SetConfigOptionParams) (hp : p.meta_.isObject = true) : KindRead L p := by
  refine ⟨p, (Conforms.retract hL).loop p hp, Iff.rfl, fun b hb => ?_, fun s hs => ?_⟩
  · unfold SetConfigOptionParams.valueBool
    rw [hb]
  · unfold SetConfigOptionParams.valueString
    rw [hs]; rfl

theorem string_decode (s : String) : (L.codec String).decode (.str s) = .ok s := by
  have h := hL.string.roundTrip s
  rwa [hL.string_encode] at h

/-- A tagged message is read as the boolean it sets. -/
theorem taggedMessage_decode (s c : String) (b : Bool) (m : Option Json.Members) :
    L.fromJson SetConfigOptionParams (.obj (taggedMessage s c b m)) =
      .ok { sessionId := ⟨s⟩, configId := c, value := .bool b, meta_ := .obj (m.getD ∅) } := by
  have hs : (taggedMessage s c b m).find? "sessionId" = some (.str s) := by
    cases m <;> simp [taggedMessage, FinMap.find?_insert]
  have hc : (taggedMessage s c b m).find? "configId" = some (.str c) := by
    cases m <;> simp [taggedMessage, FinMap.find?_insert]
  have hv : (taggedMessage s c b m).find? "value" = some (.bool b) := by
    cases m <;> simp [taggedMessage, FinMap.find?_insert]
  have hm : (taggedMessage s c b m).find? "_meta" = m.map .obj := by
    cases m <;> simp [taggedMessage, FinMap.find?_insert]
  have hid : (L.codec SessionId).decode (.str s) = .ok ⟨s⟩ := (hL.newtype_decode _ _).ok (string_decode hL s)
  show (L.record _ _).decode _ = _
  rw [hL.record_decode]
  refine (readAll_cons (hs ▸ (hL.read_required _ _ _ _ _).ok hid)).trans <|
    (readAll_cons (hc ▸ (hL.read_required _ _ _ _ _).ok (string_decode hL c))).trans <|
    (readAll_cons (hv ▸ (hL.read_required _ _ _ _ _).ok (hL.json_decode _))).trans ?_
  cases m with
  | none => exact (readAll_cons (hm ▸ hL.read_meta_none _ _ _)).trans rfl
  | some m => exact (readAll_cons (hm ▸ hL.read_meta _ _ m _)).trans rfl

end Params

/-- **The kind of a value arrives exactly when it is a string**: a boolean is read as one, but without the tag, and a
tagged message is never given back as it is. -/
theorem setConfigOption_kind (L : Jsonrpc) (hL : L.Lawful) :
    (∀ p : SetConfigOptionParams, p.meta_.isObject = true → (p.value.isBoolean = true ∨ p.value.isString = true) →
      (KindCarried L p ↔ p.value.isString = true) ∧ KindRead L p) ∧
    ∀ (s c : String) (b : Bool) (m : Option Json.Members), ∃ v,
      L.fromJson SetConfigOptionParams (.obj (taggedMessage s c b m)) = .ok v ∧ v.value = .bool b ∧
        L.toJson v ≠ .obj (taggedMessage s c b m) := by
  refine ⟨fun p hp hkind => ⟨⟨fun h => ?_, fun h => ?_⟩, kindRead hL p hp⟩, fun s c b m => ?_⟩
  · refine hkind.resolve_left (fun hb => ?_)
    have ht := h.tagged hb
    rw [setConfigOption_untagged hL] at ht
    cases ht
  · refine ⟨fun hb => ?_, fun _ => setConfigOption_untagged hL p, kindRead hL p hp⟩
    cases hv : p.value with
    | str s => rw [hv] at hb; cases hb
    | _ => rw [hv] at h; cases h
  · refine ⟨_, taggedMessage_decode hL s c b m, rfl, fun he => ?_⟩
    have ht := taggedMessage_type s c b m
    rw [← Json.find?_obj, ← he, setConfigOption_untagged hL] at ht
    cases ht

theorem setConfigOption_kind_string : KindCarried reference { configId := "model", value := .str "gpt" } :=
  ((setConfigOption_kind reference reference_lawful).1 { configId := "model", value := .str "gpt" } rfl
    (.inr rfl)).1.2 rfl

/-- A boolean option is set without the tag. -/
theorem boolean_sent_untagged : ¬ KindCarried reference { configId := "web", value := .bool true } := by
  intro h
  have ht := h.tagged rfl
  rw [setConfigOption_untagged reference_lawful] at ht
  cases ht

end Acp
