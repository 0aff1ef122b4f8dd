import Acp.Records
import Acp.Normal
import Acp.Proto
/-!
# Conforms — the types whose codec keeps their normal form

`Conforms α`: writing and reading an `α` normalises it (`Retract`), and its codec is one of the protocol's.  A record
conforms when each of its fields fits (`RecordOk`), a tagged sum when each of its arms does (`SumOk`); the instances of
the two classes are what there is to say about one type of the schema.
-/
namespace Acp

open Wire

class Conforms (α : Type) [CodecOf α] [Normal α] : Prop where
  retract : ∀ {L : Jsonrpc}, L.Lawful → Retract (L.codec α) metaOk norm
  proto   : ∀ {L : Jsonrpc}, L.Lawful → Proto L (L.codec α)

/-- No value is written as null. -/
class NeverNull (α : Type) [CodecOf α] : Prop where
  ne_null : ∀ {L : Jsonrpc}, L.Lawful → ∀ v : α, (L.codec α).encode v ≠ .null

/-- What is written is an object without the key `t`, and what is read is read without it. -/
class Skips (α : Type) [CodecOf α] (t : String) : Prop where
  object : ∀ {L : Jsonrpc}, L.Lawful → ∀ v : α, ∃ o, (L.codec α).encode v = .obj o ∧ o.find? t = none
  skips  : ∀ {L : Jsonrpc}, L.Lawful → ∀ (o : Json.Members) (x : Json),
    (L.codec α).decode (.obj (o.insert t x)) = (L.codec α).decode (.obj o)

/-! ## Fields -/

/-- The member agrees with `ok` and `norm`: they can be taken before or after it is put in place. -/
structure Respects {T A : Type} [Normal T] (m : Member T A) (ok : A → Prop) (norm' : A → A) : Prop where
  get_ok   : ∀ v, metaOk v → ok (m.get v) := by
    intro v h
    first | trivial | exact fun _ _ => trivial | exact fun _ _ _ _ => trivial | exact h | exact h.1 | exact h.2 |
      exact h.2.1 | exact h.2.2
  get_norm : ∀ v, m.get (norm v) = norm' (m.get v) := by
    intro v; first | rfl | simp [norm]
  set_ok   : ∀ t a, metaOk t → ok a → metaOk (m.set t a) := by
    intro t a ht ha
    first | exact ht | exact ha | exact ⟨ha, ht.2⟩ | exact ⟨ht.1, ha⟩ | exact ⟨ht.1, ha, ht.2.2⟩ |
      exact ⟨ht.1, ht.2.1, ha⟩
  set_norm : ∀ t a, norm (m.set t a) = m.set (norm t) (norm' a) := by
    intro t a; first | rfl | simp [norm]

theorem Respects.good_set {T A : Type} [Normal T] {m : Member T A} {ok : A → Prop} {norm' : A → A}
    (h : Respects m ok norm') {t : T} {a : A} (ht : Good t) (ha : ok a ∧ norm' a = a) : Good (m.set t a) :=
  ⟨h.set_ok t a ht.1 ha.1, by rw [h.set_norm, ht.2, ha.2]⟩

/-- What the field writes, it reads back normalised. -/
def Loops (L : Jsonrpc) {T : Type} [Normal T] (f : FieldSpec T) : Prop :=
  ∀ v t, metaOk v → L.read f (L.write f v) t = .ok (f.copy (norm v) t)

/-- **The field fits its record**: it gives back what it writes, and keeps a good record good. -/
structure Fits (L : Jsonrpc) {T : Type} [Normal T] (f : FieldSpec T) : Prop where
  loop  : Loops L f
  keeps : ∀ x t t', Good t → L.read f x t = .ok t' → Good t'
  proto : ∀ {k : String} {A : Type} {c : Codec A}, f.Via k c → Proto L c

section Fields

variable {L : Jsonrpc} {T A : Type} [Normal T] {k : String} {c : Codec A} {ok : A → Prop} {norm' : A → A}

theorem Loops.required {m : Member T A} (hL : L.Lawful) (hc : ∀ a, ok a → c.decode (c.encode a) = .ok (norm' a))
    (hm : Respects m ok norm') : Loops L (.required k m c) := fun v t hv => by
  show _ = Except.ok (m.set t (m.get (norm v)))
  rw [hm.get_norm]
  exact hL.reread_required (hc _ (hm.get_ok v hv)) t

theorem Loops.defaulted {m : Member T A} {d : A} (hL : L.Lawful)
    (hc : ∀ a, ok a → c.decode (c.encode a) = .ok (norm' a)) (hnn : ∀ a, c.encode a ≠ .null)
    (hm : Respects m ok norm') (hd : norm' d = d) : Loops L (.defaulted k m d c) := fun v t hv => by
  show _ = Except.ok (m.set t (m.get (norm v)))
  rw [hm.get_norm]
  exact hL.reread_defaulted (hc _ (hm.get_ok v hv)) (hnn _) (fun hv => by rw [hv, hd]) t

theorem Loops.optional {m : Member T (Option A)} (hL : L.Lawful)
    (hc : ∀ a, ok a → c.decode (c.encode a) = .ok (norm' a)) (hnn : ∀ a, c.encode a ≠ .null)
    (hm : Respects m (fun v => ∀ a ∈ v, ok a) (Option.map norm')) : Loops L (.optional k m c) := fun v t hv => by
  show _ = Except.ok (m.set t (m.get (norm v)))
  rw [hm.get_norm]
  exact hL.reread_optional (fun a ha => ⟨hc a (hm.get_ok v hv a ha), hnn a⟩) t

theorem Loops.optionalJson {m : Member T (Option Json)} (hL : L.Lawful) (hm : Respects m (fun _ => True) dropNull) :
    Loops L (.optional k m L.json) := fun v t _ => by
  show _ = Except.ok (m.set t (m.get (norm v)))
  rw [hL.write_optional, hm.get_norm]
  cases m.get v with
  | none => exact hL.read_optional_none k m L.json t
  | some x =>
    rw [Option.map_some, hL.json_encode]
    by_cases hx : x = .null
    · subst hx
      exact hL.read_optional_null k m L.json t
    · rw [(hL.read_optional k m L.json x t hx).ok (hL.json_decode x)]
      cases x <;> first | rfl | exact absurd rfl hx

theorem Loops.meta_ {m : Member T Json} (hL : L.Lawful) (hm : Respects m (fun j => j.isObject = true) id) :
    Loops L (.meta_ k m) := fun v t hv => by
  show _ = Except.ok (m.set t (m.get (norm v)))
  rw [hm.get_norm]
  exact hL.reread_meta (hm.get_ok v hv) t

theorem Fits.required {m : Member T A} (hL : L.Lawful) (hc : Retract c ok norm') (hp : Proto L c)
    (hm : Respects m ok norm') : Fits L (.required k m c) where
  loop := Loops.required hL hc.loop hm
  keeps x t t' ht h := by
    obtain ⟨y, a, -, ha, rfl⟩ := hL.read_required_inv h
    exact hm.good_set ht (hc.lands y a ha)
  proto hv := by cases hv; exact hp

theorem Fits.defaulted {m : Member T A} {d : A} (hL : L.Lawful) (hc : Retract c ok norm') (hp : Proto L c)
    (hnn : ∀ a, c.encode a ≠ .null) (hm : Respects m ok norm') (hd : ok d ∧ norm' d = d) :
    Fits L (.defaulted k m d c) where
  loop := Loops.defaulted hL hc.loop hnn hm hd.2
  keeps x t t' ht h := by
    rcases hL.read_defaulted_inv h with ⟨-, rfl⟩ | ⟨y, a, -, ha, rfl⟩
    · exact hm.good_set ht hd
    · exact hm.good_set ht (hc.lands y a ha)
  proto hv := by cases hv; exact hp

theorem Fits.optional {m : Member T (Option A)} (hL : L.Lawful) (hc : Retract c ok norm') (hp : Proto L c)
    (hnn : ∀ a, c.encode a ≠ .null) (hm : Respects m (fun v => ∀ a ∈ v, ok a) (Option.map norm')) :
    Fits L (.optional k m c) where
  loop := Loops.optional hL hc.loop hnn hm
  keeps x t t' ht h := by
    rcases hL.read_optional_inv h with ⟨-, rfl⟩ | ⟨y, a, -, -, ha, rfl⟩
    · exact hm.good_set ht ⟨fun a ha => (by cases ha), rfl⟩
    · obtain ⟨h1, h2⟩ := hc.lands y a ha
      exact hm.good_set ht ⟨fun b hb => (by cases hb; exact h1), by rw [Option.map_some, h2]⟩
  proto hv := by cases hv; exact hp

theorem Fits.optionalJson {m : Member T (Option Json)} (hL : L.Lawful) (hm : Respects m (fun _ => True) dropNull) :
    Fits L (.optional k m L.json) where
  loop := Loops.optionalJson hL hm
  keeps x t t' ht h := by
    rcases hL.read_optional_inv h with ⟨-, rfl⟩ | ⟨y, a, -, hy, ha, rfl⟩
    · exact hm.good_set ht ⟨trivial, rfl⟩
    · rw [hL.json_decode] at ha; cases ha
      refine hm.good_set ht ⟨trivial, ?_⟩
      cases y <;> first | rfl | exact absurd rfl hy
  proto hv := by cases hv; exact .json

theorem Fits.meta_ {m : Member T Json} (hL : L.Lawful) (hm : Respects m (fun j => j.isObject = true) id) :
    Fits L (.meta_ k m) where
  loop := Loops.meta_ hL hm
  keeps x t t' ht h := by
    obtain ⟨o, rfl⟩ := hL.read_meta_inv h
    exact hm.good_set ht ⟨rfl, rfl⟩
  proto hv := by cases hv

end Fields

/-! ## Records -/

/-- Every field fits. -/
inductive AllFits (L : Jsonrpc) {T : Type} [Normal T] : List (FieldSpec T) → Prop where
  | nil : AllFits L []
  | cons {f : FieldSpec T} {fs : List (FieldSpec T)} (hf : Fits L f) (h : AllFits L fs) : AllFits L (f :: fs)

namespace AllFits

variable {L : Jsonrpc} {T A : Type} [Normal T] {k : String} {fs : List (FieldSpec T)}

theorem fits (h : AllFits L fs) : ∀ f ∈ fs, Fits L f := by
  induction h with
  | nil => intro f hf; cases hf
  | cons hf _ ih =>
    intro g hg
    rcases List.mem_cons.1 hg with rfl | hg
    · exact hf
    · exact ih g hg

variable [CodecOf A] [Normal A] [Conforms A] (hL : L.Lawful)
include hL

theorem required {m : Member T A} (h : AllFits L fs)
    (hm : Respects m metaOk norm := by exact {}) :
    AllFits L (L.required k m :: fs) :=
  .cons (.required hL (Conforms.retract hL) (Conforms.proto hL) hm) h

theorem optional [NeverNull A] {m : Member T (Option A)} (h : AllFits L fs)
    (hm : Respects m metaOk norm := by exact {}) :
    AllFits L (L.optional k m :: fs) :=
  .cons (.optional hL (Conforms.retract hL) (Conforms.proto hL) (NeverNull.ne_null hL) hm) h

theorem defaulted [NeverNull A] {m : Member T A} {d : A} (h : AllFits L fs)
    (hm : Respects m metaOk norm := by exact {})
    (hd : Good d := by exact ⟨by simp [metaOk], rfl⟩) :
    AllFits L (L.defaulted k m d :: fs) :=
  .cons (.defaulted hL (Conforms.retract hL) (Conforms.proto hL) (NeverNull.ne_null hL) hm hd) h

omit [CodecOf A] [Normal A] [Conforms A] in
theorem optionalJson {m : Member T (Option Json)} (h : AllFits L fs)
    (hm : Respects m (fun _ => True) dropNull := by exact {}) :
    AllFits L (L.optional k m :: fs) :=
  .cons (.optionalJson hL hm) h

omit [CodecOf A] [Normal A] [Conforms A] in
theorem meta_ {m : Member T Json} (h : AllFits L fs)
    (hm : Respects m (fun j => j.isObject = true) id := by exact {}) :
    AllFits L (metaField k m :: fs) :=
  .cons (.meta_ hL hm) h

end AllFits

/-- **A record of the schema**: its fields fit, their keys are distinct, and they are all there is to it. -/
class RecordOk (α : Type) [Record α] [Normal α] : Prop where
  fits       : ∀ {L : Jsonrpc}, L.Lawful → AllFits L (Record.fields L : List (FieldSpec α))
  keys_nodup : ∀ L, ((Record.fields L : List (FieldSpec α)).map FieldSpec.key).Nodup := by
    intro L; simp [Record.fields, FieldSpec.key, Jsonrpc.required, Jsonrpc.optional, Jsonrpc.defaulted, metaField]
  meta_only  : ∀ L, ∀ f ∈ (Record.fields L : List (FieldSpec α)), f.key = "_meta" → ∃ m, f = metaField "_meta" m := by
    intro L; simp [Record.fields, FieldSpec.key, Jsonrpc.required, Jsonrpc.optional, Jsonrpc.defaulted, metaField]
  complete   : ∀ (L : Jsonrpc) (w t : α), (Record.fields L).foldl (fun t f => f.copy w t) t = w := by
    intro L w t; cases w; rfl
  init_good  : Good (Record.init : α) := by exact ⟨by simp [metaOk, Record.init, Json.object], rfl⟩

section Record

variable {α : Type} [Record α] [Normal α] [RecordOk α]

instance : Conforms α where
  retract {L} hL :=
    { loop := fun v hv => hL.record_loop (RecordOk.keys_nodup L)
        (fun f hf t => ((RecordOk.fits hL).fits f hf).loop v t hv) (RecordOk.complete L)
      lands := fun _ _ h => hL.record_lands (P := Good) RecordOk.init_good
        (fun f hf => ((RecordOk.fits hL).fits f hf).keeps) h }
  proto {L} hL := .record _ _ (RecordOk.keys_nodup L) (RecordOk.meta_only L)
    (fun f hf => ((RecordOk.fits hL).fits f hf).proto)

end Record

theorem record_encode_obj {α : Type} [Record α] {L : Jsonrpc} (hL : L.Lawful) (v : α) :
    (L.codec α).encode v = .obj (L.writeAll (Record.fields L) v ∅) := hL.record_encode _ _ v

/-- A required member is always written. -/
theorem find?_required {α A : Type} [Record α] [Normal α] [RecordOk α] [CodecOf A] {L : Jsonrpc} (hL : L.Lawful)
    (k : String) (m : Member α A) (h : L.required k m ∈ (Record.fields L : List (FieldSpec α))) (v : α) :
    (L.writeAll (Record.fields L) v ∅).find? k = some ((L.codec A).encode (m.get v)) :=
  (find?_writeAll_empty (RecordOk.keys_nodup L) h v).trans (hL.write_required k m (L.codec A) v)

instance {α : Type} [Record α] : NeverNull α where
  ne_null hL v h := by rw [record_encode_obj hL] at h; cases h

/-- A record skips every key it does not declare. -/
theorem Skips.record {α : Type} [Record α] {tag : String}
    (h : ∀ L, tag ∉ (Record.fields L : List (FieldSpec α)).map FieldSpec.key := by
      intro L; simp [Record.fields, FieldSpec.key, Jsonrpc.required, Jsonrpc.optional, Jsonrpc.defaulted, metaField]) :
    Skips α tag where
  object hL v := ⟨_, record_encode_obj hL v, find?_writeAll_empty_of_notMem (h _) v⟩
  skips hL := hL.record_skips (h _)

section TagAdded

variable {L : Jsonrpc} (hL : L.Lawful) {A : Type} [CodecOf A] (tag : String) [hskip : Skips A tag]
include hL

/-- A tag that is assigned by hand. -/
theorem tagAdded_set (label : String) (x : A) :
    TagAdded (L.toJson x) tag label ((L.toJson x).set tag (.str label)) := by
  obtain ⟨o, ho, ht⟩ := hskip.object hL x
  have ho' : L.toJson x = .obj o := ho
  rw [ho']
  exact ⟨o, rfl, ht, rfl⟩

variable {tag} in
/-- The payload is read whether its tag is there or not. -/
theorem tagAdded_decode {payload whole : Json} {label : String} (h : TagAdded payload tag label whole) :
    (L.codec A).decode whole = (L.codec A).decode payload := by
  obtain ⟨o, rfl, -, rfl⟩ := h
  exact hskip.skips hL o _

end TagAdded

/-! ## Built-in types, enumerations, newtypes and lists -/

section Primitive

variable {A : Type} {L : Jsonrpc} {c : Codec A} (hc : Jsonrpc.Primitive c)
include hc

theorem primitive_retract : Retract c (fun _ => True) id :=
  { loop := fun v _ => hc.roundTrip v, lands := fun _ _ _ => ⟨trivial, rfl⟩ }

end Primitive

instance : Conforms Bool   := ⟨fun hL => primitive_retract hL.bool, fun _ => .bool⟩
instance : Conforms Int32  := ⟨fun hL => primitive_retract hL.int, fun _ => .int⟩
instance : Conforms Int64  := ⟨fun hL => primitive_retract hL.int64, fun _ => .int64⟩
instance : Conforms Double := ⟨fun hL => primitive_retract hL.double, fun _ => .double⟩
instance : Conforms String := ⟨fun hL => primitive_retract hL.string, fun _ => .string⟩
instance : Conforms Unit   := ⟨fun hL => primitive_retract hL.unit, fun _ => .unit⟩

instance : Conforms Json where
  retract hL :=
    { loop := fun v _ => (congrArg _ (hL.json_encode v)).trans (hL.json_decode v)
      lands := fun _ _ _ => ⟨trivial, rfl⟩ }
  proto _ := .json

instance : NeverNull Bool   := ⟨fun hL => hL.bool.ne_null⟩
instance : NeverNull Int32  := ⟨fun hL => hL.int.ne_null⟩
instance : NeverNull Int64  := ⟨fun hL => hL.int64.ne_null⟩
instance : NeverNull Double := ⟨fun hL => hL.double.ne_null⟩
instance : NeverNull String := ⟨fun hL => hL.string.ne_null⟩
instance : NeverNull Unit   := ⟨fun hL => hL.unit.ne_null⟩

theorem primitive_newtype {Tag A : Type} {c : Codec A} {L : Jsonrpc} (hL : L.Lawful) (hc : Jsonrpc.Primitive c) :
    Jsonrpc.Primitive (L.newtypeCodec c : Codec (Newtype Tag A)) where
  roundTrip v := by
    rw [hL.newtype_encode]
    exact (hL.newtype_decode c _).ok (hc.roundTrip v.value)
  ne_null v := by
    rw [hL.newtype_encode]
    exact hc.ne_null v.value
  throws j e h := by
    have hr : Relays _ (fun a => (⟨a⟩ : Newtype Tag A)) _ := hL.newtype_decode c j
    cases hd : c.decode j with
    | ok a => rw [hr.ok hd] at h; cases h
    | error e' =>
      rw [hd] at hr
      obtain ⟨e'', he, hk⟩ := hr
      rw [he] at h; cases h
      rcases hk with rfl | ⟨-, hk⟩
      · exact hc.throws j _ hd
      · exact hk

instance {Tag : Type} : Conforms (Newtype Tag String) where
  retract hL := primitive_retract (primitive_newtype hL hL.string)
  proto _ := .newtype .string

instance {Tag : Type} : NeverNull (Newtype Tag String) := ⟨fun hL => (primitive_newtype hL hL.string).ne_null⟩

/-- Every value of an enumeration has one string, and every string one value. -/
class EnumOk (α : Type) [StringEnum α] : Prop where
  fst_nodup : ((StringEnum.mappings : List (α × String)).map Prod.fst).Nodup
  snd_nodup : ((StringEnum.mappings : List (α × String)).map Prod.snd).Nodup
  total     : ∀ e : α, ∃ s, (e, s) ∈ (StringEnum.mappings : List (α × String))

theorem enum_primitive {α : Type} [DecidableEq α] [StringEnum α] [EnumOk α] {L : Jsonrpc} (hL : L.Lawful) :
    Jsonrpc.Primitive (L.codec α) where
  roundTrip e := by
    obtain ⟨s, hs⟩ := EnumOk.total e
    show (L.enumCodec _).decode ((L.enumCodec _).encode e) = _
    rw [hL.enum_encode _ e s EnumOk.fst_nodup hs, hL.enum_decode _ e s EnumOk.snd_nodup hs]
  ne_null e h := by
    obtain ⟨s, hs⟩ := EnumOk.total e
    have he : (L.codec α).encode e = .str s := hL.enum_encode _ e s EnumOk.fst_nodup hs
    rw [he] at h; cases h
  throws j e h := hL.enum_throws _ j e h

instance {α : Type} [DecidableEq α] [StringEnum α] [EnumOk α] : Conforms α where
  retract hL := primitive_retract (enum_primitive hL)
  proto _ := .enum _ EnumOk.fst_nodup EnumOk.total

instance {α : Type} [DecidableEq α] [StringEnum α] [EnumOk α] : NeverNull α := ⟨fun hL => (enum_primitive hL).ne_null⟩

instance {α : Type} [CodecOf α] [Normal α] [Conforms α] : Conforms (List α) where
  retract hL := hL.list_retract (Conforms.retract hL)
  proto hL := .list (Conforms.proto hL)

instance {α : Type} [CodecOf α] : NeverNull (List α) where
  ne_null {L} hL v h := by
    have he : (L.codec (List α)).encode v = .arr (v.map (L.codec α).encode) := hL.list_encode _ v
    rw [he] at h; cases h

/-! ## Tagged sums -/

/-- What the arm writes is read back as its own, under its own label, and what it reads is good. -/
structure ArmFits (L : Jsonrpc) (tag : String) {S : Type} [Normal S] (b : Arm S) : Prop where
  loop  : ∀ s a, b.alt.proj s = some a → metaOk s → ∃ o a', b.codec.encode a = .obj o ∧
    b.codec.decode (.obj (o.insert tag (.str b.label))) = .ok a' ∧ b.alt.inj a' = norm s
  lands : ∀ j a, b.codec.decode j = .ok a → Good (b.alt.inj a)
  object : ∀ a, ∃ o, b.codec.encode a = .obj o
  proto : Proto L b.codec

/-- Every arm fits. -/
inductive AllArms (L : Jsonrpc) (tag : String) {S : Type} [Normal S] : List (Arm S) → Prop where
  | nil : AllArms L tag []
  | cons {b : Arm S} {bs : List (Arm S)} (hb : ArmFits L tag b) (h : AllArms L tag bs) : AllArms L tag (b :: bs)

namespace AllArms

variable {L : Jsonrpc} {tag : String} {S : Type} [Normal S] {bs : List (Arm S)}

theorem fits (h : AllArms L tag bs) : ∀ b ∈ bs, ArmFits L tag b := by
  induction h with
  | nil => intro b hb; cases hb
  | cons hb _ ih =>
    intro b' hb'
    rcases List.mem_cons.1 hb' with rfl | hb'
    · exact hb
    · exact ih b' hb'

theorem arm {A : Type} [CodecOf A] [Normal A] [Conforms A] [hskip : Skips A tag] {label : String} {alt : Alt S A}
    (hL : L.Lawful) (h : AllArms L tag bs)
    (hp : ∀ s a, alt.proj s = some a → s = alt.inj a := by intro s a h; cases s <;> cases h <;> rfl)
    (hok : ∀ a, metaOk (alt.inj a) ↔ metaOk a := by intro a; rfl)
    (hnorm : ∀ a, norm (alt.inj a) = alt.inj (norm a) := by intro a; rfl) : AllArms L tag (L.arm label alt :: bs) :=
  .cons
    { loop := fun s (a : A) ha hs => by
        obtain rfl := hp s a ha
        obtain ⟨o, ho, -⟩ := hskip.object hL a
        refine ⟨o, norm (α := A) a, ho, ?_, (hnorm a).symm⟩
        show (L.codec A).decode _ = _
        rw [hskip.skips hL, ← ho]
        exact (Conforms.retract hL).loop a ((hok a).1 hs)
      lands := fun j (a : A) ha => by
        obtain ⟨h1, h2⟩ := (Conforms.retract (α := A) hL).lands j a ha
        exact ⟨(hok a).2 h1, (hnorm a).trans (congrArg alt.inj h2)⟩
      object := fun (a : A) => by
        obtain ⟨o, ho, -⟩ := hskip.object hL a
        exact ⟨o, ho⟩
      proto := Conforms.proto (α := A) hL } h

end AllArms

/-- **A tagged sum of the schema**: its arms fit, their labels are distinct, and each value is held by one. -/
class SumOk (α : Type) [TaggedSum α] [Normal α] : Prop where
  fits         : ∀ {L : Jsonrpc}, L.Lawful → AllArms L (TaggedSum.tag α) (TaggedSum.arms L : List (Arm α))
  labels_nodup : ∀ L, ((TaggedSum.arms L : List (Arm α)).map Arm.label).Nodup := by
    intro L; simp [TaggedSum.arms, Jsonrpc.arm]
  tag_ne       : TaggedSum.tag α ≠ "_meta" := by simp [TaggedSum.tag]
  total        : ∀ (L : Jsonrpc) (s : α), ∃ b a, (TaggedSum.arms L).find? (fun b => b.holds s) = some b ∧
    b.alt.proj s = some a := by
    intro L s; cases s <;> exact ⟨_, _, rfl, rfl⟩

section Sum

variable {α : Type} [TaggedSum α] [Normal α] [SumOk α]

theorem sum_encode_obj {L : Jsonrpc} (hL : L.Lawful) (s : α) : ∃ b a o, b ∈ (TaggedSum.arms L : List (Arm α)) ∧
    b.alt.proj s = some a ∧ b.codec.encode a = .obj o ∧
    (L.codec α).encode s = .obj (o.insert (TaggedSum.tag α) (.str b.label)) := by
  obtain ⟨b, a, hb, ha⟩ := SumOk.total L s
  have hm := List.mem_of_find?_eq_some hb
  obtain ⟨o, ho⟩ := ((SumOk.fits hL).fits b hm).object a
  exact ⟨b, a, o, hm, ha, ho, hL.sum_encode _ _ b s a o hb ha ho⟩

instance : Conforms α where
  retract {L} hL :=
    { loop := fun s hs => by
        obtain ⟨b, a, o, hb, ha, ho, he⟩ := sum_encode_obj hL s
        obtain ⟨o', a', ho', hd, hn⟩ := ((SumOk.fits hL).fits b hb).loop s a ha hs
        obtain rfl : o = o' := Json.obj.inj (ho.symm.trans ho')
        rw [he, ← hn]
        exact (hL.sum_decode _ _ b b.label _ (FinMap.find?_insert_self _ _ _)
          (Arm.find?_label _ (SumOk.labels_nodup L) hb)).ok hd
      lands := fun j s h => by
        obtain ⟨o, b, a, -, hb, -, ha, rfl⟩ := hL.sum_decode_inv h
        exact ((SumOk.fits hL).fits b hb).lands _ a ha }
  proto {L} hL := .sum _ _ SumOk.tag_ne ⟨SumOk.total L, fun b hb => ((SumOk.fits hL).fits b hb).object⟩
    (fun b hb => ((SumOk.fits hL).fits b hb).proto)

instance : NeverNull α where
  ne_null hL s h := by
    obtain ⟨b, a, o, -, -, -, he⟩ := sum_encode_obj hL s
    rw [he] at h; cases h

end Sum

end Acp
