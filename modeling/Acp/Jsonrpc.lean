import Acp.Wire.Codec
/-!
# Jsonrpc — the codec algebra the schema is written in

The combinators come from jsonrpc-cpp, which is not part of this repository: `Jsonrpc` is that library as a parameter,
and `Jsonrpc.Lawful` is what the schema relies on of it.  `CodecOf` is the codec table: an instance is a
specialisation of `acp::CodecOf<T>`, and a type's codec is found by its type, as `codec<T>()` finds it.
-/
namespace Acp

open Wire

/-- `Newtype<Tag, A>`: nominally distinct, the bare value on the wire. -/
structure Newtype (Tag A : Type) where
  value : A

/-- **jsonrpc-cpp's codec algebra**, as `codec.hpp` re-exports it.  `read` and `write` are what `record` does with one
field: `read` with the member found under its key, if any, and the record built so far. -/
structure Jsonrpc where
  read         : {T : Type} → FieldSpec T → Option Json → T → Except Exn T
  write        : {T : Type} → FieldSpec T → T → Option Json
  record       : {T : Type} → T → List (FieldSpec T) → Codec T
  sumTagged    : {S : Type} → String → List (Arm S) → Codec S
  enumCodec    : {E : Type} → [DecidableEq E] → List (E × String) → Codec E
  listCodec    : {A : Type} → Codec A → Codec (List A)
  newtypeCodec : {Tag A : Type} → Codec A → Codec (Newtype Tag A)
  bool         : Codec Bool
  int          : Codec Int32
  int64        : Codec Int64
  double       : Codec Double
  string       : Codec String
  unit         : Codec Unit
  json         : Codec Json

namespace Jsonrpc

/-- The object `record` writes: each field's member under its key, in the order of the fields. -/
def writeAll (L : Jsonrpc) {T : Type} : List (FieldSpec T) → T → Json.Members → Json.Members
  | [],      _, o => o
  | f :: fs, v, o => L.writeAll fs v (match L.write f v with | some x => o.insert f.key x | none => o)

/-- The record `record` reads: each field in order, with the member under its key. -/
def readAll (L : Jsonrpc) {T : Type} (fs : List (FieldSpec T)) (o : Json.Members) (init : T) : Except Exn T :=
  fs.foldlM (fun t f => L.read f (o.find? f.key) t) init

/-- **What a primitive codec is**: it decodes what it encodes, never encodes to null, and throws only its own error. -/
structure Primitive {A : Type} (c : Codec A) : Prop where
  roundTrip : ∀ a, c.decode (c.encode a) = .ok a
  ne_null   : ∀ a, c.encode a ≠ .null
  throws    : ∀ j e, c.decode j = .error e → e.isCodecError = true

/-- **What the schema relies on of jsonrpc-cpp.** -/
structure Lawful (L : Jsonrpc) : Prop where
  /-- `record` decodes only objects, field by field, and writes only the members its fields declare. -/
  record_encode : ∀ {T : Type} (init : T) (fs : List (FieldSpec T)) (v : T),
    (L.record init fs).encode v = .obj (L.writeAll fs v ∅)
  record_decode : ∀ {T : Type} (init : T) (fs : List (FieldSpec T)) (o : Json.Members),
    (L.record init fs).decode (.obj o) = L.readAll fs o init
  record_decode_other : ∀ {T : Type} (init : T) (fs : List (FieldSpec T)) (j : Json), j.isObject = false →
    ∃ msg, (L.record init fs).decode j = .error (.codecError msg)
  /-- `required` only tests presence. -/
  read_required_none : ∀ {T A : Type} (k : String) (m : Member T A) (c : Codec A) (t : T),
    ∃ msg, L.read (.required k m c) none t = .error (.codecError msg)
  read_required : ∀ {T A : Type} (k : String) (m : Member T A) (c : Codec A) (x : Json) (t : T),
    Relays (c.decode x) (m.set t) (L.read (.required k m c) (some x) t)
  write_required : ∀ {T A : Type} (k : String) (m : Member T A) (c : Codec A) (v : T),
    L.write (.required k m c) v = some (c.encode (m.get v))
  /-- `optional` omits Nothing, and reads absent or null as Nothing. -/
  read_optional_none : ∀ {T A : Type} (k : String) (m : Member T (Option A)) (c : Codec A) (t : T),
    L.read (.optional k m c) none t = .ok (m.set t none)
  read_optional_null : ∀ {T A : Type} (k : String) (m : Member T (Option A)) (c : Codec A) (t : T),
    L.read (.optional k m c) (some .null) t = .ok (m.set t none)
  read_optional : ∀ {T A : Type} (k : String) (m : Member T (Option A)) (c : Codec A) (x : Json) (t : T), x ≠ .null →
    Relays (c.decode x) (fun a => m.set t (some a)) (L.read (.optional k m c) (some x) t)
  write_optional : ∀ {T A : Type} (k : String) (m : Member T (Option A)) (c : Codec A) (v : T),
    L.write (.optional k m c) v = (m.get v).map c.encode
  /-- `defaulted` reads absent as the default, and writes at least every other value, by the member alone; null is
  either. -/
  read_defaulted_none : ∀ {T A : Type} (k : String) (m : Member T A) (d : A) (c : Codec A) (t : T),
    L.read (.defaulted k m d c) none t = .ok (m.set t d)
  read_defaulted_null : ∀ {T A : Type} (k : String) (m : Member T A) (d : A) (c : Codec A) (t : T),
    L.read (.defaulted k m d c) (some .null) t = .ok (m.set t d) ∨
      Relays (c.decode .null) (m.set t) (L.read (.defaulted k m d c) (some .null) t)
  read_defaulted : ∀ {T A : Type} (k : String) (m : Member T A) (d : A) (c : Codec A) (x : Json) (t : T), x ≠ .null →
    Relays (c.decode x) (m.set t) (L.read (.defaulted k m d c) (some x) t)
  write_defaulted : ∀ {T A : Type} (k : String) (m : Member T A) (d : A) (c : Codec A) (v : T),
    L.write (.defaulted k m d c) v = some (c.encode (m.get v)) ∨
      (m.get v = d ∧ L.write (.defaulted k m d c) v = none)
  write_defaulted_congr : ∀ {T A : Type} (k : String) (m : Member T A) (d : A) (c : Codec A) (v w : T),
    m.get v = m.get w → L.write (.defaulted k m d c) v = L.write (.defaulted k m d c) w
  /-- `meta` always yields an object, omits {} and reads absent as {}. -/
  read_meta_none : ∀ {T : Type} (k : String) (m : Member T Json) (t : T),
    L.read (.meta_ k m) none t = .ok (m.set t Json.object)
  read_meta : ∀ {T : Type} (k : String) (m : Member T Json) (o : Json.Members) (t : T),
    L.read (.meta_ k m) (some (.obj o)) t = .ok (m.set t (.obj o))
  read_meta_other : ∀ {T : Type} (k : String) (m : Member T Json) (x : Json) (t : T), x.isObject = false →
    L.read (.meta_ k m) (some x) t = .ok (m.set t Json.object) ∨
      ∃ msg, L.read (.meta_ k m) (some x) t = .error (.codecError msg)
  write_meta_empty : ∀ {T : Type} (k : String) (m : Member T Json) (v : T), m.get v = Json.object →
    L.write (.meta_ k m) v = none
  write_meta : ∀ {T : Type} (k : String) (m : Member T Json) (v : T) (o : Json.Members), m.get v = .obj o → o ≠ ∅ →
    L.write (.meta_ k m) v = some (.obj o)
  /-- `sum_tagged` encodes the arm and assigns its label at the tag; looks up only the tag, then hands the object on. -/
  sum_encode : ∀ {S : Type} (tag : String) (arms : List (Arm S)) (b : Arm S) (s : S) (a : b.carrier) (o : Json.Members),
    arms.find? (fun b' => b'.holds s) = some b → b.alt.proj s = some a → b.codec.encode a = .obj o →
    (L.sumTagged tag arms).encode s = .obj (o.insert tag (.str b.label))
  sum_decode : ∀ {S : Type} (tag : String) (arms : List (Arm S)) (b : Arm S) (l : String) (o : Json.Members),
    o.find? tag = some (.str l) → arms.find? (fun b' => b'.label == l) = some b →
    Relays (b.codec.decode (.obj o)) b.alt.inj ((L.sumTagged tag arms).decode (.obj o))
  sum_decode_other : ∀ {S : Type} (tag : String) (arms : List (Arm S)) (j : Json),
    (∀ b ∈ arms, j.find? tag ≠ some (.str b.label)) →
    ∃ msg, (L.sumTagged tag arms).decode j = .error (.codecError msg)
  /-- `enum_codec` accepts exactly the listed strings. -/
  enum_encode : ∀ {E : Type} [DecidableEq E] (ms : List (E × String)) (e : E) (s : String), (ms.map Prod.fst).Nodup →
    (e, s) ∈ ms → (L.enumCodec ms).encode e = .str s
  enum_decode : ∀ {E : Type} [DecidableEq E] (ms : List (E × String)) (e : E) (s : String), (ms.map Prod.snd).Nodup →
    (e, s) ∈ ms → (L.enumCodec ms).decode (.str s) = .ok e
  enum_decode_inv : ∀ {E : Type} [DecidableEq E] (ms : List (E × String)) (j : Json) (e : E),
    (L.enumCodec ms).decode j = .ok e → ∃ s, j = .str s ∧ (e, s) ∈ ms
  enum_throws : ∀ {E : Type} [DecidableEq E] (ms : List (E × String)) (j : Json) (e : Exn),
    (L.enumCodec ms).decode j = .error e → e.isCodecError = true
  /-- `list_codec` reads arrays only, element by element, in order. -/
  list_encode : ∀ {A : Type} (c : Codec A) (as : List A), (L.listCodec c).encode as = .arr (as.map c.encode)
  list_decode : ∀ {A : Type} (c : Codec A) (xs : List Json),
    Relays (xs.mapM c.decode) id ((L.listCodec c).decode (.arr xs))
  list_decode_other : ∀ {A : Type} (c : Codec A) (j : Json), j.isArray = false →
    ∃ msg, (L.listCodec c).decode j = .error (.codecError msg)
  /-- `newtype_codec` is the codec of the bare value. -/
  newtype_encode : ∀ {Tag A : Type} (c : Codec A) (v : Newtype Tag A), (L.newtypeCodec c).encode v = c.encode v.value
  newtype_decode : ∀ {Tag A : Type} (c : Codec A) (j : Json),
    Relays (c.decode j) (fun a => (⟨a⟩ : Newtype Tag A)) ((L.newtypeCodec c).decode j)
  /-- The codecs of the built-in types. -/
  bool : Primitive L.bool
  int : Primitive L.int
  int64 : Primitive L.int64
  double : Primitive L.double
  string : Primitive L.string
  string_encode : ∀ s, L.string.encode s = .str s
  string_decode_inv : ∀ j s, L.string.decode j = .ok s → j = .str s
  unit : Primitive L.unit
  unit_encode : L.unit.encode () = Json.object
  json_encode : ∀ j, L.json.encode j = j
  json_decode : ∀ j, L.json.decode j = .ok j

/-- The library, and that `defaulted` writes its member whatever its value. -/
def WritesDefaults (L : Jsonrpc) : Prop :=
  ∀ {T A : Type} (k : String) (m : Member T A) (d : A) (c : Codec A) (v : T),
    L.write (.defaulted k m d c) v = some (c.encode (m.get v))

/-- The library, and that a text carries its booleans and integers. -/
def WritesText (L : Jsonrpc) : Prop := (∀ v, (L.bool.encode v).isText = true) ∧ ∀ v, (L.int.encode v).isText = true

end Jsonrpc

/-! ## The codec table -/

class CodecOf (α : Type) where
  get : Jsonrpc → Codec α

/-- A type whose codec is `record<T>(…)`: the value it starts from and its fields. -/
class Record (α : Type) where
  init   : α
  fields : Jsonrpc → List (FieldSpec α)

/-- A type whose codec is `sum_tagged<S>(tag, …)`. -/
class TaggedSum (α : Type) where
  tag  : String
  arms : Jsonrpc → List (Arm α)

/-- A type whose codec is `enum_codec<E>(…)`. -/
class StringEnum (α : Type) where
  mappings : List (α × String)

namespace Jsonrpc

variable (L : Jsonrpc)

def codec (α : Type) [CodecOf α] : Codec α := CodecOf.get L

def toJson {α : Type} [CodecOf α] (v : α) : Json := (L.codec α).encode v

def fromJson (α : Type) [CodecOf α] (j : Json) : Except Exn α := (L.codec α).decode j

def required {T A : Type} [CodecOf A] (k : String) (m : Member T A) : FieldSpec T := .required k m (L.codec A)

def optional {T A : Type} [CodecOf A] (k : String) (m : Member T (Option A)) : FieldSpec T := .optional k m (L.codec A)

def defaulted {T A : Type} [CodecOf A] (k : String) (m : Member T A) (d : A) : FieldSpec T :=
  .defaulted k m d (L.codec A)

def arm {S A : Type} [CodecOf A] (label : String) (alt : Alt S A) : Arm S := ⟨label, alt, L.codec A⟩

end Jsonrpc

/-- `meta("_meta", …)`. -/
def metaField {T : Type} (k : String) (m : Member T Json) : FieldSpec T := .meta_ k m

instance : CodecOf Bool   := ⟨Jsonrpc.bool⟩
instance : CodecOf Int32  := ⟨Jsonrpc.int⟩
instance : CodecOf Int64  := ⟨Jsonrpc.int64⟩
instance : CodecOf Double := ⟨Jsonrpc.double⟩
instance : CodecOf String := ⟨Jsonrpc.string⟩
instance : CodecOf Unit   := ⟨Jsonrpc.unit⟩
instance : CodecOf Json   := ⟨Jsonrpc.json⟩

instance {A : Type} [CodecOf A] : CodecOf (List A) := ⟨fun L => L.listCodec (L.codec A)⟩

instance {Tag A : Type} [CodecOf A] : CodecOf (Newtype Tag A) := ⟨fun L => L.newtypeCodec (L.codec A)⟩

instance {α : Type} [Record α] : CodecOf α := ⟨fun L => L.record Record.init (Record.fields L)⟩

instance {α : Type} [TaggedSum α] : CodecOf α :=
  ⟨fun L => L.sumTagged (TaggedSum.tag α) (TaggedSum.arms L)⟩

instance {α : Type} [DecidableEq α] [StringEnum α] : CodecOf α := ⟨fun L => L.enumCodec StringEnum.mappings⟩

end Acp
