import Acp.Wire.FinMap
import Mathlib.Data.Fintype.Card
/-!
# Json — JSON values and the accessors that throw

`Json` is a JSON value in memory, as nlohmann's `json` holds it: an object is a finite map, so its members have no
order and no key stands twice.  `at_`, `value`, `getString` and the two container reads are nlohmann's accessors, with
their own exceptions: a missing key is an `outOfRange`, a value of another kind a `typeError`.
-/
namespace Wire

/-- A binary64, by its bits.  The codecs only carry it. -/
structure Double where
  bits : UInt64
  deriving DecidableEq, Repr

/-- Neither an infinity nor a NaN. -/
def Double.isFinite (x : Double) : Bool := (x.bits >>> 52) % 2048 != 2047

inductive Json where
  | null
  | bool (b : Bool)
  | int (i : Int)
  | float (x : Double)
  | str (s : String)
  | arr (items : List Json)
  | obj (members : FinMap String Json)

/-- **What a decoder throws**: the codec library's own error, or one of the JSON library's. -/
inductive Exn where
  | codecError (what : String)
  | outOfRange (key : String)
  | typeError (wanted : String)
  deriving DecidableEq, Repr

def Exn.isCodecError : Exn → Bool
  | .codecError _ => true
  | _             => false

namespace Json

abbrev Members := FinMap String Json

def isBoolean : Json → Bool
  | .bool _ => true
  | _       => false

def isString : Json → Bool
  | .str _ => true
  | _      => false

def isArray : Json → Bool
  | .arr _ => true
  | _      => false

def isObject : Json → Bool
  | .obj _ => true
  | _      => false

/-- `empty()`: null and the containers without an element. -/
def isEmpty : Json → Bool
  | .null    => true
  | .arr xs  => xs.isEmpty
  | .obj o   => o.isEmpty
  | _        => false

/-- The member under a key, `none` on anything but an object: what `contains` tests and `operator[]` then reads. -/
def find? : Json → String → Option Json
  | .obj o, k => o.find? k
  | _,      _ => none

def contains (j : Json) (k : String) : Bool := (j.find? k).isSome

/-- `j[k] = v` in an encoder: a null becomes an object first.  On any other kind `operator[]` throws; the encoders
only assign to objects. -/
def set : Json → String → Json → Json
  | .obj o, k, v => .obj (o.insert k v)
  | .null,  k, v => .obj ((∅ : Members).insert k v)
  | j,      _, _ => j

/-- `erase(k)`, on an object. -/
def erase : Json → String → Json
  | .obj o, k => .obj (o.erase k)
  | j,      _ => j

def object : Json := .obj ∅

/-- `at(key)`. -/
def at_ : Json → String → Except Exn Json
  | .obj o, k => match o.find? k with
    | some v => .ok v
    | none   => .error (.outOfRange k)
  | _, _ => .error (.typeError "object")

/-- `get<std::string>()`. -/
def getString : Json → Except Exn String
  | .str s => .ok s
  | _      => .error (.typeError "string")

/-- `value(key, default)` with a string default: the default only when the key is absent. -/
def value : Json → String → String → Except Exn String
  | .obj o, k, dflt => match o.find? k with
    | some v => v.getString
    | none   => .ok dflt
  | _, _, _ => .error (.typeError "object")

/-- `get<std::vector<std::string>>()`. -/
def getStrings : Json → Except Exn (List String)
  | .arr xs => xs.mapM getString
  | _       => .error (.typeError "array")

def stringOr (dflt : String) : Json → String
  | .str s => s
  | _      => dflt

/-- `get<std::map<std::string, std::string>>()`. -/
def getStringMap : Json → Except Exn (FinMap String String)
  | .obj o => if ∀ k, (o.val k).isString = true then .ok (o.map (stringOr "")) else .error (.typeError "string")
  | _      => .error (.typeError "object")

/-- The member under a key, if it is there and a string: `contains(k) && j[k].is_string()`. -/
def string? (j : Json) (k : String) : Option String :=
  match j.find? k with
  | some (.str s) => some s
  | _             => none

/-- The member under a key, if it is there and an object, and the empty object otherwise. -/
def objectOr (j : Json) (k : String) : Json :=
  match j.find? k with
  | some (.obj o) => .obj o
  | _             => object

@[simp] theorem find?_obj (o : Members) (k : String) : (Json.obj o).find? k = o.find? k := rfl

@[simp] theorem set_obj (o : Members) (k : String) (v : Json) : (Json.obj o).set k v = .obj (o.insert k v) := rfl

@[simp] theorem erase_obj (o : Members) (k : String) : (Json.obj o).erase k = .obj (o.erase k) := rfl

@[simp] theorem isObject_obj (o : Members) : (Json.obj o).isObject = true := rfl

theorem isObject_iff (j : Json) : j.isObject = true ↔ ∃ o, j = .obj o := by
  cases j <;> simp [isObject]

theorem isArray_iff (j : Json) : j.isArray = true ↔ ∃ xs, j = .arr xs := by
  cases j <;> simp [isArray]

theorem find?_set {j : Json} (h : j.isObject = true) (k k' : String) (v : Json) :
    (j.set k v).find? k' = if k' = k then some v else j.find? k' := by
  obtain ⟨o, rfl⟩ := (isObject_iff j).1 h
  exact FinMap.find?_insert o k k' v

theorem isObject_set {j : Json} (h : j.isObject = true) (k : String) (v : Json) : (j.set k v).isObject = true := by
  obtain ⟨o, rfl⟩ := (isObject_iff j).1 h
  rfl

@[simp] theorem find?_object (k : String) : object.find? k = none := FinMap.find?_empty k

@[simp] theorem isObject_object : object.isObject = true := rfl

theorem isObject_objectOr (j : Json) (k : String) : (j.objectOr k).isObject = true := by
  unfold objectOr
  split <;> rfl

section Accessors

variable {o : Members} {k : String}

theorem at_of_some {v : Json} (h : o.find? k = some v) : (obj o).at_ k = .ok v := by
  show (match o.find? k with | some v => Except.ok v | none => Except.error (Exn.outOfRange k)) = _
  rw [h]

theorem at_of_none (h : o.find? k = none) : (obj o).at_ k = .error (.outOfRange k) := by
  show (match o.find? k with | some v => Except.ok v | none => Except.error (Exn.outOfRange k)) = _
  rw [h]

theorem at_inv {v : Json} (h : (obj o).at_ k = .ok v) : o.find? k = some v := by
  cases hk : o.find? k with
  | none => rw [at_of_none hk] at h; cases h
  | some x => rw [at_of_some hk] at h; cases h; rfl

theorem value_of_some {v : Json} (h : o.find? k = some v) (d : String) : (obj o).value k d = v.getString := by
  show (match o.find? k with | some v => v.getString | none => Except.ok d) = _
  rw [h]

theorem value_of_none (h : o.find? k = none) (d : String) : (obj o).value k d = .ok d := by
  show (match o.find? k with | some v => v.getString | none => Except.ok d) = _
  rw [h]

variable {o' : Members} (h : o.find? k = o'.find? k)
include h

/-- Every accessor sees the one member it asks for. -/
theorem at_congr : (obj o).at_ k = (obj o').at_ k := by
  unfold at_
  simp only [h]

theorem value_congr (d : String) : (obj o).value k d = (obj o').value k d := by
  unfold value
  simp only [h]

theorem string?_congr : (obj o).string? k = (obj o').string? k := by
  unfold string?
  simp only [find?_obj, h]

theorem objectOr_congr : (obj o).objectOr k = (obj o').objectOr k := by
  unfold objectOr
  simp only [find?_obj, h]

end Accessors

theorem isEmpty_obj_iff (o : Members) : (Json.obj o).isEmpty = true ↔ o = ∅ := FinMap.isEmpty_iff o

theorem getString_ok {j : Json} {s : String} (h : j.getString = .ok s) : j = .str s := by
  cases j <;> simp_all [getString]

theorem mapM_getString_map_str (ss : List String) : (ss.map Json.str).mapM getString = .ok ss := by
  induction ss with
  | nil => rfl
  | cons s ss ih => rw [List.map_cons, List.mapM_cons, ih]; rfl

theorem getStringMap_map_str (m : FinMap String String) : (Json.obj (m.map Json.str)).getStringMap = .ok m := by
  have hall : ∀ k, ((m.map Json.str).val k).isString = true := fun _ => rfl
  exact if_pos hall

/-! ## What a text carries -/

mutual

/-- `parse(dump(j))` is `j`: `dump` writes null for a NaN or an infinity, and `parse` reads an integer of more than 64
bits as a floating-point number. -/
def isText : Json → Bool
  | .null         => true
  | .bool _       => true
  | .int i        => decide (-9223372036854775808 ≤ i ∧ i < 18446744073709551616)
  | .float x      => x.isFinite
  | .str _        => true
  | .arr xs       => areText xs
  | .obj ⟨_, val⟩ => decide (∀ k, isText (val k) = true)

def areText : List Json → Bool
  | []      => true
  | x :: xs => isText x && areText xs

end

theorem isText_obj (o : Members) : (obj o).isText = true ↔ ∀ k x, o.find? k = some x → x.isText = true := by
  obtain ⟨keys, val⟩ := o
  rw [isText, decide_eq_true_iff]
  constructor
  · intro h k x hx
    obtain ⟨hk, he⟩ := Option.dite_none_right_eq_some.1 hx
    cases he
    exact h ⟨k, hk⟩
  · exact fun h k => h k.1 _ (FinMap.find?_val ⟨keys, val⟩ k)

theorem isText_insert {o : Members} {k : String} {x : Json} (hx : x.isText = true) (ho : (obj o).isText = true) :
    (obj (o.insert k x)).isText = true := by
  rw [isText_obj] at ho ⊢
  intro k' y hy
  rw [FinMap.find?_insert] at hy
  split at hy
  · cases hy
    exact hx
  · exact ho k' y hy

theorem isText_object : object.isText = true :=
  (isText_obj ∅).2 (fun k x hx => by cases (FinMap.find?_empty k).symm.trans hx)

end Json

/-! ## A tag beside a payload -/

/-- **`whole` is `payload` and its tag**: an object without the key, and the one member put in. -/
def TagAdded (payload : Json) (tag label : String) (whole : Json) : Prop :=
  ∃ o, payload = .obj o ∧ o.find? tag = none ∧ whole = .obj (o.insert tag (.str label))

namespace TagAdded

variable {payload whole : Json} {tag label : String} (h : TagAdded payload tag label whole)
include h

theorem erase : whole.erase tag = payload := by
  obtain ⟨o, rfl, ht, rfl⟩ := h
  rw [Json.erase_obj, FinMap.erase_insert ht]

/-- Every member of the payload is a member of the whole, and the other way round but for the tag. -/
theorem find? (k : String) : whole.find? k = if k = tag then some (.str label) else payload.find? k := by
  obtain ⟨o, rfl, -, rfl⟩ := h
  exact FinMap.find?_insert o tag k _

/-- A label that is put over another leaves the payload with the new one. -/
theorem relabel (label' : String) : TagAdded payload tag label' (whole.set tag (.str label')) := by
  obtain ⟨o, rfl, ht, rfl⟩ := h
  exact ⟨o, rfl, ht, by rw [Json.set_obj, FinMap.insert_insert]⟩

theorem ne_null : whole ≠ .null := by
  obtain ⟨o, rfl, -, rfl⟩ := h
  intro he
  cases he

end TagAdded

end Wire
