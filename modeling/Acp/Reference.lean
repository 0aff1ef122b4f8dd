import Acp.Jsonrpc
/-!
# Reference — a library that keeps the laws

`reference` is one codec algebra that does what `Jsonrpc.Lawful` asks for (`reference_lawful`) and writes its
defaulted members always: the laws can be met, and the schema's codecs can be run.
-/
namespace Acp

open Wire

namespace Reference

def read {T : Type} : FieldSpec T → Option Json → T → Except Exn T
  | .required k _ _,    none,          _ => .error (.codecError ("missing field " ++ k))
  | .required _ m c,    some x,        t => (c.decode x).map (m.set t)
  | .optional _ m _,    none,          t => .ok (m.set t none)
  | .optional _ m _,    some .null,    t => .ok (m.set t none)
  | .optional _ m c,    some x,        t => (c.decode x).map (fun a => m.set t (some a))
  | .defaulted _ m d _, none,          t => .ok (m.set t d)
  | .defaulted _ m _ c, some x,        t => (c.decode x).map (m.set t)
  | .meta_ _ m,         none,          t => .ok (m.set t Json.object)
  | .meta_ _ m,         some (.obj o), t => .ok (m.set t (.obj o))
  | .meta_ _ m,         some _,        t => .ok (m.set t Json.object)

def write {T : Type} : FieldSpec T → T → Option Json
  | .required _ m c,    v => some (c.encode (m.get v))
  | .optional _ m c,    v => (m.get v).map c.encode
  | .defaulted _ m _ c, v => some (c.encode (m.get v))
  | .meta_ _ m,         v => if (m.get v).isEmpty then none else some (m.get v)

def writeAll {T : Type} : List (FieldSpec T) → T → Json.Members → Json.Members
  | [],      _, o => o
  | f :: fs, v, o => writeAll fs v (match write f v with | some x => o.insert f.key x | none => o)

def record {T : Type} (init : T) (fs : List (FieldSpec T)) : Codec T where
  encode v := .obj (writeAll fs v ∅)
  decode
    | .obj o => fs.foldlM (fun t f => read f (o.find? f.key) t) init
    | _      => .error (.codecError "expected object")

def sumTagged {S : Type} (tag : String) (arms : List (Arm S)) : Codec S where
  encode s := match arms.find? (fun b => b.holds s) with
    | none   => .null
    | some b => match b.alt.proj s with
      | none   => .null
      | some a => (b.codec.encode a).set tag (.str b.label)
  decode j := match j.find? tag with
    | some (.str l) => match arms.find? (fun b => b.label == l) with
      | some b => (b.codec.decode j).map b.alt.inj
      | none   => .error (.codecError ("unknown " ++ tag ++ ": " ++ l))
    | _ => .error (.codecError ("missing tag " ++ tag))

def enumCodec {E : Type} [DecidableEq E] (ms : List (E × String)) : Codec E where
  encode e := match ms.find? (fun p => p.1 == e) with
    | some p => .str p.2
    | none   => .null
  decode
    | .str s => match ms.find? (fun p => p.2 == s) with
      | some p => .ok p.1
      | none   => .error (.codecError ("unknown enum value " ++ s))
    | _ => .error (.codecError "expected string")

def listCodec {A : Type} (c : Codec A) : Codec (List A) where
  encode as := .arr (as.map c.encode)
  decode
    | .arr xs => xs.mapM c.decode
    | _       => .error (.codecError "expected array")

def int : Codec Int32 where
  encode i := .int i.toInt
  decode
    | .int n => if (Int32.ofInt n).toInt = n then .ok (Int32.ofInt n) else .error (.codecError "int out of range")
    | _      => .error (.codecError "expected integer")

def int64 : Codec Int64 where
  encode i := .int i.toInt
  decode
    | .int n => if (Int64.ofInt n).toInt = n then .ok (Int64.ofInt n) else .error (.codecError "int out of range")
    | _      => .error (.codecError "expected integer")

def bool : Codec Bool where
  encode b := .bool b
  decode
    | .bool b => .ok b
    | _       => .error (.codecError "expected boolean")

def double : Codec Double where
  encode x := .float x
  decode
    | .float x => .ok x
    | _        => .error (.codecError "expected number")

def string : Codec String where
  encode s := .str s
  decode
    | .str s => .ok s
    | _      => .error (.codecError "expected string")

end Reference

/-- **A codec algebra that keeps the laws.** -/
def reference : Jsonrpc where
  read         := Reference.read
  write        := Reference.write
  record       := Reference.record
  sumTagged    := Reference.sumTagged
  enumCodec    := Reference.enumCodec
  listCodec    := Reference.listCodec
  newtypeCodec := fun c => ⟨fun v => c.encode v.value, fun j => (c.decode j).map (fun a => ⟨a⟩)⟩
  bool         := Reference.bool
  int          := Reference.int
  int64        := Reference.int64
  double       := Reference.double
  string       := Reference.string
  unit         := ⟨fun _ => Json.object, fun _ => .ok ()⟩
  json         := ⟨fun j => j, fun j => .ok j⟩

theorem relays_map {α β : Type} (r : Except Exn α) (f : α → β) : Relays r f (r.map f) := by
  cases r with
  | ok a => rfl
  | error e => exact ⟨e, rfl, .inl rfl⟩

theorem reference_writeAll {T : Type} : ∀ (fs : List (FieldSpec T)) (v : T) (o : Json.Members),
    Reference.writeAll fs v o = reference.writeAll fs v o
  | [], _, _ => rfl
  | _ :: fs, v, _ => reference_writeAll fs v _

theorem find?_of_mem_nodup_fst {E : Type} [DecidableEq E] : ∀ (ms : List (E × String)) (e : E) (s : String),
    (ms.map Prod.fst).Nodup → (e, s) ∈ ms → ms.find? (fun p => p.1 == e) = some (e, s)
  | [], _, _, _, h => by cases h
  | p :: ms, e, s, hn, h => by
    rw [List.map_cons, List.nodup_cons] at hn
    rcases List.mem_cons.1 h with rfl | h
    · simp
    · have hne : p.1 ≠ e := fun he => hn.1 (List.mem_map.2 ⟨(e, s), h, he.symm⟩)
      rw [List.find?_cons_of_neg (by simpa using hne)]
      exact find?_of_mem_nodup_fst ms e s hn.2 h

theorem find?_of_mem_nodup_snd {E : Type} : ∀ (ms : List (E × String)) (e : E) (s : String),
    (ms.map Prod.snd).Nodup → (e, s) ∈ ms → ms.find? (fun p => p.2 == s) = some (e, s)
  | [], _, _, _, h => by cases h
  | p :: ms, e, s, hn, h => by
    rw [List.map_cons, List.nodup_cons] at hn
    rcases List.mem_cons.1 h with rfl | h
    · simp
    · have hne : p.2 ≠ s := fun he => hn.1 (List.mem_map.2 ⟨(e, s), h, he.symm⟩)
      rw [List.find?_cons_of_neg (by simpa using hne)]
      exact find?_of_mem_nodup_snd ms e s hn.2 h

/-- A decoder that takes what it encodes and otherwise throws a `codecError` is a primitive. -/
theorem reference_primitive {A : Type} (c : Codec A) (h1 : ∀ a, c.decode (c.encode a) = .ok a)
    (h2 : ∀ a, c.encode a ≠ .null) (h3 : ∀ j, (∃ a, c.decode j = .ok a) ∨ ∃ s, c.decode j = .error (.codecError s)) :
    Jsonrpc.Primitive c where
  roundTrip := h1
  ne_null := h2
  throws j e he := by
    rcases h3 j with ⟨a, ha⟩ | ⟨s, hs⟩
    · rw [ha] at he; cases he
    · rw [hs] at he; cases he; rfl

theorem reference_string : Jsonrpc.Primitive reference.string :=
  reference_primitive _ (fun _ => rfl) (fun _ h => by cases h) (fun j => by
    cases j with
    | str s => exact .inl ⟨s, rfl⟩
    | _ => exact .inr ⟨_, rfl⟩)

theorem reference_int : Jsonrpc.Primitive reference.int :=
  reference_primitive _
    (fun i => by
      show (if (Int32.ofInt i.toInt).toInt = i.toInt then _ else _) = _
      rw [Int32.ofInt_toInt, if_pos rfl])
    (fun _ h => by cases h) (fun j => by
      cases j with
      | int n =>
        by_cases h : (Int32.ofInt n).toInt = n
        · exact .inl ⟨Int32.ofInt n, if_pos h⟩
        · exact .inr ⟨_, if_neg h⟩
      | _ => exact .inr ⟨_, rfl⟩)

theorem reference_int64 : Jsonrpc.Primitive reference.int64 :=
  reference_primitive _
    (fun i => by
      show (if (Int64.ofInt i.toInt).toInt = i.toInt then _ else _) = _
      rw [Int64.ofInt_toInt, if_pos rfl])
    (fun _ h => by cases h) (fun j => by
      cases j with
      | int n =>
        by_cases h : (Int64.ofInt n).toInt = n
        · exact .inl ⟨Int64.ofInt n, if_pos h⟩
        · exact .inr ⟨_, if_neg h⟩
      | _ => exact .inr ⟨_, rfl⟩)

theorem reference_bool : Jsonrpc.Primitive reference.bool :=
  reference_primitive _ (fun _ => rfl) (fun _ h => by cases h) (fun j => by
    cases j with
    | bool b => exact .inl ⟨b, rfl⟩
    | _ => exact .inr ⟨_, rfl⟩)

theorem reference_double : Jsonrpc.Primitive reference.double :=
  reference_primitive _ (fun _ => rfl) (fun _ h => by cases h) (fun j => by
    cases j with
    | float x => exact .inl ⟨x, rfl⟩
    | _ => exact .inr ⟨_, rfl⟩)

theorem reference_enum_decode {E : Type} [DecidableEq E] (ms : List (E × String)) (j : Json) :
    (∃ e s, (reference.enumCodec ms).decode j = .ok e ∧ j = .str s ∧ (e, s) ∈ ms) ∨
      ∃ msg, (reference.enumCodec ms).decode j = .error (.codecError msg) := by
  cases j with
  | str s =>
    cases h : ms.find? (fun p => p.2 == s) with
    | none => exact .inr ⟨"unknown enum value " ++ s, by simp only [reference, Reference.enumCodec, h]⟩
    | some p =>
      have hs : p.2 = s := by simpa using List.find?_some h
      refine .inl ⟨p.1, s, by simp only [reference, Reference.enumCodec, h], rfl, ?_⟩
      rw [← hs]
      exact List.mem_of_find?_eq_some h
  | _ => exact .inr ⟨_, rfl⟩

theorem reference_sum_decode_other {S : Type} (tag : String) (arms : List (Arm S)) (j : Json)
    (h : ∀ b ∈ arms, j.find? tag ≠ some (.str b.label)) :
    ∃ msg, (reference.sumTagged tag arms).decode j = .error (.codecError msg) := by
  simp only [reference, Reference.sumTagged]
  split
  · rename_i l hl
    split
    · rename_i b hb
      have hbl : b.label = l := by simpa using List.find?_some hb
      exact absurd (hbl ▸ hl) (h b (List.mem_of_find?_eq_some hb))
    · exact ⟨_, rfl⟩
  · exact ⟨_, rfl⟩

theorem reference_lawful : reference.Lawful where
  record_encode init fs v := by
    show Json.obj (Reference.writeAll fs v ∅) = _
    rw [reference_writeAll]
  record_decode _ _ _ := rfl
  record_decode_other init fs j hj := by
    cases j with
    | obj o => cases hj
    | _ => exact ⟨_, rfl⟩
  read_required_none _ _ _ _ := ⟨_, rfl⟩
  read_required _ m c x t := relays_map (c.decode x) (m.set t)
  write_required _ _ _ _ := rfl
  read_optional_none _ _ _ _ := rfl
  read_optional_null _ _ _ _ := rfl
  read_optional _ m c x t hx := by
    cases x with
    | null => exact absurd rfl hx
    | _ => exact relays_map _ _
  write_optional _ _ _ _ := rfl
  read_defaulted_none _ _ _ _ _ := rfl
  read_defaulted_null _ m _ c t := .inr (relays_map (c.decode .null) (m.set t))
  read_defaulted _ m _ c x t _ := relays_map (c.decode x) (m.set t)
  write_defaulted _ _ _ _ _ := .inl rfl
  write_defaulted_congr _ _ _ c _ _ h := congrArg (fun a => some (c.encode a)) h
  read_meta_none _ _ _ := rfl
  read_meta _ _ _ _ := rfl
  read_meta_other _ _ x _ hx := by
    cases x with
    | obj o => cases hx
    | _ => exact .inl rfl
  write_meta_empty _ m v h := by
    show (if (m.get v).isEmpty = true then _ else _) = _
    rw [h]; rfl
  write_meta _ m v o h ho := by
    show (if (m.get v).isEmpty = true then _ else _) = _
    rw [h, if_neg (fun he => ho ((Json.isEmpty_obj_iff o).1 he))]
  sum_encode tag arms b s a o hb ha ho := by
    simp only [reference, Reference.sumTagged, hb, ha, ho, Json.set_obj]
  sum_decode tag arms b l o hl hb := by
    simp only [reference, Reference.sumTagged, Json.find?_obj, hl, hb]
    exact relays_map _ _
  sum_decode_other := reference_sum_decode_other
  enum_encode ms e s hn h := by
    simp only [reference, Reference.enumCodec, find?_of_mem_nodup_fst ms e s hn h]
  enum_decode ms e s hn h := by
    simp only [reference, Reference.enumCodec, find?_of_mem_nodup_snd ms e s hn h]
  enum_decode_inv ms j e h := by
    rcases reference_enum_decode ms j with ⟨e', s, he, hj, hm⟩ | ⟨msg, hm⟩
    · rw [he] at h; cases h
      exact ⟨s, hj, hm⟩
    · rw [hm] at h; cases h
  enum_throws ms j e h := by
    rcases reference_enum_decode ms j with ⟨e', s, he, -, -⟩ | ⟨msg, hm⟩
    · rw [he] at h; cases h
    · rw [hm] at h; cases h; rfl
  list_encode _ _ := rfl
  list_decode c xs := by
    show Relays (xs.mapM c.decode) id (xs.mapM c.decode)
    cases xs.mapM c.decode with
    | ok as => rfl
    | error e => exact ⟨e, rfl, .inl rfl⟩
  list_decode_other _ j hj := by
    cases j with
    | arr xs => cases hj
    | _ => exact ⟨_, rfl⟩
  newtype_encode _ _ := rfl
  newtype_decode c j := relays_map (c.decode j) _
  bool := reference_bool
  int := reference_int
  int64 := reference_int64
  double := reference_double
  string := reference_string
  string_encode _ := rfl
  string_decode_inv j s h := by
    cases j with
    | str s' => cases h; rfl
    | _ => cases h
  unit := reference_primitive _ (fun _ => rfl) (fun _ h => by cases h) (fun _ => .inl ⟨(), rfl⟩)
  unit_encode := rfl
  json_encode _ := rfl
  json_decode _ := rfl

theorem reference_writesDefaults : reference.WritesDefaults := fun _ _ _ _ _ => rfl

theorem reference_writesText : reference.WritesText := by
  refine ⟨fun _ => rfl, fun v => ?_⟩
  show decide (-9223372036854775808 ≤ v.toInt ∧ v.toInt < 18446744073709551616) = true
  have hlt := v.toInt_lt
  have hle := v.le_toInt
  exact decide_eq_true (by omega)

end Acp
