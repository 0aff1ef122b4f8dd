import Acp.CapsOk
import Acp.Reference
import Acp.Wire.Path
/-!
# Evidence — what a client's capabilities are read from

Each switch of the client's capabilities is on exactly when its own member says so, whatever `session`, `auth` and
`elicitation` hold: an odd value there neither throws nor switches anything on (`clientCapabilities_evidence`).
-/
namespace Acp

open Wire

/-! ## Where a switch is read from -/

/-- There is an object at the end of `p`. -/
def ObjectAt (p : JsonPath) (j : Json) : Prop := ∃ o, j.get? p = some (.obj o)

/-- **Each switch of `v` is on exactly on its own evidence in `j`.** -/
structure Evidence (j : Json) (v : ClientCapabilities) : Prop where
  compaction    : v.session.compaction = true ↔ ObjectAt [.key "session", .key "compaction"] j
  notices       : v.session.notices = true ↔ ObjectAt [.key "session", .key "notices"] j
  booleanConfig : v.session.booleanConfig = true ↔ ObjectAt [.key "session", .key "configOptions", .key "boolean"] j
  authTerminal  : v.authTerminal = true ↔ j.get? [.key "auth", .key "terminal"] = some (.bool true)
  elicitForm    : v.elicitForm = true ↔ ObjectAt [.key "elicitation", .key "form"] j
  elicitUrl     : v.elicitUrl = true ↔ ObjectAt [.key "elicitation", .key "url"] j

/-- `v` and `w` are alike in all that is not read from the member `k`. -/
structure AlikeOff (k : String) (v w : ClientCapabilities) : Prop where
  fs          : v.fs = w.fs
  terminal    : v.terminal = w.terminal
  session     : k ≠ "session" → v.session = w.session
  auth        : k ≠ "auth" → v.authTerminal = w.authTerminal
  elicitation : k ≠ "elicitation" → v.elicitForm = w.elicitForm ∧ v.elicitUrl = w.elicitUrl
  meta_       : v.meta_ = w.meta_

/-- `fs`, `terminal` and `_meta` are absent or well typed. -/
structure BaseTyped (L : Jsonrpc) (o : Json.Members) : Prop where
  fs       : ∀ y, o.find? "fs" = some y → ∃ a, L.fromJson FsCapabilities y = .ok a
  terminal : ∀ y, o.find? "terminal" = some y → ∃ b, L.fromJson Bool y = .ok b
  meta_    : ∀ y, o.find? "_meta" = some y → y.isObject = true

theorem present_iff (j : Json) (k : String) : present j k = true ↔ ∃ o, j.find? k = some (.obj o) := by
  unfold present
  cases j.find? k with
  | none => simp
  | some x => simpa using Json.isObject_iff x

theorem objectOr_of_not_present {j : Json} {k : String} (h : present j k = false) : j.objectOr k = Json.object := by
  unfold present at h
  unfold Json.objectOr
  cases hx : j.find? k with
  | none => rfl
  | some x =>
    rw [hx] at h
    cases x <;> first | rfl | cases h

/-- **Only an object has members**, so an absent one can be taken for one without any. -/
theorem find?_objectOr (j : Json) (k k' : String) : (j.objectOr k).find? k' = j.get? [.key k, .key k'] := by
  have hget : j.get? [.key k, .key k'] = (j.find? k).bind (·.find? k') := by
    show (j.find? k).bind (fun x => (x.find? k').bind some) = _
    exact congrArg _ (funext fun x => Option.bind_fun_some (x.find? k'))
  rw [hget]
  unfold Json.objectOr
  cases j.find? k with
  | none => exact Json.find?_object k'
  | some x => cases x <;> rfl

theorem present_objectOr_iff (j : Json) (k k' : String) :
    present (j.objectOr k) k' = true ↔ ObjectAt [.key k, .key k'] j := by
  rw [present_iff, find?_objectOr]; rfl

theorem isTrue_iff (j : Json) (k : String) : isTrue j k = true ↔ j.find? k = some (.bool true) := by
  unfold isTrue
  cases j.find? k with
  | none => simp
  | some x => cases x <;> simp

theorem objectAt_cons (j : Json) (k k' : String) (p : JsonPath) :
    ObjectAt (.key k :: .key k' :: p) j ↔ ObjectAt (.key k' :: p) ((j.find? k).getD .null) := by
  have hget : j.get? (.key k :: .key k' :: p) = (j.find? k).bind (Json.get? (.key k' :: p)) := rfl
  unfold ObjectAt
  rw [hget]
  cases j.find? k with
  | none => constructor <;> rintro ⟨_, h⟩ <;> cases h
  | some x => rfl

/-! ## What is decoded -/

/-- The client session read from its member, if there is one. -/
def clientSession (x : Option Json) : ClientSessionCapabilities :=
  let j := x.getD .null
  { compaction := present j "compaction"
    notices := present j "notices"
    booleanConfig := present j "configOptions" && present (j.objectOr "configOptions") "boolean"
    meta_ := j.objectOr "_meta" }

theorem clientSession_decode (L : Jsonrpc) (j : Json) :
    (L.codec ClientSessionCapabilities).decode j = .ok (clientSession (some j)) := rfl

section Decode

variable {L : Jsonrpc} (hL : L.Lawful)
include hL

/-- A defaulted field takes whatever its codec does, and nothing at all. -/
theorem read_defaulted_accepts {T A : Type} {k : String} {m : Member T A} {d : A} {c : Codec A} {x : Option Json}
    (hx : ∀ y, x = some y → ∃ a, c.decode y = .ok a) (t : T) :
    ∃ a, L.read (.defaulted k m d c) x t = .ok (m.set t a) := by
  cases x with
  | none => exact ⟨d, hL.read_defaulted_none k m d c t⟩
  | some y =>
    obtain ⟨a, ha⟩ := hx y rfl
    by_cases hy : y = .null
    · subst hy
      rcases hL.read_defaulted_null k m d c t with h | h
      · exact ⟨d, h⟩
      · exact ⟨a, h.ok ha⟩
    · exact ⟨a, (hL.read_defaulted k m d c y t hy).ok ha⟩

/-- **The session member is read whatever it is**, and null as nothing. -/
theorem read_session (x : Option Json) (t : ClientCapabilities) :
    L.read (L.defaulted "session" ⟨ClientCapabilities.session, fun v a => { v with session := a }⟩ {}) x t =
      .ok { t with session := clientSession x } := by
  obtain ⟨a, ha⟩ := read_defaulted_accepts hL (k := "session") (d := {})
    (m := ⟨ClientCapabilities.session, fun v a => { v with session := a }⟩)
    (c := L.codec ClientSessionCapabilities) (x := x) (fun y _ => ⟨_, clientSession_decode L y⟩) t
  rcases hL.read_defaulted_inv ha with ⟨hx, h⟩ | ⟨y, a', rfl, hy, h⟩
  · rcases hx with rfl | rfl <;> exact ha.trans (congrArg Except.ok h)
  · cases hy
    exact ha.trans (congrArg Except.ok h)

/-- **Of the record only the session depends on anything but `fs`, `terminal` and `_meta`.** -/
theorem clientBase_decode {o : Json.Members} (ho : BaseTyped L o) : ∃ fs terminal m, ∀ o' : Json.Members,
    (∀ k ∈ ["fs", "terminal", "_meta"], o'.find? k = o.find? k) →
    (ClientCapabilities.base L).decode (.obj o') =
      .ok { fs := fs, terminal := terminal, session := clientSession (o'.find? "session"), meta_ := .obj m } := by
  obtain ⟨fs, hfs⟩ := read_defaulted_accepts hL (k := "fs") (d := {})
    (m := ⟨ClientCapabilities.fs, fun v a => { v with fs := a }⟩) (c := L.codec FsCapabilities) ho.fs {}
  obtain ⟨terminal, hterminal⟩ := read_defaulted_accepts hL (k := "terminal") (d := false)
    (m := ⟨ClientCapabilities.terminal, fun v a => { v with terminal := a }⟩) (c := L.codec Bool) ho.terminal
    { fs := fs }
  obtain ⟨m, hm⟩ : ∃ m, ∀ t : ClientCapabilities,
      L.read (.meta_ "_meta" ⟨ClientCapabilities.meta_, fun v a => { v with meta_ := a }⟩) (o.find? "_meta") t =
        .ok { t with meta_ := .obj m } := by
    cases hx : o.find? "_meta" with
    | none => exact ⟨∅, fun t => hL.read_meta_none _ _ t⟩
    | some y =>
      obtain ⟨m, rfl⟩ := (Json.isObject_iff y).1 (ho.meta_ y hx)
      exact ⟨m, fun t => hL.read_meta _ _ m t⟩
  refine ⟨fs, terminal, m, fun o' h => ?_⟩
  show (L.record _ _).decode _ = _
  rw [hL.record_decode]
  rw [← h "fs" (by simp)] at hfs
  rw [← h "terminal" (by simp)] at hterminal
  rw [← h "_meta" (by simp)] at hm
  exact (readAll_cons hfs).trans <| (readAll_cons hterminal).trans <|
    (readAll_cons (read_session hL _ _)).trans <| (readAll_cons (hm _)).trans rfl

end Decode

/-- Laid over a record without a switch of its own, the overlaid members are all the overlaid switches. -/
theorem clientOverlay_eq (j : Json) (fs : FsCapabilities) (terminal : Bool) (session : ClientSessionCapabilities)
    (m : Json) : clientOverlay j { fs := fs, terminal := terminal, session := session, meta_ := m } =
      { fs := fs, terminal := terminal, session := session, meta_ := m,
        authTerminal := isTrue (j.objectOr "auth") "terminal",
        elicitForm := present (j.objectOr "elicitation") "form",
        elicitUrl := present (j.objectOr "elicitation") "url" } := by
  unfold clientOverlay
  cases ha : present j "auth" <;> cases he : present j "elicitation"
  · rw [objectOr_of_not_present ha, objectOr_of_not_present he]; rfl
  · rw [objectOr_of_not_present ha]; rfl
  · rw [objectOr_of_not_present he]; rfl
  · rfl

theorem clientSession_evidence (o : Json.Members) :
    ((clientSession (o.find? "session")).compaction = true ↔ ObjectAt [.key "session", .key "compaction"] (.obj o)) ∧
    ((clientSession (o.find? "session")).notices = true ↔ ObjectAt [.key "session", .key "notices"] (.obj o)) ∧
    ((clientSession (o.find? "session")).booleanConfig = true ↔
      ObjectAt [.key "session", .key "configOptions", .key "boolean"] (.obj o)) := by
  have hone : ∀ (j : Json) k, present j k = true ↔ ObjectAt [.key k] j := fun j k => by
    rw [present_iff]
    show _ ↔ ∃ o, (j.find? k).bind some = some (.obj o)
    rw [Option.bind_fun_some]
  refine ⟨?_, ?_, ?_⟩
  · rw [objectAt_cons, ← hone]; rfl
  · rw [objectAt_cons, ← hone]; rfl
  · rw [objectAt_cons, ← present_objectOr_iff]
    show (present ((o.find? "session").getD .null) "configOptions" && _) = true ↔ _
    rw [Json.find?_obj]
    cases hp : present ((o.find? "session").getD .null) "configOptions" with
    | true => rfl
    | false => rw [objectOr_of_not_present hp]; rfl

section Main

variable {L : Jsonrpc} (hL : L.Lawful)
include hL

/-- **The decoded capabilities, member by member.** -/
theorem clientCapabilities_decode_typed {o : Json.Members} (ho : BaseTyped L o) : ∃ fs terminal m,
    ∀ o' : Json.Members, (∀ k ∈ ["fs", "terminal", "_meta"], o'.find? k = o.find? k) →
    L.fromJson ClientCapabilities (.obj o') = .ok
      { fs := fs, terminal := terminal, session := clientSession (o'.find? "session"), meta_ := .obj m,
        authTerminal := isTrue ((Json.obj o').objectOr "auth") "terminal",
        elicitForm := present ((Json.obj o').objectOr "elicitation") "form",
        elicitUrl := present ((Json.obj o').objectOr "elicitation") "url" } := by
  obtain ⟨fs, terminal, m, h⟩ := clientBase_decode hL ho
  refine ⟨fs, terminal, m, fun o' ho' => ?_⟩
  have hd : L.fromJson ClientCapabilities (.obj o') = clientOverlay (.obj o') <$> (ClientCapabilities.base L).decode
      (.obj o') := clientCapabilities_decode _
  rw [hd, h o' ho', ← clientOverlay_eq]
  rfl

end Main

/-- **A client capability is on exactly on its own evidence**: whatever the other members hold, the object is accepted,
each switch is read from its own member, and a change of one member moves no switch but that member's. -/
theorem clientCapabilities_evidence (L : Jsonrpc) (hL : L.Lawful) (o : Json.Members) (ho : BaseTyped L o) :
    ∃ v, L.fromJson ClientCapabilities (.obj o) = .ok v ∧ Evidence (.obj o) v ∧
      ∀ k ∈ ["session", "auth", "elicitation"], ∀ o' : Json.Members, (∀ k', k' ≠ k → o'.find? k' = o.find? k') →
        ∃ w, L.fromJson ClientCapabilities (.obj o') = .ok w ∧ AlikeOff k v w := by
  obtain ⟨fs, terminal, m, h⟩ := clientCapabilities_decode_typed hL ho
  obtain ⟨hcompaction, hnotices, hboolean⟩ := clientSession_evidence o
  refine ⟨_, h o (fun _ _ => rfl), ⟨hcompaction, hnotices, hboolean, ?_, ?_, ?_⟩, fun k hk o' ho' => ?_⟩
  · rw [isTrue_iff, find?_objectOr]
  · exact present_objectOr_iff _ _ _
  · exact present_objectOr_iff _ _ _
  · have hbase : ∀ k' ∈ ["fs", "terminal", "_meta"], k' ≠ k := by
      rintro k' hk' rfl
      simp only [List.mem_cons, List.not_mem_nil, or_false] at hk hk'
      rcases hk' with rfl | rfl | rfl <;> simp at hk
    refine ⟨_, h o' (fun k' hk' => ho' k' (hbase k' hk')), rfl, rfl, fun hs => ?_, fun ha => ?_, fun he => ?_, rfl⟩
    · exact congrArg clientSession (ho' _ hs.symm).symm
    · exact congrArg (isTrue · "terminal") (Json.objectOr_congr (ho' _ ha.symm).symm)
    · have hj := Json.objectOr_congr (ho' _ he.symm).symm
      exact ⟨congrArg (present · "form") hj, congrArg (present · "url") hj⟩

/-- An `auth` that is an array, an `elicitation` that is null and a session with one switch. -/
theorem clientCapabilities_evidence_odd :
    ∃ v, reference.fromJson ClientCapabilities (.obj (((∅ : Json.Members).insert "auth" (.arr [])).insert
        "elicitation" .null |>.insert "session" (.obj ((∅ : Json.Members).insert "notices" Json.object)))) = .ok v ∧
      v.session.notices = true := by
  obtain ⟨v, hv, he, -⟩ := clientCapabilities_evidence reference reference_lawful
    (((∅ : Json.Members).insert "auth" (.arr [])).insert "elicitation" .null |>.insert
      "session" (.obj ((∅ : Json.Members).insert "notices" Json.object)))
    ⟨fun y h => by simp [FinMap.find?_insert] at h, fun y h => by simp [FinMap.find?_insert] at h,
      fun y h => by simp [FinMap.find?_insert] at h⟩
  exact ⟨v, hv, he.notices.2 ⟨∅, rfl⟩⟩

end Acp
