import Acp.Records
import Acp.Protocol
import Acp.Reference
/-!
# Consent — where a permission to run a tool comes from

An option is an allow-always one only by its own word, and an allow-once one by its word or by saying nothing; an
outcome is a selection only by its tag, of the option it names (`permission_from_wire`).
-/
namespace Acp

open Wire

variable {L : Jsonrpc} (hL : L.Lawful)
include hL

/-- **The kind of a decoded option** is the string its member is, or the default where there is none. -/
theorem permissionOption_kind {x : Json} {p : PermissionOption} (h : L.fromJson PermissionOption x = .ok p) :
    (∃ s, x.find? "kind" = some (.str s) ∧ (p.kind, s) ∈ (StringEnum.mappings : List (PermissionOptionKind × String))) ∨
      ((x.find? "kind" = none ∨ x.find? "kind" = some .null) ∧ p.kind = .allowOnce) := by
  obtain ⟨o, rfl, h0⟩ := hL.record_decode_inv h
  obtain ⟨t1, h1, h⟩ := readAll_cons_inv h0
  obtain ⟨t2, h2, h⟩ := readAll_cons_inv h
  obtain ⟨t3, h3, h⟩ := readAll_cons_inv h
  obtain ⟨t4, h4, h⟩ := readAll_cons_inv h
  cases h
  obtain ⟨_, rfl⟩ := hL.read_meta_inv h4
  rcases hL.read_defaulted_inv h3 with ⟨hx, rfl⟩ | ⟨y, k, hx, hk, rfl⟩
  · exact .inr ⟨hx, rfl⟩
  · obtain ⟨s, rfl, hs⟩ := hL.enum_decode_inv _ _ _ hk
    exact .inl ⟨s, hx, hs⟩

theorem allowAlways_from_wire {x : Json} {p : PermissionOption} (h : L.fromJson PermissionOption x = .ok p)
    (hp : p.kind = .allowAlways) : x.find? "kind" = some (.str "allow_always") := by
  rcases permissionOption_kind hL h with ⟨s, hx, hs⟩ | ⟨-, hk⟩
  · rw [hp] at hs
    have : s = "allow_always" := by simpa [StringEnum.mappings] using hs
    rw [hx, this]
  · rw [hp] at hk; cases hk

theorem allowOnce_from_wire {x : Json} {p : PermissionOption} (h : L.fromJson PermissionOption x = .ok p)
    (hp : p.kind = .allowOnce) :
    x.find? "kind" = some (.str "allow_once") ∨ x.find? "kind" = none ∨ x.find? "kind" = some .null := by
  rcases permissionOption_kind hL h with ⟨s, hx, hs⟩ | ⟨hx, -⟩
  · rw [hp] at hs
    have : s = "allow_once" := by simpa [StringEnum.mappings] using hs
    exact .inl (by rw [hx, this])
  · exact .inr hx

/-- **The decoded options are those of the message, in its order.** -/
theorem options_from_wire {j : Json} {v : RequestPermissionParams} (h : L.fromJson RequestPermissionParams j = .ok v) :
    ∃ xs, j.find? "options" = some (.arr xs) ∧
      List.Forall₂ (fun x p => L.fromJson PermissionOption x = .ok p) xs v.options := by
  obtain ⟨o, rfl, h0⟩ := hL.record_decode_inv h
  obtain ⟨t1, h1, h⟩ := readAll_cons_inv h0
  obtain ⟨t2, h2, h⟩ := readAll_cons_inv h
  obtain ⟨t3, h3, h⟩ := readAll_cons_inv h
  obtain ⟨t4, h4, h⟩ := readAll_cons_inv h
  cases h
  obtain ⟨_, rfl⟩ := hL.read_meta_inv h4
  obtain ⟨y, ps, hy, hps, rfl⟩ := hL.read_required_inv h3
  obtain ⟨xs, rfl, hxs⟩ := hL.list_decode_inv hps
  exact ⟨xs, hy, hxs⟩

theorem poSelected_from_wire {o : Json.Members} {x : PoSelected} (h : L.fromJson PoSelected (.obj o) = .ok x) :
    o.find? "optionId" = some (.str x.optionId) := by
  obtain ⟨_, ho, h⟩ := hL.record_decode_inv h
  cases ho
  obtain ⟨t1, h1, h⟩ := readAll_cons_inv h
  obtain ⟨t2, h2, h⟩ := readAll_cons_inv h
  cases h
  obtain ⟨_, rfl⟩ := hL.read_meta_inv h2
  obtain ⟨y, s, hy, hs, rfl⟩ := hL.read_required_inv h1
  rw [← hL.string_decode_inv y s hs]
  exact hy

/-- What an outcome was read from. -/
def OutcomeFrom (r : Json) : RequestPermissionOutcome → Prop
  | .selected x  => r.find? "outcome" = some (.str "selected") ∧ r.find? "optionId" = some (.str x.optionId)
  | .cancelled _ => r.find? "outcome" = some (.str "cancelled")

theorem outcome_from_wire {r : Json} {v : RequestPermissionOutcome}
    (h : L.fromJson RequestPermissionOutcome r = .ok v) : OutcomeFrom r v := by
  obtain ⟨o, b, a, rfl, hb, hl, ha, rfl⟩ := hL.sum_decode_inv h
  rcases hb with _ | ⟨_, hb⟩
  · exact hl
  rcases hb with _ | ⟨_, hb⟩
  · exact ⟨hl, poSelected_from_wire hL ha⟩
  cases hb

omit hL in
/-- **Consent comes from the wire.**  The options are what the message's decode to, one by one and in its order; one is
allow-always only by its own word, and allow-once by its word or by having none.  The outcome is the message's, a
selection only of the option it names. -/
theorem permission_from_wire (L : Jsonrpc) (hL : L.Lawful) :
    (∀ (j : Json) (v : RequestPermissionParams), L.fromJson RequestPermissionParams j = .ok v →
      ∃ xs, j.find? "options" = some (.arr xs) ∧ List.Forall₂ (fun x p =>
        L.fromJson PermissionOption x = .ok p ∧
        (p.kind = .allowAlways → x.find? "kind" = some (.str "allow_always")) ∧
        (p.kind = .allowOnce → x.find? "kind" = some (.str "allow_once") ∨ x.find? "kind" = none ∨
          x.find? "kind" = some .null)) xs v.options) ∧
    ∀ (j : Json) (v : RequestPermissionResult), L.fromJson RequestPermissionResult j = .ok v →
      ∃ r, j.find? "outcome" = some r ∧ OutcomeFrom r v.outcome := by
  constructor
  · intro j v h
    obtain ⟨xs, hxs, hall⟩ := options_from_wire hL h
    exact ⟨xs, hxs, hall.imp (fun _ _ hp => ⟨hp, allowAlways_from_wire hL hp, allowOnce_from_wire hL hp⟩)⟩
  · intro j v h
    obtain ⟨o, rfl, h0⟩ := hL.record_decode_inv h
    obtain ⟨t1, h1, h⟩ := readAll_cons_inv h0
    obtain ⟨t2, h2, h⟩ := readAll_cons_inv h
    cases h
    obtain ⟨_, rfl⟩ := hL.read_meta_inv h2
    obtain ⟨r, a, hr, ha, rfl⟩ := hL.read_required_inv h1
    exact ⟨r, hr, outcome_from_wire hL ha⟩

/-- A request with an option of each kind, and one that says nothing of its kind. -/
def fiveOptions : Json := .obj ((((∅ : Json.Members).insert "sessionId" (.str "s")).insert "toolCall"
  (.obj ((∅ : Json.Members).insert "toolCallId" (.str "t")))).insert "options" (.arr [
    .obj ((((∅ : Json.Members).insert "optionId" (.str "a")).insert "name" (.str "A")).insert "kind"
      (.str "reject_once")),
    .obj ((((∅ : Json.Members).insert "optionId" (.str "b")).insert "name" (.str "B")).insert "kind"
      (.str "allow_always")),
    .obj ((((∅ : Json.Members).insert "optionId" (.str "c")).insert "name" (.str "C")).insert "kind"
      (.str "allow_once")),
    .obj ((((∅ : Json.Members).insert "optionId" (.str "d")).insert "name" (.str "D")).insert "kind"
      (.str "reject_always")),
    .obj (((∅ : Json.Members).insert "optionId" (.str "e")).insert "name" (.str "E"))]))

omit hL in
theorem permission_from_wire_selected :
    (∃ xs, fiveOptions.find? "options" = some (.arr xs) ∧ List.Forall₂ (fun x (p : PermissionOption) =>
      reference.fromJson PermissionOption x = .ok p ∧
      (p.kind = .allowAlways → x.find? "kind" = some (.str "allow_always")) ∧
      (p.kind = .allowOnce → x.find? "kind" = some (.str "allow_once") ∨ x.find? "kind" = none ∨
        x.find? "kind" = some .null)) xs [
          { optionId := "a", name := "A", kind := .rejectOnce }, { optionId := "b", name := "B", kind := .allowAlways },
          { optionId := "c", name := "C", kind := .allowOnce }, { optionId := "d", name := "D", kind := .rejectAlways },
          { optionId := "e", name := "E", kind := .allowOnce }]) ∧
      ∃ r, (Json.obj ((∅ : Json.Members).insert "outcome" (.obj (((∅ : Json.Members).insert "outcome"
        (.str "selected")).insert "optionId" (.str "a"))))).find? "outcome" = some r ∧
          OutcomeFrom r (.selected { optionId := "a" }) :=
  ⟨(permission_from_wire reference reference_lawful).1 fiveOptions
      { sessionId := ⟨"s"⟩, toolCall := { toolCallId := ⟨"t"⟩ }, options := [
        { optionId := "a", name := "A", kind := .rejectOnce }, { optionId := "b", name := "B", kind := .allowAlways },
        { optionId := "c", name := "C", kind := .allowOnce }, { optionId := "d", name := "D", kind := .rejectAlways },
        { optionId := "e", name := "E", kind := .allowOnce }] } rfl,
    (permission_from_wire reference reference_lawful).2 _ { outcome := .selected { optionId := "a" } } rfl⟩

omit hL in
/-- **An option that says nothing of its kind is an allow-once option.** -/
theorem silent_option_allows : ¬ ∀ (j : Json) (v : RequestPermissionParams),
    reference.fromJson RequestPermissionParams j = .ok v → ∃ xs, j.find? "options" = some (.arr xs) ∧
      List.Forall₂ (fun x p => p.kind = .allowOnce → x.find? "kind" = some (.str "allow_once")) xs
        v.options := fun h => by
  obtain ⟨xs, hxs, hall⟩ := h (.obj ((((∅ : Json.Members).insert "sessionId" (.str "s")).insert "toolCall" (.obj
      ((∅ : Json.Members).insert "toolCallId" (.str "t")))).insert "options" (.arr [.obj
        (((∅ : Json.Members).insert "optionId" (.str "a")).insert "name" (.str "A"))])))
    { sessionId := ⟨"s"⟩, toolCall := { toolCallId := ⟨"t"⟩ }, options := [{ optionId := "a", name := "A" }] } rfl
  have hone : some (Json.arr [.obj (((∅ : Json.Members).insert "optionId" (.str "a")).insert "name" (.str "A"))]) =
    some (Json.arr xs) := hxs
  cases hone
  cases hall with
  | cons hx _ =>
    have hnone : none = some (Json.str "allow_once") := hx rfl
    cases hnone

end Acp
