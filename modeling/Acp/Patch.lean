import Acp.Wire.Overlay
import Acp.ToolViews
/-!
# Patch — a tool call update is a delta (`tools.hpp`)

A field of an update that is Nothing leaves the tool call's as it is.  `ToolCall.patched` and `ToolCallUpdate.andThen` say
so of the values; on the wire it is the update's object laid over the tool call's, and the two agree for any number of
updates, put together in whichever way (`updates_patch`).
-/
namespace Acp

open Wire

/-- The tool call after the update: what the update leaves out is unchanged. -/
def ToolCall.patched (t : ToolCall) (u : ToolCallUpdate) : ToolCall where
  toolCallId := u.toolCallId
  title      := u.title.getD t.title
  name       := u.name.or t.name
  kind       := u.kind.getD t.kind
  status     := u.status.getD t.status
  content    := u.content.getD t.content
  locations  := u.locations.getD t.locations
  rawInput   := u.rawInput.or t.rawInput
  rawOutput  := u.rawOutput.or t.rawOutput
  meta_      := if u.meta_.isEmpty then t.meta_ else u.meta_

/-- The two updates as one. -/
def ToolCallUpdate.andThen (v u : ToolCallUpdate) : ToolCallUpdate where
  toolCallId := u.toolCallId
  title      := u.title.or v.title
  name       := u.name.or v.name
  kind       := u.kind.or v.kind
  status     := u.status.or v.status
  content    := u.content.or v.content
  locations  := u.locations.or v.locations
  rawInput   := u.rawInput.or v.rawInput
  rawOutput  := u.rawOutput.or v.rawOutput
  meta_      := if u.meta_.isEmpty then v.meta_ else u.meta_

/-- **The update that two make together patches as they do one after the other.** -/
theorem ToolCall.patched_andThen (t : ToolCall) (v u : ToolCallUpdate) :
    t.patched (v.andThen u) = (t.patched v).patched u := by
  have hgetD : ∀ {A : Type} (x y : Option A) (a : A), (x.or y).getD a = x.getD (y.getD a) := fun x y a => by
    cases x <;> rfl
  unfold ToolCall.patched ToolCallUpdate.andThen
  simp only [hgetD, Option.or_assoc, ToolCall.mk.injEq, true_and]
  by_cases h : u.meta_.isEmpty <;> simp [h]

/-! ## Members that read as a value -/

/-- The members read as `t`: each field finds that of `t`. -/
def ReadsAs {T : Type} (L : Jsonrpc) (fs : List (FieldSpec T)) (o : Json.Members) (t : T) : Prop :=
  ∀ f ∈ fs, ∀ s, L.read f (o.find? f.key) s = .ok (f.copy t s)

/-- What `g` writes of `u` turns the field `f` of `t` into that of `t'`. -/
def Turns {T U : Type} (L : Jsonrpc) (u : U) (t t' : T) (f : FieldSpec T) (g : FieldSpec U) : Prop :=
  (∃ x, L.write g u = some x ∧ ∀ s, L.read f (some x) s = .ok (f.copy t' s)) ∨
    (L.write g u = none ∧ ∀ s, f.copy t' s = f.copy t s)

section Reads

variable {L : Jsonrpc} {T U : Type} {fs : List (FieldSpec T)} {gs : List (FieldSpec U)} {o : Json.Members} {t t' : T}

theorem ReadsAs.decode (hL : L.Lawful) {init : T} (h : ReadsAs L fs o t)
    (hc : ∀ s : T, fs.foldl (fun s f => f.copy t s) s = t) : (L.record init fs).decode (.obj o) = .ok t := by
  rw [hL.record_decode, ← hc init]
  exact foldlM_ok fs init h

/-- **Members that read as a value, with those of an update over them, read as the value it is turned into.** -/
theorem ReadsAs.overlay {u : U} (h : ReadsAs L fs o t) (hn : (gs.map FieldSpec.key).Nodup)
    (ht : List.Forall₂ (fun f g => f.key = g.key ∧ Turns L u t t' f g) fs gs) :
    ReadsAs L fs (o.overlay (L.writeAll gs u ∅)) t' := by
  intro f hf s
  obtain ⟨i, hi, rfl⟩ := List.getElem_of_mem hf
  have hi' : i < gs.length := ht.length_eq ▸ hi
  obtain ⟨hkey, hturn⟩ : (fs[i]).key = (gs[i]).key ∧ Turns L u t t' fs[i] gs[i] := ht.get hi hi'
  have hw : (L.writeAll gs u ∅).find? (fs[i]).key = L.write gs[i] u :=
    hkey ▸ find?_writeAll_empty hn (List.getElem_mem hi') u
  rw [FinMap.find?_overlay, hw]
  rcases hturn with ⟨x, hx, hread⟩ | ⟨hx, hcopy⟩
  · rw [hx]
    exact hread s
  · rw [hx, Option.none_or, hcopy]
    exact h _ hf s

/-- **A pile of updates over members that read as a value reads as what they turn it into**, if one does. -/
theorem ReadsAs.overlays {step : T → U → T} {sent : U → Json.Members} {ok : U → Prop}
    (hstep : ∀ o t u, ReadsAs L fs o t → ok u → ReadsAs L fs (o.overlay (sent u)) (step t u)) :
    ∀ (us : List U) {o : Json.Members} {t : T}, ReadsAs L fs o t → (∀ u ∈ us, ok u) →
      ReadsAs L fs ((us.map sent).foldl FinMap.overlay o) (us.foldl step t)
  | [], _, _, h, _ => h
  | u :: us, o, t, h, hus => by
    rw [List.map_cons, List.foldl_cons, List.foldl_cons]
    exact ReadsAs.overlays hstep us (hstep o t u h (hus u List.mem_cons_self))
      (fun u' hu' => hus u' (List.mem_cons_of_mem _ hu'))

theorem readsAs_written {α : Type} [Record α] [Normal α] [RecordOk α] (hL : L.Lawful) {v : α} (hv : Good v) :
    ReadsAs L (Record.fields L) (L.writeAll (Record.fields L) v ∅) v := by
  intro f hf s
  rw [find?_writeAll_empty (RecordOk.keys_nodup L) hf v]
  have hloop := ((RecordOk.fits hL).fits f hf).loop v s hv.1
  rwa [hv.2] at hloop

end Reads

section Fields

variable {L : Jsonrpc} (hL : L.Lawful) {T U A : Type} {k : String} {c : Codec A} {u : U} {t t' : T}
include hL

theorem turns_required {m : Member T A} {n : Member U A} (h : Echoes c (n.get u)) (hm : m.get t' = n.get u) :
    Turns L u t t' (.required k m c) (.required k n c) := by
  refine .inl ⟨_, hL.write_required k n c u, fun s => ?_⟩
  have hread := (hL.read_required k m c (c.encode (n.get u)) s).ok h.1
  exact hread.trans (congrArg (fun a => Except.ok (m.set s a)) hm.symm)

/-- What is Nothing leaves the field as it is, and what is not is read into it. -/
theorem turns_of_optional {f : FieldSpec T} {n : Member U (Option A)}
    (hkeep : n.get u = none → ∀ s, f.copy t' s = f.copy t s)
    (hread : ∀ a, n.get u = some a → ∀ s, L.read f (some (c.encode a)) s = .ok (f.copy t' s)) :
    Turns L u t t' f (.optional k n c) := by
  unfold Turns
  rw [hL.write_optional]
  cases hx : n.get u with
  | none => exact .inr ⟨rfl, hkeep hx⟩
  | some a => exact .inl ⟨_, rfl, hread a hx⟩

theorem turns_optional_required {m : Member T A} {n : Member U (Option A)} (h : ∀ a ∈ n.get u, Echoes c a)
    (hm : m.get t' = (n.get u).getD (m.get t)) : Turns L u t t' (.required k m c) (.optional k n c) := by
  refine turns_of_optional hL (fun hx s => ?_) (fun a hx s => ?_)
  · rw [hx] at hm
    exact congrArg (m.set s) hm
  · rw [hx] at hm
    have hread := (hL.read_required k m c (c.encode a) s).ok (h a hx).1
    exact hread.trans (congrArg (fun a => Except.ok (m.set s a)) hm.symm)

theorem turns_optional {m : Member T (Option A)} {n : Member U (Option A)} (h : ∀ a ∈ n.get u, Echoes c a)
    (hm : m.get t' = (n.get u).or (m.get t)) : Turns L u t t' (.optional k m c) (.optional k n c) := by
  refine turns_of_optional hL (fun hx s => ?_) (fun a hx s => ?_)
  · rw [hx, Option.none_or] at hm
    exact congrArg (m.set s) hm
  · rw [hx, Option.some_or] at hm
    have hread := (hL.read_optional k m c (c.encode a) s (h a hx).2).ok (h a hx).1
    exact hread.trans (congrArg (fun a => Except.ok (m.set s a)) hm.symm)

theorem turns_optional_defaulted {m : Member T A} {n : Member U (Option A)} {d : A} (h : ∀ a ∈ n.get u, Echoes c a)
    (hm : m.get t' = (n.get u).getD (m.get t)) : Turns L u t t' (.defaulted k m d c) (.optional k n c) := by
  refine turns_of_optional hL (fun hx s => ?_) (fun a hx s => ?_)
  · rw [hx] at hm
    exact congrArg (m.set s) hm
  · rw [hx] at hm
    have hread := (hL.read_defaulted k m d c (c.encode a) s (h a hx).2).ok (h a hx).1
    exact hread.trans (congrArg (fun a => Except.ok (m.set s a)) hm.symm)

/-- An empty `_meta` is not written, and leaves that of `t`. -/
theorem turns_meta {m : Member T Json} {n : Member U Json} (h : (n.get u).isObject = true)
    (hm : m.get t' = if (n.get u).isEmpty then m.get t else n.get u) :
    Turns L u t t' (.meta_ k m) (.meta_ k n) := by
  obtain ⟨o, ho⟩ := (Json.isObject_iff _).1 h
  rw [ho] at hm
  by_cases he : o = ∅
  · subst he
    exact .inr ⟨hL.write_meta_empty k n u ho, fun s => congrArg (m.set s) hm⟩
  · refine .inl ⟨_, hL.write_meta k n u o ho he, fun s => ?_⟩
    have hne : (Json.obj o).isEmpty = false := Bool.eq_false_iff.2 (fun h => he ((FinMap.isEmpty_iff o).1 h))
    rw [hne] at hm
    exact (hL.read_meta k m o s).trans (congrArg (fun a => Except.ok (m.set s a)) hm.symm)

end Fields

/-! ## The two records -/

section Views

variable {L : Jsonrpc} (hL : L.Lawful)
include hL

theorem toolCall_overlay (o : Json.Members) (t : ToolCall) (u : ToolCallUpdate)
    (h : ReadsAs L (Record.fields L) o t) (hu : u.Sendable) :
    ReadsAs L (Record.fields L) (o.overlay (L.writeAll (Record.fields L) u ∅)) (t.patched u) := by
  obtain ⟨⟨hcontent, hlocations, hmeta⟩, hin, hout⟩ := hu
  have hstring : ∀ s : String, Echoes (L.codec String) s := fun s => echoes_of_good hL ⟨trivial, rfl⟩
  refine h.overlay (RecordOk.keys_nodup L) ?_
  exact .cons ⟨rfl, turns_required hL (echoes_of_good hL (a := u.toolCallId) ⟨trivial, rfl⟩) rfl⟩ <|
    .cons ⟨rfl, turns_optional_required hL (fun s _ => hstring s) rfl⟩ <|
    .cons ⟨rfl, turns_optional hL (fun s _ => hstring s) rfl⟩ <|
    .cons ⟨rfl, turns_optional_defaulted hL (fun a _ => echoes_of_good hL (a := a) ⟨trivial, rfl⟩) rfl⟩ <|
    .cons ⟨rfl, turns_optional_defaulted hL (fun a _ => echoes_of_good hL (a := a) ⟨trivial, rfl⟩) rfl⟩ <|
    .cons ⟨rfl, turns_optional_defaulted hL (fun a ha =>
      echoes_of_good hL (good_list (fun _ => rfl) (hcontent a ha))) rfl⟩ <|
    .cons ⟨rfl, turns_optional_defaulted hL (fun a ha =>
      echoes_of_good hL (good_list (fun _ => rfl) (hlocations a ha))) rfl⟩ <|
    .cons ⟨rfl, turns_optional hL (fun _ hx => echoes_json hL (good_of_shown hin hx)) rfl⟩ <|
    .cons ⟨rfl, turns_optional hL (fun _ hx => echoes_json hL (good_of_shown hout hx)) rfl⟩ <|
    .cons ⟨rfl, turns_meta hL hmeta rfl⟩ .nil

theorem toolCallUpdate_overlay (o : Json.Members) (v u : ToolCallUpdate)
    (h : ReadsAs L (Record.fields L) o v) (hu : u.Sendable) :
    ReadsAs L (Record.fields L) (o.overlay (L.writeAll (Record.fields L) u ∅)) (v.andThen u) := by
  obtain ⟨⟨hcontent, hlocations, hmeta⟩, hin, hout⟩ := hu
  have hstring : ∀ s : String, Echoes (L.codec String) s := fun s => echoes_of_good hL ⟨trivial, rfl⟩
  refine h.overlay (RecordOk.keys_nodup L) ?_
  exact .cons ⟨rfl, turns_required hL (echoes_of_good hL (a := u.toolCallId) ⟨trivial, rfl⟩) rfl⟩ <|
    .cons ⟨rfl, turns_optional hL (fun s _ => hstring s) rfl⟩ <|
    .cons ⟨rfl, turns_optional hL (fun s _ => hstring s) rfl⟩ <|
    .cons ⟨rfl, turns_optional hL (fun a _ => echoes_of_good hL (a := a) ⟨trivial, rfl⟩) rfl⟩ <|
    .cons ⟨rfl, turns_optional hL (fun a _ => echoes_of_good hL (a := a) ⟨trivial, rfl⟩) rfl⟩ <|
    .cons ⟨rfl, turns_optional hL (fun a ha => echoes_of_good hL (good_list (fun _ => rfl) (hcontent a ha))) rfl⟩ <|
    .cons ⟨rfl, turns_optional hL (fun a ha => echoes_of_good hL (good_list (fun _ => rfl) (hlocations a ha))) rfl⟩ <|
    .cons ⟨rfl, turns_optional hL (fun _ hx => echoes_json hL (good_of_shown hin hx)) rfl⟩ <|
    .cons ⟨rfl, turns_optional hL (fun _ hx => echoes_json hL (good_of_shown hout hx)) rfl⟩ <|
    .cons ⟨rfl, turns_meta hL hmeta rfl⟩ .nil

/-- The updates on the wire. -/
theorem overlay_sent (o : Json.Members) (us : List ToolCallUpdate) :
    (us.map L.toJson).foldl Json.overlay (.obj o) =
      .obj ((us.map (fun u => L.writeAll (Record.fields L) u ∅)).foldl FinMap.overlay o) := by
  have hsent : us.map L.toJson = (us.map (fun u => L.writeAll (Record.fields L) u ∅)).map Json.obj := by
    rw [List.map_map]
    exact List.map_congr_left (fun u _ => record_encode_obj hL u)
  rw [hsent, Json.foldl_overlay_obj]

end Views

theorem dropNull_of_shown {x : Option Json} (h : x ≠ some .null) : dropNull x = x := by
  cases x with
  | none => rfl
  | some y => cases y <;> first | rfl | exact absurd rfl h

theorem ToolCall.Sendable.good {t : ToolCall} (h : t.Sendable) : Good t := by
  obtain ⟨hm, hin, hout⟩ := h
  refine ⟨hm, ?_⟩
  show { t with rawInput := dropNull t.rawInput, rawOutput := dropNull t.rawOutput } = t
  rw [dropNull_of_shown hin, dropNull_of_shown hout]

theorem ToolCallUpdate.Sendable.good {u : ToolCallUpdate} (h : u.Sendable) : Good u := by
  obtain ⟨hm, hin, hout⟩ := h
  refine ⟨hm, ?_⟩
  show { u with rawInput := dropNull u.rawInput, rawOutput := dropNull u.rawOutput } = u
  rw [dropNull_of_shown hin, dropNull_of_shown hout]

theorem ToolCall.patched_foldl (t : ToolCall) : ∀ (us : List ToolCallUpdate) (u : ToolCallUpdate),
    t.patched (us.foldl ToolCallUpdate.andThen u) = us.foldl ToolCall.patched (t.patched u)
  | [], _ => rfl
  | u' :: us, u => by
    rw [List.foldl_cons, List.foldl_cons, ToolCall.patched_foldl t us (u.andThen u'), ToolCall.patched_andThen]

/-- **A tool call update is a delta**, on the wire as in memory: a tool call with any number of updates laid over it, each
over the one before, is read as the tool call that they patch one after the other; and it does not matter whether the
updates are first put together, in memory or on the wire. -/
theorem updates_patch (L : Jsonrpc) (hL : L.Lawful) (t : ToolCall) (ht : t.Sendable) (us : List ToolCallUpdate)
    (hus : ∀ u ∈ us, u.Sendable) :
    L.fromJson ToolCall ((us.map L.toJson).foldl Json.overlay (L.toJson t)) = .ok (us.foldl ToolCall.patched t) ∧
      ∀ u, u.Sendable →
        (L.fromJson ToolCallUpdate ((us.map L.toJson).foldl Json.overlay (L.toJson u)) =
            .ok (us.foldl ToolCallUpdate.andThen u) ∧
          t.patched (us.foldl ToolCallUpdate.andThen u) = us.foldl ToolCall.patched (t.patched u)) ∧
        L.fromJson ToolCall ((L.toJson t).overlay ((us.map L.toJson).foldl Json.overlay (L.toJson u))) =
          .ok (us.foldl ToolCall.patched (t.patched u)) := by
  have hcall : ReadsAs L (Record.fields L) _ t := readsAs_written hL ht.good
  have htj : L.toJson t = .obj (L.writeAll (Record.fields L) t ∅) := record_encode_obj hL t
  refine ⟨?_, fun u hu => ⟨⟨?_, t.patched_foldl us u⟩, ?_⟩⟩
  · rw [htj, overlay_sent hL]
    exact (hcall.overlays (toolCall_overlay hL) us hus).decode hL (RecordOk.complete L _)
  · rw [show L.toJson u = .obj (L.writeAll (Record.fields L) u ∅) from record_encode_obj hL u, overlay_sent hL]
    have hupdate : ReadsAs L (Record.fields L) _ u := readsAs_written hL hu.good
    exact (hupdate.overlays (toolCallUpdate_overlay hL) us hus).decode hL (RecordOk.complete L _)
  · rw [show L.toJson u = .obj (L.writeAll (Record.fields L) u ∅) from record_encode_obj hL u, overlay_sent hL, htj]
    show L.fromJson ToolCall (.obj (FinMap.overlay _ _)) = _
    rw [FinMap.foldl_overlay]
    exact ((toolCall_overlay hL _ t u hcall hu).overlays (toolCall_overlay hL) us hus).decode hL (RecordOk.complete L _)

/-- A call that is started, and then done. -/
theorem updates_patch_done :
    reference.fromJson ToolCall ((([{ toolCallId := ⟨"c"⟩, status := some .inProgress },
        { toolCallId := ⟨"c"⟩, status := some .completed, title := some "T" }] : List ToolCallUpdate).map
          reference.toJson).foldl Json.overlay (reference.toJson ({ toolCallId := ⟨"c"⟩, title := "t" } : ToolCall))) =
      .ok { toolCallId := ⟨"c"⟩, title := "T", status := .completed } := by
  have hnone : ∀ {α : Type} {P : α → Prop}, ∀ x ∈ (none : Option α), P x := fun _ hx => by cases hx
  exact (updates_patch reference reference_lawful { toolCallId := ⟨"c"⟩, title := "t" }
    ⟨⟨List.forall_mem_nil _, List.forall_mem_nil _, rfl⟩, by simp, by simp⟩ _ (fun u hu => by
      rcases List.mem_pair.1 hu with rfl | rfl <;> exact ⟨⟨hnone, hnone, rfl⟩, by simp, by simp⟩)).1

end Acp
