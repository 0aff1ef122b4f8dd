import Acp.Jsonrpc
import Acp.Wire.Runs
import Acp.Wire.Retract
import Mathlib.Data.List.Forall2
/-!
# Records — what `record`, `sum_tagged` and `list_codec` do, from the laws

One lemma for what a field reads (`read_required_inv` and its siblings), one for what a record writes under a key
(`find?_writeAll`), and from them the record: it gives back what it wrote (`record_loop`), it lands where its fields
land (`record_lands`), and it looks at no key its fields do not declare (`record_skips`).
-/
namespace Acp

open Wire

namespace Jsonrpc.Lawful

variable {L : Jsonrpc} (hL : L.Lawful)
include hL

/-! ## One field -/

section FieldSpec

variable {T A : Type} {k : String} {m : Member T A} {c : Codec A} {x : Option Json} {t t' : T}

theorem read_required_inv (h : L.read (.required k m c) x t = .ok t') :
    ∃ y a, x = some y ∧ c.decode y = .ok a ∧ t' = m.set t a := by
  cases x with
  | none =>
    obtain ⟨msg, he⟩ := hL.read_required_none k m c t
    rw [he] at h; cases h
  | some y =>
    obtain ⟨a, ha, rfl⟩ := (hL.read_required k m c y t).ok_inv h
    exact ⟨y, a, rfl, ha, rfl⟩

theorem read_optional_inv {m : Member T (Option A)} (h : L.read (.optional k m c) x t = .ok t') :
    ((x = none ∨ x = some .null) ∧ t' = m.set t none) ∨
      ∃ y a, x = some y ∧ y ≠ .null ∧ c.decode y = .ok a ∧ t' = m.set t (some a) := by
  cases x with
  | none =>
    rw [hL.read_optional_none] at h; cases h
    exact .inl ⟨.inl rfl, rfl⟩
  | some y =>
    by_cases hy : y = .null
    · subst hy
      rw [hL.read_optional_null] at h; cases h
      exact .inl ⟨.inr rfl, rfl⟩
    · obtain ⟨a, ha, rfl⟩ := (hL.read_optional k m c y t hy).ok_inv h
      exact .inr ⟨y, a, rfl, hy, ha, rfl⟩

theorem read_defaulted_inv {d : A} (h : L.read (.defaulted k m d c) x t = .ok t') :
    ((x = none ∨ x = some .null) ∧ t' = m.set t d) ∨ ∃ y a, x = some y ∧ c.decode y = .ok a ∧ t' = m.set t a := by
  cases x with
  | none =>
    rw [hL.read_defaulted_none] at h; cases h
    exact .inl ⟨.inl rfl, rfl⟩
  | some y =>
    by_cases hy : y = .null
    · subst hy
      rcases hL.read_defaulted_null k m d c t with h' | h'
      · rw [h'] at h; cases h
        exact .inl ⟨.inr rfl, rfl⟩
      · obtain ⟨a, ha, rfl⟩ := h'.ok_inv h
        exact .inr ⟨.null, a, rfl, ha, rfl⟩
    · obtain ⟨a, ha, rfl⟩ := (hL.read_defaulted k m d c y t hy).ok_inv h
      exact .inr ⟨y, a, rfl, ha, rfl⟩

theorem read_optional_sets {m : Member T (Option A)} (h : L.read (.optional k m c) x t = .ok t') :
    ∃ a, t' = m.set t a := by
  rcases hL.read_optional_inv h with ⟨-, h⟩ | ⟨_, a, -, -, -, h⟩
  · exact ⟨none, h⟩
  · exact ⟨some a, h⟩

theorem read_defaulted_sets {d : A} (h : L.read (.defaulted k m d c) x t = .ok t') : ∃ a, t' = m.set t a := by
  rcases hL.read_defaulted_inv h with ⟨-, h⟩ | ⟨_, a, -, -, h⟩
  · exact ⟨d, h⟩
  · exact ⟨a, h⟩

theorem read_meta_inv {m : Member T Json} (h : L.read (.meta_ k m) x t = .ok t') : ∃ o, t' = m.set t (.obj o) := by
  cases x with
  | none => rw [hL.read_meta_none] at h; cases h; exact ⟨∅, rfl⟩
  | some y =>
    by_cases hy : y.isObject = true
    · obtain ⟨o, rfl⟩ := (Json.isObject_iff y).1 hy
      rw [hL.read_meta] at h; cases h
      exact ⟨o, rfl⟩
    · rcases hL.read_meta_other k m y t (by simpa using hy) with h' | ⟨msg, h'⟩ <;> rw [h'] at h <;> cases h
      exact ⟨∅, rfl⟩

/-- **A field touches its own member only.** -/
theorem read_sets {f : FieldSpec T} (h : L.read f x t = .ok t') : f.Sets t t' := by
  cases f with
  | required k m c =>
    obtain ⟨_, a, -, -, h⟩ := hL.read_required_inv h
    exact ⟨a, h⟩
  | optional k m c => exact hL.read_optional_sets h
  | defaulted k m d c => exact hL.read_defaulted_sets h
  | meta_ k m =>
    obtain ⟨o, h⟩ := hL.read_meta_inv h
    exact ⟨.obj o, h⟩

theorem not_escapes_read_meta {m : Member T Json} : ¬ Escapes (L.read (.meta_ k m) x t) := by
  cases x with
  | none => rw [hL.read_meta_none]; exact not_escapes_ok _
  | some y =>
    by_cases hy : y.isObject = true
    · obtain ⟨o, rfl⟩ := (Json.isObject_iff y).1 hy
      rw [hL.read_meta]; exact not_escapes_ok _
    · rcases hL.read_meta_other k m y t (by simpa using hy) with h' | ⟨msg, h'⟩ <;> rw [h']
      · exact not_escapes_ok _
      · exact not_escapes_codecError _

/-- **A field escapes only through its codec, on the member it was given.** -/
theorem escapes_read_inv {f : FieldSpec T} (h : Escapes (L.read f x t)) :
    ∃ (A : Type) (c : Codec A) (y : Json), f.Via f.key c ∧ x = some y ∧ Escapes (c.decode y) := by
  cases f with
  | required k m c =>
    cases x with
    | none =>
      obtain ⟨msg, he⟩ := hL.read_required_none k m c t
      exact absurd (he ▸ h) (not_escapes_codecError msg)
    | some y => exact ⟨_, c, y, .required k m c, rfl, (hL.read_required k m c y t).escapes_iff.1 h⟩
  | optional k m c =>
    cases x with
    | none => exact absurd (hL.read_optional_none k m c t ▸ h) (not_escapes_ok _)
    | some y =>
      by_cases hy : y = .null
      · subst hy; exact absurd (hL.read_optional_null k m c t ▸ h) (not_escapes_ok _)
      · exact ⟨_, c, y, .optional k m c, rfl, (hL.read_optional k m c y t hy).escapes_iff.1 h⟩
  | defaulted k m d c =>
    cases x with
    | none => exact absurd (hL.read_defaulted_none k m d c t ▸ h) (not_escapes_ok _)
    | some y =>
      by_cases hy : y = .null
      · subst hy
        rcases hL.read_defaulted_null k m d c t with h' | h'
        · exact absurd (h' ▸ h) (not_escapes_ok _)
        · exact ⟨_, c, .null, .defaulted k m d c, rfl, h'.escapes_iff.1 h⟩
      · exact ⟨_, c, y, .defaulted k m d c, rfl, (hL.read_defaulted k m d c y t hy).escapes_iff.1 h⟩
  | meta_ k m => exact absurd h hL.not_escapes_read_meta

theorem escapes_read {f : FieldSpec T} {y : Json} (hv : f.Via k c) (hy : y ≠ .null) (h : Escapes (c.decode y)) (t : T) :
    Escapes (L.read f (some y) t) := by
  cases hv with
  | required k m c => exact (hL.read_required k m c y t).escapes_iff.2 h
  | optional k m c => exact (hL.read_optional k m c y t hy).escapes_iff.2 h
  | defaulted k m d c => exact (hL.read_defaulted k m d c y t hy).escapes_iff.2 h

theorem write_optional_congr {T' : Type} {m : Member T (Option A)} {m' : Member T' (Option A)} {v : T} {w : T'}
    (h : m.get v = m'.get w) : L.write (.optional k m c) v = L.write (.optional k m' c) w := by
  rw [hL.write_optional, hL.write_optional, h]

theorem write_meta_congr {T' : Type} {m : Member T Json} {m' : Member T' Json} {v : T} {w : T'}
    (h : m.get v = m'.get w) (hw : (m'.get w).isObject = true) : L.write (.meta_ k m) v = L.write (.meta_ k m') w := by
  obtain ⟨o, ho⟩ := (Json.isObject_iff _).1 hw
  by_cases he : o = ∅
  · subst he
    rw [hL.write_meta_empty k m v (h.trans ho), hL.write_meta_empty k m' w ho]
  · rw [hL.write_meta k m v o (h.trans ho) he, hL.write_meta k m' w o ho he]

theorem outcome_read {f : FieldSpec T} {y y' : Json} (hv : f.Via k c) (hy : y ≠ .null) (hy' : y' ≠ .null)
    (h : outcome (c.decode y) = outcome (c.decode y')) (t : T) :
    outcome (L.read f (some y) t) = outcome (L.read f (some y') t) := by
  cases hv with
  | required k m c => rw [(hL.read_required k m c y t).outcome_eq, (hL.read_required k m c y' t).outcome_eq, h]
  | optional k m c => rw [(hL.read_optional k m c y t hy).outcome_eq, (hL.read_optional k m c y' t hy').outcome_eq, h]
  | defaulted k m d c =>
    rw [(hL.read_defaulted k m d c y t hy).outcome_eq, (hL.read_defaulted k m d c y' t hy').outcome_eq, h]

/-! ### A member that another field wrote -/

section Reread

variable {T' : Type} {n : Member T' A} {v : T'} {a : A}

theorem reread_required (h : c.decode (c.encode (n.get v)) = .ok a) (t : T) :
    L.read (.required k m c) (L.write (.required k n c) v) t = .ok (m.set t a) := by
  rw [hL.write_required]
  exact (hL.read_required k m c _ t).ok h

theorem reread_required_optional {m : Member T (Option A)} (h : c.decode (c.encode (n.get v)) = .ok a)
    (hnn : c.encode (n.get v) ≠ .null) (t : T) :
    L.read (.optional k m c) (L.write (.required k n c) v) t = .ok (m.set t (some a)) := by
  rw [hL.write_required]
  exact (hL.read_optional k m c _ t hnn).ok h

theorem reread_optional {m : Member T (Option A)} {n : Member T' (Option A)} {g : A → A}
    (h : ∀ a ∈ n.get v, c.decode (c.encode a) = .ok (g a) ∧ c.encode a ≠ .null) (t : T) :
    L.read (.optional k m c) (L.write (.optional k n c) v) t = .ok (m.set t ((n.get v).map g)) := by
  rw [hL.write_optional]
  cases hx : n.get v with
  | none => exact hL.read_optional_none k m c t
  | some a =>
    obtain ⟨hd, hnn⟩ := h a hx
    exact (hL.read_optional k m c _ t hnn).ok hd

theorem reread_optional_required {n : Member T' (Option A)} {b : A} (hb : n.get v = some b)
    (h : c.decode (c.encode b) = .ok a) (t : T) :
    L.read (.required k m c) (L.write (.optional k n c) v) t = .ok (m.set t a) := by
  rw [hL.write_optional, hb]
  exact (hL.read_required k m c _ t).ok h

theorem reread_optional_defaulted {n : Member T' (Option A)} {d : A} {g : A → A}
    (h : ∀ a ∈ n.get v, c.decode (c.encode a) = .ok (g a) ∧ c.encode a ≠ .null) (t : T) :
    L.read (.defaulted k m d c) (L.write (.optional k n c) v) t = .ok (m.set t (((n.get v).map g).getD d)) := by
  rw [hL.write_optional]
  cases hx : n.get v with
  | none => exact hL.read_defaulted_none k m d c t
  | some a =>
    obtain ⟨hd, hnn⟩ := h a hx
    exact (hL.read_defaulted k m d c _ t hnn).ok hd

theorem reread_defaulted {d : A} (h : c.decode (c.encode (n.get v)) = .ok a) (hnn : c.encode (n.get v) ≠ .null)
    (hd : n.get v = d → a = d) (t : T) :
    L.read (.defaulted k m d c) (L.write (.defaulted k n d c) v) t = .ok (m.set t a) := by
  rcases hL.write_defaulted k n d c v with hw | ⟨hv, hw⟩
  · rw [hw]
    exact (hL.read_defaulted k m d c _ t hnn).ok h
  · rw [hw, hL.read_defaulted_none, hd hv]

/-- A default may be left out, and is then read as Nothing. -/
theorem reread_defaulted_optional {m : Member T (Option A)} {d : A} (h : c.decode (c.encode (n.get v)) = .ok a)
    (hnn : c.encode (n.get v) ≠ .null) : ∃ x, (x = some a ∨ x = none ∧ n.get v = d) ∧
      ∀ t, L.read (.optional k m c) (L.write (.defaulted k n d c) v) t = .ok (m.set t x) := by
  rcases hL.write_defaulted k n d c v with hw | ⟨hd, hw⟩
  · exact ⟨some a, .inl rfl, fun t => by rw [hw]; exact (hL.read_optional k m c _ t hnn).ok h⟩
  · exact ⟨none, .inr ⟨rfl, hd⟩, fun t => by rw [hw]; exact hL.read_optional_none k m c t⟩

theorem reread_meta {m : Member T Json} {n : Member T' Json} (h : (n.get v).isObject = true) (t : T) :
    L.read (.meta_ k m) (L.write (.meta_ k n) v) t = .ok (m.set t (n.get v)) := by
  obtain ⟨o, ho⟩ := (Json.isObject_iff _).1 h
  rw [ho]
  by_cases he : o = ∅
  · subst he
    rw [hL.write_meta_empty k n v ho, hL.read_meta_none]; rfl
  · rw [hL.write_meta k n v o ho he, hL.read_meta]

end Reread

end FieldSpec

end Jsonrpc.Lawful

/-- A library that writes every default writes the member alone, whatever the default is. -/
theorem Jsonrpc.WritesDefaults.write_congr {L : Jsonrpc} (hW : L.WritesDefaults) {T T' A : Type} {k : String}
    {m : Member T A} {m' : Member T' A} {d d' : A} {c : Codec A} {v : T} {w : T'} (h : m.get v = m'.get w) :
    L.write (.defaulted k m d c) v = L.write (.defaulted k m' d' c) w := by
  rw [hW, hW, h]

/-! ## The object a record writes -/

section WriteAll

variable {L : Jsonrpc} {T : Type}

theorem find?_writeAll_of_notMem : ∀ (fs : List (FieldSpec T)) (v : T) (o : Json.Members) {k : String},
    k ∉ fs.map FieldSpec.key → (L.writeAll fs v o).find? k = o.find? k
  | [], _, _, _, _ => rfl
  | f :: fs, v, o, k, h => by
    rw [List.map_cons, List.mem_cons, not_or] at h
    show (L.writeAll fs v _).find? k = _
    rw [find?_writeAll_of_notMem fs v _ h.2]
    cases L.write f v with
    | none => rfl
    | some x => exact FinMap.find?_insert_of_ne o x h.1

/-- **A record's object holds each field's member under its key.** -/
theorem find?_writeAll : ∀ (fs : List (FieldSpec T)) (v : T) (o : Json.Members) (f : FieldSpec T),
    (fs.map FieldSpec.key).Nodup → f ∈ fs → o.find? f.key = none → (L.writeAll fs v o).find? f.key = L.write f v
  | [], _, _, _, _, h, _ => by cases h
  | g :: fs, v, o, f, hn, h, ho => by
    rw [List.map_cons, List.nodup_cons] at hn
    show (L.writeAll fs v _).find? f.key = _
    rcases List.mem_cons.1 h with rfl | h
    · rw [find?_writeAll_of_notMem fs v _ hn.1]
      cases L.write f v with
      | none => exact ho
      | some x => exact FinMap.find?_insert_self o f.key x
    · refine find?_writeAll fs v _ f hn.2 h ?_
      have hne : f.key ≠ g.key := fun he => hn.1 (he ▸ List.mem_map_of_mem h)
      cases L.write g v with
      | none => exact ho
      | some x => exact (FinMap.find?_insert_of_ne o x hne).trans ho

/-- Two records that write the same members under the same keys write one object. -/
theorem writeAll_congr {T' : Type} {v : T} {w : T'} {fs : List (FieldSpec T)} {gs : List (FieldSpec T')}
    (h : List.Forall₂ (fun f g => f.key = g.key ∧ L.write f v = L.write g w) fs gs) (o : Json.Members) :
    L.writeAll fs v o = L.writeAll gs w o := by
  induction h generalizing o with
  | nil => rfl
  | @cons f g fs gs hfg _ ih =>
    show L.writeAll fs v _ = L.writeAll gs w _
    rw [hfg.1, hfg.2]
    exact ih _

theorem find?_writeAll_empty {fs : List (FieldSpec T)} (hn : (fs.map FieldSpec.key).Nodup) {f : FieldSpec T}
    (h : f ∈ fs) (v : T) : (L.writeAll fs v ∅).find? f.key = L.write f v :=
  find?_writeAll fs v ∅ f hn h (FinMap.find?_empty f.key)

theorem find?_writeAll_empty_of_notMem {fs : List (FieldSpec T)} {k : String} (h : k ∉ fs.map FieldSpec.key) (v : T) :
    (L.writeAll fs v ∅).find? k = none := by
  rw [find?_writeAll_of_notMem fs v ∅ h, FinMap.find?_empty]

/-- **A record's members are read only under the keys its fields declare.** -/
theorem readAll_congr : ∀ (fs : List (FieldSpec T)) {o o' : Json.Members} (t : T),
    (∀ f ∈ fs, o.find? f.key = o'.find? f.key) → L.readAll fs o t = L.readAll fs o' t
  | [], _, _, _, _ => rfl
  | f :: fs, o, o', t, h => by
    unfold Jsonrpc.readAll
    rw [List.foldlM_cons, List.foldlM_cons, h f List.mem_cons_self]
    congr 1
    funext t'
    exact readAll_congr fs t' (fun g hg => h g (List.mem_cons_of_mem _ hg))

theorem readAll_insert {fs : List (FieldSpec T)} {k : String} (h : k ∉ fs.map FieldSpec.key) (o : Json.Members)
    (x : Json) (t : T) : L.readAll fs (o.insert k x) t = L.readAll fs o t :=
  readAll_congr fs t (fun _ hf => FinMap.find?_insert_of_ne o x (fun he => h (he ▸ List.mem_map_of_mem hf)))

theorem readAll_cons {f : FieldSpec T} {fs : List (FieldSpec T)} {o : Json.Members} {t t' : T}
    (h : L.read f (o.find? f.key) t = .ok t') : L.readAll (f :: fs) o t = L.readAll fs o t' := by
  unfold Jsonrpc.readAll
  rw [List.foldlM_cons, h]
  rfl

theorem readAll_cons_inv {f : FieldSpec T} {fs : List (FieldSpec T)} {o : Json.Members} {t v : T}
    (h : L.readAll (f :: fs) o t = .ok v) :
    ∃ t', L.read f (o.find? f.key) t = .ok t' ∧ L.readAll fs o t' = .ok v :=
  foldlM_cons_inv h

theorem readAll_append_inv {fs gs : List (FieldSpec T)} {o : Json.Members} {t v : T}
    (h : L.readAll (fs ++ gs) o t = .ok v) : ∃ t', L.readAll fs o t = .ok t' ∧ L.readAll gs o t' = .ok v :=
  foldlM_append_inv h

end WriteAll

/-! ## The record -/

namespace Jsonrpc.Lawful

variable {L : Jsonrpc} (hL : L.Lawful)
include hL

section Record

variable {T : Type} {init : T} {fs : List (FieldSpec T)}

theorem record_decode_inv {j : Json} {v : T} (h : (L.record init fs).decode j = .ok v) :
    ∃ o, j = .obj o ∧ L.readAll fs o init = .ok v := by
  by_cases hj : j.isObject = true
  · obtain ⟨o, rfl⟩ := (Json.isObject_iff j).1 hj
    exact ⟨o, rfl, hL.record_decode init fs o ▸ h⟩
  · obtain ⟨msg, he⟩ := hL.record_decode_other init fs j (by simpa using hj)
    rw [he] at h; cases h

/-- **A required member of what a record accepts is there**, and its codec accepts it. -/
theorem record_required {A : Type} {k : String} {m : Member T A} {c : Codec A} (hm : .required k m c ∈ fs) {j : Json}
    {v : T} (h : (L.record init fs).decode j = .ok v) : ∃ y a, j.find? k = some y ∧ c.decode y = .ok a := by
  obtain ⟨o, rfl, ho⟩ := hL.record_decode_inv h
  obtain ⟨t, t', hr⟩ := foldlM_mem_inv fs init v ho _ hm
  obtain ⟨y, a, hy, ha, -⟩ := hL.read_required_inv hr
  exact ⟨y, a, hy, ha⟩

/-- **A record reads what another one wrote** under the same keys, field by field. -/
theorem record_cross {T' : Type} {init' : T'} {gs : List (FieldSpec T')} {v : T'} {w : T}
    (hn : (gs.map FieldSpec.key).Nodup)
    (h : List.Forall₂ (fun f g => f.key = g.key ∧ ∀ t, L.read f (L.write g v) t = .ok (f.copy w t)) fs gs)
    (hc : ∀ t : T, fs.foldl (fun t f => f.copy w t) t = w) :
    (L.record init fs).decode ((L.record init' gs).encode v) = .ok w := by
  rw [hL.record_encode, hL.record_decode, ← hc init]
  refine foldlM_ok fs init (fun f hf t => ?_)
  obtain ⟨i, hi, rfl⟩ := List.getElem_of_mem hf
  have hi' : i < gs.length := h.length_eq ▸ hi
  obtain ⟨hkey, hread⟩ := h.get hi hi'
  have hw : (L.writeAll gs v ∅).find? (fs[i]).key = L.write gs[i] v :=
    hkey ▸ find?_writeAll_empty hn (List.getElem_mem hi') v
  rw [hw]
  exact hread t

/-- **A record gives back the fields' normal form of what it wrote.** -/
theorem record_loop {norm : T → T} {v : T} (hn : (fs.map FieldSpec.key).Nodup)
    (hf : ∀ f ∈ fs, ∀ t, L.read f (L.write f v) t = .ok (f.copy (norm v) t))
    (hc : ∀ w t : T, fs.foldl (fun t f => f.copy w t) t = w) :
    (L.record init fs).decode ((L.record init fs).encode v) = .ok (norm v) :=
  hL.record_cross hn (List.forall₂_same.2 (fun f h => ⟨rfl, hf f h⟩)) (hc (norm v))

/-- **A record lands where each of its fields keeps it.** -/
theorem record_lands {P : T → Prop} (hinit : P init)
    (hf : ∀ f ∈ fs, ∀ x t t', P t → L.read f x t = .ok t' → P t') {j : Json} {v : T}
    (h : (L.record init fs).decode j = .ok v) : P v := by
  obtain ⟨o, _, ho⟩ := hL.record_decode_inv h
  exact foldlM_invariant fs init v (fun f hm t t' => hf f hm (o.find? f.key) t t') hinit ho

/-- **A record looks at no other key.** -/
theorem record_skips {k : String} (h : k ∉ fs.map FieldSpec.key) (o : Json.Members) (x : Json) :
    (L.record init fs).decode (.obj (o.insert k x)) = (L.record init fs).decode (.obj o) := by
  rw [hL.record_decode, hL.record_decode, readAll_insert h]

end Record

/-! ## The list -/

section List

variable {A : Type} {c : Codec A}

theorem list_loop {ok : A → Prop} {norm : A → A} (hc : ∀ a, ok a → c.decode (c.encode a) = .ok (norm a)) (as : List A)
    (h : ∀ a ∈ as, ok a) : (L.listCodec c).decode ((L.listCodec c).encode as) = .ok (as.map norm) := by
  rw [hL.list_encode]
  have := mapM_ok (d := c.decode) as (fun a ha => hc a (h a ha))
  exact (hL.list_decode c (as.map c.encode)).ok this

theorem list_decode_inv {j : Json} {as : List A} (h : (L.listCodec c).decode j = .ok as) :
    ∃ xs, j = .arr xs ∧ List.Forall₂ (fun x a => c.decode x = .ok a) xs as := by
  by_cases hj : j.isArray = true
  · obtain ⟨xs, rfl⟩ := (Json.isArray_iff j).1 hj
    obtain ⟨as', ha, rfl⟩ := (hL.list_decode c xs).ok_inv h
    exact ⟨xs, rfl, mapM_ok_inv xs as ha⟩
  · obtain ⟨msg, he⟩ := hL.list_decode_other c j (by simpa using hj)
    rw [he] at h; cases h

theorem list_decode_forall {P : A → Prop} (hc : ∀ x a, c.decode x = .ok a → P a) {j : Json} {as : List A}
    (h : (L.listCodec c).decode j = .ok as) : ∀ a ∈ as, P a := by
  obtain ⟨xs, -, hxs⟩ := hL.list_decode_inv h
  clear h
  induction hxs with
  | nil => intro a ha; cases ha
  | cons hx _ ih =>
    intro a ha
    rcases List.mem_cons.1 ha with rfl | ha
    · exact hc _ _ hx
    · exact ih a ha

theorem list_retract {ok : A → Prop} {norm : A → A} (hc : Retract c ok norm) :
    Retract (L.listCodec c) (fun as => ∀ a ∈ as, ok a) (List.map norm) where
  loop as h := hL.list_loop hc.loop as h
  lands j as h := by
    have hall := hL.list_decode_forall hc.lands h
    refine ⟨fun a ha => (hall a ha).1, ?_⟩
    rw [List.map_congr_left (fun a ha => (hall a ha).2), List.map_id']

end List

/-! ## The tagged sum -/

section Sum

variable {S : Type} {tag : String} {arms : List (Arm S)}

/-- **What a tagged sum decodes, the arm its tag names decoded.** -/
theorem sum_decode_inv {j : Json} {s : S} (h : (L.sumTagged tag arms).decode j = .ok s) :
    ∃ o b a, j = .obj o ∧ b ∈ arms ∧ o.find? tag = some (.str b.label) ∧ b.codec.decode (.obj o) = .ok a ∧
      s = b.alt.inj a := by
  by_cases ht : ∃ b ∈ arms, j.find? tag = some (.str b.label)
  · obtain ⟨b, hb, hj⟩ := ht
    cases j with
    | obj o =>
      have hex : (arms.find? (fun b' => b'.label == b.label)).isSome = true :=
        List.find?_isSome.2 ⟨b, hb, by simp⟩
      obtain ⟨b', hb'⟩ := Option.isSome_iff_exists.1 hex
      have hl : b'.label = b.label := by simpa using List.find?_some hb'
      obtain ⟨a, ha, rfl⟩ := (hL.sum_decode tag arms b' b.label o hj hb').ok_inv h
      exact ⟨o, b', a, rfl, List.mem_of_find?_eq_some hb', hl ▸ hj, ha, rfl⟩
    | _ => cases hj
  · obtain ⟨msg, he⟩ := hL.sum_decode_other tag arms j (fun b hb hj => ht ⟨b, hb, hj⟩)
    rw [he] at h; cases h

end Sum

end Jsonrpc.Lawful
end Acp
