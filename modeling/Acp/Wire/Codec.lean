import Acp.Wire.Json
/-!
# Codec — codecs, and the pieces a record or a tagged sum is put together from

A `Codec` is the pair of functions a protocol type is written and read by.  `FieldSpec` and `Arm` are what a record or a
tagged sum is *declared* with (a key and the member it fills, a label and the alternative it picks); what they do is
up to the library that interprets them.  `Relays` is how a combinator hands on the outcome of the codec inside it.
-/
namespace Wire

structure Codec (α : Type) where
  encode : α → Json
  decode : Json → Except Exn α

/-- A pointer to member `A T::*`. -/
structure Member (T A : Type) where
  get : T → A
  set : T → A → T

/-- One alternative of a sum. -/
structure Alt (S A : Type) where
  inj  : A → S
  proj : S → Option A

inductive FieldSpec (T : Type) : Type 1 where
  | required {A : Type} (key : String) (mem : Member T A) (c : Codec A)
  | optional {A : Type} (key : String) (mem : Member T (Option A)) (c : Codec A)
  | defaulted {A : Type} (key : String) (mem : Member T A) (dflt : A) (c : Codec A)
  | meta_ (key : String) (mem : Member T Json)

def FieldSpec.key {T : Type} : FieldSpec T → String
  | .required k _ _    => k
  | .optional k _ _    => k
  | .defaulted k _ _ _ => k
  | .meta_ k _         => k

/-- The member of `w`, put into `t`. -/
def FieldSpec.copy {T : Type} (f : FieldSpec T) (w t : T) : T :=
  match f with
  | .required _ m _    => m.set t (m.get w)
  | .optional _ m _    => m.set t (m.get w)
  | .defaulted _ m _ _ => m.set t (m.get w)
  | .meta_ _ m         => m.set t (m.get w)

/-- `t'` is `t` with some value in the field's member. -/
def FieldSpec.Sets {T : Type} (f : FieldSpec T) (t t' : T) : Prop :=
  match f with
  | .required _ m _    => ∃ a, t' = m.set t a
  | .optional _ m _    => ∃ a, t' = m.set t a
  | .defaulted _ m _ _ => ∃ a, t' = m.set t a
  | .meta_ _ m         => ∃ a, t' = m.set t a

/-- The field reads the member under `k` with the codec `c`. -/
inductive FieldSpec.Via {T : Type} : FieldSpec T → String → {A : Type} → Codec A → Prop
  | required {A : Type} (k : String) (m : Member T A) (c : Codec A) : Via (.required k m c) k c
  | optional {A : Type} (k : String) (m : Member T (Option A)) (c : Codec A) : Via (.optional k m c) k c
  | defaulted {A : Type} (k : String) (m : Member T A) (d : A) (c : Codec A) : Via (.defaulted k m d c) k c

structure Arm (S : Type) : Type 1 where
  {carrier : Type}
  label : String
  alt   : Alt S carrier
  codec : Codec carrier

def Arm.holds {S : Type} (b : Arm S) (s : S) : Bool := (b.alt.proj s).isSome

theorem Arm.find?_label {S : Type} : ∀ (arms : List (Arm S)) {b : Arm S}, (arms.map Arm.label).Nodup → b ∈ arms →
    arms.find? (fun b' => b'.label == b.label) = some b
  | [], _, _, h => by cases h
  | a :: arms, b, hn, h => by
    rw [List.map_cons, List.nodup_cons] at hn
    rcases List.mem_cons.1 h with rfl | h
    · rw [List.find?_cons_of_pos (by simp)]
    · have hne : a.label ≠ b.label := fun he => hn.1 (he ▸ List.mem_map_of_mem h)
      rw [List.find?_cons_of_neg (by simpa using hne)]
      exact Arm.find?_label arms hn.2 h

/-- An exception on its way out stays what it is; a `codecError` may be reworded. -/
def Exn.SameKind (e e' : Exn) : Prop := e' = e ∨ (e.isCodecError = true ∧ e'.isCodecError = true)

/-- **`r'` hands on `r`**: `f` of its value, or an exception of its kind. -/
def Relays {α β : Type} (r : Except Exn α) (f : α → β) (r' : Except Exn β) : Prop :=
  match r with
  | .ok a    => r' = .ok (f a)
  | .error e => ∃ e', r' = .error e' ∧ e.SameKind e'

/-- The value of an outcome, if it is one: two decodes agree when these do. -/
def outcome {α : Type} : Except Exn α → Option α
  | .ok a    => some a
  | .error _ => none

/-- **The outcome is an exception other than the library's own.** -/
def Escapes {α : Type} (r : Except Exn α) : Prop := ∃ e, r = .error e ∧ e.isCodecError = false

section Relays

variable {α β : Type} {r : Except Exn α} {f : α → β} {r' : Except Exn β}

theorem Relays.ok {a : α} (h : Relays r f r') (hr : r = .ok a) : r' = .ok (f a) := by
  subst hr; exact h

theorem Relays.ok_inv {b : β} (h : Relays r f r') (hb : r' = .ok b) : ∃ a, r = .ok a ∧ b = f a := by
  cases r with
  | ok a => exact ⟨a, rfl, Except.ok.inj (hb.symm.trans h)⟩
  | error e =>
    obtain ⟨e', he, _⟩ := h
    rw [he] at hb; cases hb

theorem Relays.of_map {γ : Type} {g : γ → α} {x : Except Exn γ} (h : Relays (g <$> x) f r') :
    Relays x (fun c => f (g c)) r' := by
  cases x with
  | ok c => exact h
  | error e => exact h

theorem Relays.outcome_eq (h : Relays r f r') : outcome r' = (outcome r).map f := by
  cases r with
  | ok a => rw [h.ok rfl]; rfl
  | error e =>
    obtain ⟨e', he, _⟩ := h
    rw [he]; rfl

theorem Relays.escapes_iff (h : Relays r f r') : Escapes r' ↔ Escapes r := by
  cases r with
  | ok a =>
    rw [h.ok rfl]
    constructor <;> rintro ⟨e, he, _⟩ <;> cases he
  | error e =>
    obtain ⟨e', he, hk⟩ := h
    rw [he]
    have hc : e'.isCodecError = e.isCodecError := by
      rcases hk with rfl | ⟨h1, h2⟩
      · rfl
      · rw [h1, h2]
    constructor
    · rintro ⟨x, hx, hxc⟩
      cases hx
      exact ⟨e, rfl, hc ▸ hxc⟩
    · rintro ⟨x, hx, hxc⟩
      cases hx
      exact ⟨e', rfl, hc.symm ▸ hxc⟩

end Relays

theorem not_escapes_ok {α : Type} (a : α) : ¬ Escapes (.ok a : Except Exn α) := by
  rintro ⟨e, he, _⟩; cases he

theorem not_escapes_codecError {α : Type} (s : String) : ¬ Escapes (.error (.codecError s) : Except Exn α) := by
  rintro ⟨e, he, hc⟩
  cases he
  cases hc

end Wire
