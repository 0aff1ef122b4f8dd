import Acp.Wire.Json
/-!
# Path — one object somewhere inside a value, and an edit of one of its members

A path goes into members and items.  `editAt` puts one member of the object a path ends at, or takes it out, and leaves
everything else where it was: no value changes its kind, and only the first step of the path is seen from outside.
-/
namespace Wire

inductive Step where
  | key (k : String)
  | item (i : Nat)
  deriving DecidableEq, Repr

abbrev JsonPath := List Step

namespace Json

def get? : JsonPath → Json → Option Json
  | [],           j       => some j
  | .key k :: p,  j       => (j.find? k).bind (get? p)
  | .item i :: p, .arr xs => xs[i]?.bind (get? p)
  | .item _ :: _, _       => none

/-- Member `k` of the object the path ends at becomes `x`; `none` takes it out. -/
def editAt (k : String) (x : Option Json) : JsonPath → Json → Json
  | [],            .obj o  => .obj (o.put k x)
  | .key k' :: p,  .obj o  => .obj (o.adjust k' (editAt k x p))
  | .item i :: p,  .arr xs => .arr (xs.modify i (editAt k x p))
  | _,             j       => j

variable (k : String) (x : Option Json)

@[simp] theorem editAt_nil_obj (o : Members) : editAt k x [] (.obj o) = .obj (o.put k x) := rfl

@[simp] theorem editAt_key_obj (k' : String) (p : JsonPath) (o : Members) :
    editAt k x (.key k' :: p) (.obj o) = .obj (o.adjust k' (editAt k x p)) := rfl

@[simp] theorem editAt_item_arr (i : Nat) (p : JsonPath) (xs : List Json) :
    editAt k x (.item i :: p) (.arr xs) = .arr (xs.modify i (editAt k x p)) := rfl

/-- **An edit keeps what kind of value it is.** -/
theorem editAt_kind : ∀ (p : JsonPath) (j : Json), (∃ o o', j = .obj o ∧ editAt k x p j = .obj o') ∨
    (∃ xs xs', j = .arr xs ∧ editAt k x p j = .arr xs') ∨ editAt k x p j = j := by
  intro p j
  cases j with
  | obj o =>
    rcases p with _ | ⟨_ | _, p⟩
    · exact .inl ⟨o, _, rfl, rfl⟩
    · exact .inl ⟨o, _, rfl, rfl⟩
    · exact .inr (.inr rfl)
  | arr xs =>
    rcases p with _ | ⟨_ | _, p⟩
    · exact .inr (.inr rfl)
    · exact .inr (.inr rfl)
    · exact .inr (.inl ⟨xs, _, rfl, rfl⟩)
  | _ => rcases p with _ | ⟨_ | _, p⟩ <;> exact .inr (.inr rfl)

@[simp] theorem isObject_editAt (p : JsonPath) (j : Json) : (editAt k x p j).isObject = j.isObject := by
  rcases editAt_kind k x p j with ⟨o, o', rfl, h⟩ | ⟨xs, xs', rfl, h⟩ | h <;> rw [h] <;> rfl

theorem editAt_ne_null {p : JsonPath} {j : Json} (hj : j ≠ .null) : editAt k x p j ≠ .null := by
  rcases editAt_kind k x p j with ⟨o, o', rfl, h⟩ | ⟨xs, xs', rfl, h⟩ | h
  · rw [h]; intro hn; cases hn
  · rw [h]; intro hn; cases hn
  · rw [h]; exact hj

/-- The first step to what is edited. -/
def firstStep (p : JsonPath) : Step := p.headD (.key k)

/-- **Only the member on the way is another one.** -/
theorem find?_editAt_of_ne {p : JsonPath} {j : Json} {k' : String} (h : firstStep k p ≠ .key k') :
    (editAt k x p j).find? k' = j.find? k' := by
  cases j with
  | obj o =>
    rcases p with _ | ⟨k₁ | _, p⟩
    · exact FinMap.find?_put_of_ne o x (fun he => h (by rw [he]; rfl))
    · have hne : k' ≠ k₁ := fun he => h (by rw [he]; rfl)
      rw [editAt_key_obj, find?_obj, FinMap.find?_adjust, if_neg hne, find?_obj]
    · rfl
  | _ => rcases p with _ | ⟨_ | _, p⟩ <;> rfl

theorem find?_editAt_self (p : JsonPath) (j : Json) (k' : String) :
    (editAt k x (.key k' :: p) j).find? k' = (j.find? k').map (editAt k x p) := by
  cases j with
  | obj o => rw [editAt_key_obj, find?_obj, FinMap.find?_adjust, if_pos rfl, find?_obj]
  | _ => rfl

/-- **A member on the way is still there**, and of the same kind. -/
theorem find?_editAt {p : JsonPath} {j : Json} {k' : String} (h : p = [] → k' ≠ k) :
    (editAt k x p j).find? k' = j.find? k' ∨
      ∃ y p', p = .key k' :: p' ∧ j.find? k' = some y ∧ (editAt k x p j).find? k' = some (editAt k x p' y) := by
  by_cases hs : firstStep k p = .key k'
  · rcases p with _ | ⟨s, p⟩
    · exact absurd (Step.key.inj hs).symm (h rfl)
    · obtain rfl : s = .key k' := hs
      have he := find?_editAt_self k x p j k'
      cases hy : j.find? k' with
      | none => exact .inl (by rw [he, hy]; rfl)
      | some y => exact .inr ⟨y, p, rfl, rfl, by rw [he, hy]; rfl⟩
  · exact .inl (find?_editAt_of_ne k x hs)

theorem contains_editAt {p : JsonPath} {j : Json} {k' : String} (h : p = [] → k' ≠ k) :
    (editAt k x p j).contains k' = j.contains k' := by
  unfold contains
  rcases find?_editAt k x h (j := j) with he | ⟨y, p', -, hy, he⟩
  · rw [he]
  · rw [he, hy]; rfl

/-- A string is not on the way to an object. -/
theorem firstStep_ne_of_str {p : JsonPath} {j : Json} {o : Members} {k' : String} (hp : get? p j = some (.obj o))
    (hk : p = [] → k' ≠ k) (hs : ∀ y, j.find? k' = some y → ∃ s, y = .str s) : firstStep k p ≠ .key k' := by
  rcases p with _ | ⟨s, p⟩
  · exact fun he => hk rfl (Step.key.inj he).symm
  · intro he
    obtain rfl : s = .key k' := he
    cases hy : j.find? k' with
    | none =>
      have hn : (j.find? k').bind (get? p) = some (.obj o) := hp
      rw [hy] at hn; cases hn
    | some y =>
      obtain ⟨s, rfl⟩ := hs y hy
      have hn : (j.find? k').bind (get? p) = some (.obj o) := hp
      rw [hy] at hn
      rcases p with _ | ⟨_ | _, p⟩ <;> cases hn

end Json

end Wire
