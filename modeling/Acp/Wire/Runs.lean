import Acp.Wire.Codec
/-!
# Runs — readers run one after the other

A decoder is a chain of reads in `Except Exn`: a bind, a fold over the fields of a record, a map over the items of an
array.  For each of the three: what a run that returns did, when it escapes, and when two runs have one outcome.
-/
namespace Wire

variable {α β σ : Type} {ι : Type 1}

/-! ## bind -/

theorem bind_ok_inv {x : Except Exn α} {f : α → Except Exn β} {b : β} (h : x >>= f = .ok b) :
    ∃ a, x = .ok a ∧ f a = .ok b := by
  cases x with
  | ok a => exact ⟨a, rfl, h⟩
  | error e => cases h

theorem map_ok_inv {x : Except Exn α} {f : α → β} {b : β} (h : f <$> x = .ok b) : ∃ a, x = .ok a ∧ b = f a := by
  cases x with
  | ok a => exact ⟨a, rfl, (Except.ok.inj h).symm⟩
  | error e => cases h

theorem map_returns {x : Except Exn α} (f : α → β) (h : ∃ a, x = .ok a) : ∃ b, f <$> x = .ok b := by
  obtain ⟨a, rfl⟩ := h
  exact ⟨f a, rfl⟩

theorem escapes_bind {x : Except Exn α} {f : α → Except Exn β} :
    Escapes (x >>= f) ↔ Escapes x ∨ ∃ a, x = .ok a ∧ Escapes (f a) := by
  cases x with
  | ok a =>
    refine ⟨fun h => .inr ⟨a, rfl, h⟩, ?_⟩
    rintro (h | ⟨_, ha, h⟩)
    · exact absurd h (not_escapes_ok a)
    · cases ha; exact h
  | error e =>
    refine ⟨fun ⟨e', he, hc⟩ => .inl ⟨e', by cases he; rfl, hc⟩, ?_⟩
    rintro (⟨e', he, hc⟩ | ⟨_, he, _⟩)
    · exact ⟨e', by cases he; rfl, hc⟩
    · cases he

theorem escapes_map {x : Except Exn α} {f : α → β} : Escapes (f <$> x) ↔ Escapes x := by
  cases x with
  | ok a => exact ⟨fun h => absurd h (not_escapes_ok _), fun h => absurd h (not_escapes_ok a)⟩
  | error e =>
    constructor <;> rintro ⟨e', he, hc⟩ <;> cases he <;> exact ⟨_, rfl, hc⟩

theorem outcome_bind_congr {x x' : Except Exn α} {f f' : α → Except Exn β} (hx : outcome x = outcome x')
    (hf : ∀ a, outcome (f a) = outcome (f' a)) : outcome (x >>= f) = outcome (x' >>= f') := by
  cases x <;> cases x' <;> cases hx
  · rfl
  · exact hf _

theorem outcome_map_congr {x x' : Except Exn α} (f : α → β) (hx : outcome x = outcome x') :
    outcome (f <$> x) = outcome (f <$> x') := by
  cases x <;> cases x' <;> cases hx <;> rfl

/-! ## foldlM -/

section Fold

variable {step step' : σ → ι → Except Exn σ}

theorem foldlM_cons_inv {i : ι} {is : List ι} {s s' : σ} (h : (i :: is).foldlM step s = .ok s') :
    ∃ s₁, step s i = .ok s₁ ∧ is.foldlM step s₁ = .ok s' := by
  rw [List.foldlM_cons] at h
  exact bind_ok_inv h

theorem foldlM_append_inv {is is' : List ι} {s s' : σ} (h : (is ++ is').foldlM step s = .ok s') :
    ∃ s₁, is.foldlM step s = .ok s₁ ∧ is'.foldlM step s₁ = .ok s' := by
  rw [List.foldlM_append] at h
  exact bind_ok_inv h

/-- Every step of a run that returns has returned. -/
theorem foldlM_mem_inv : ∀ (is : List ι) (s s' : σ), is.foldlM step s = .ok s' → ∀ i ∈ is,
    ∃ s₁ s₂, step s₁ i = .ok s₂
  | [], _, _, _, i, hi => by cases hi
  | i' :: is, s, s', h, i, hi => by
    obtain ⟨s₁, h1, h2⟩ := foldlM_cons_inv h
    rcases List.mem_cons.1 hi with rfl | hi
    · exact ⟨s, s₁, h1⟩
    · exact foldlM_mem_inv is s₁ s' h2 i hi

/-- **A run whose every step returns is the fold of what the steps return.** -/
theorem foldlM_ok {g : σ → ι → σ} : ∀ (is : List ι) (s : σ), (∀ i ∈ is, ∀ s, step s i = .ok (g s i)) →
    is.foldlM step s = .ok (is.foldl g s)
  | [], _, _ => rfl
  | i :: is, s, h => by
    rw [List.foldlM_cons, h i List.mem_cons_self s]
    exact foldlM_ok is (g s i) (fun i' hi => h i' (List.mem_cons_of_mem _ hi))

/-- **A run whose every step returns, returns.** -/
theorem foldlM_returns : ∀ (is : List ι) (s : σ), (∀ i ∈ is, ∀ s, ∃ s', step s i = .ok s') →
    ∃ s', is.foldlM step s = .ok s'
  | [], s, _ => ⟨s, rfl⟩
  | i :: is, s, h => by
    obtain ⟨s₁, h1⟩ := h i List.mem_cons_self s
    rw [List.foldlM_cons, h1]
    exact foldlM_returns is s₁ (fun i' hi => h i' (List.mem_cons_of_mem _ hi))

/-- **What every step keeps, a run keeps.** -/
theorem foldlM_invariant {P : σ → Prop} : ∀ (is : List ι) (s s' : σ),
    (∀ i ∈ is, ∀ s s', P s → step s i = .ok s' → P s') → P s → is.foldlM step s = .ok s' → P s'
  | [], s, s', _, hs, h => by cases h; exact hs
  | i :: is, s, s', hstep, hs, h => by
    obtain ⟨s₁, h1, h2⟩ := foldlM_cons_inv h
    exact foldlM_invariant is s₁ s' (fun i' hi => hstep i' (List.mem_cons_of_mem _ hi))
      (hstep i List.mem_cons_self s s₁ hs h1) h2

/-- **A run escapes at the first step that does not return.** -/
theorem escapes_foldlM : ∀ (is : List ι) (s : σ), Escapes (is.foldlM step s) ↔
    ∃ pre i post s₁, is = pre ++ i :: post ∧ pre.foldlM step s = .ok s₁ ∧ Escapes (step s₁ i)
  | [], s => by
    refine ⟨fun h => absurd h (not_escapes_ok s), ?_⟩
    rintro ⟨pre, i, post, _, h, _⟩
    cases pre <;> cases h
  | i :: is, s => by
    rw [List.foldlM_cons, escapes_bind]
    constructor
    · rintro (h | ⟨s₁, h1, h⟩)
      · exact ⟨[], i, is, s, rfl, rfl, h⟩
      · obtain ⟨pre, i', post, s₂, rfl, h2, h3⟩ := (escapes_foldlM is s₁).1 h
        refine ⟨i :: pre, i', post, s₂, rfl, ?_, h3⟩
        rw [List.foldlM_cons, h1]; exact h2
    · rintro ⟨pre, i', post, s₂, he, h2, h3⟩
      cases pre with
      | nil =>
        cases he; cases h2
        exact .inl h3
      | cons p pre =>
        cases he
        obtain ⟨s₁, h1, h2⟩ := foldlM_cons_inv h2
        exact .inr ⟨s₁, h1, (escapes_foldlM _ s₁).2 ⟨pre, i', post, s₂, rfl, h2, h3⟩⟩

theorem outcome_foldlM_congr : ∀ (is : List ι) (s : σ), (∀ i ∈ is, ∀ s, outcome (step s i) = outcome (step' s i)) →
    outcome (is.foldlM step s) = outcome (is.foldlM step' s)
  | [], _, _ => rfl
  | i :: is, s, h => by
    rw [List.foldlM_cons, List.foldlM_cons]
    exact outcome_bind_congr (h i List.mem_cons_self s)
      (fun s₁ => outcome_foldlM_congr is s₁ (fun i' hi => h i' (List.mem_cons_of_mem _ hi)))

end Fold

/-! ## mapM -/

section Map

variable {d : Json → Except Exn α}

theorem mapM_ok {e : β → Json} {g : β → α} : ∀ (bs : List β), (∀ b ∈ bs, d (e b) = .ok (g b)) →
    (bs.map e).mapM d = .ok (bs.map g)
  | [], _ => rfl
  | b :: bs, h => by
    rw [List.map_cons, List.mapM_cons, h b List.mem_cons_self,
      mapM_ok bs (fun b' hb => h b' (List.mem_cons_of_mem _ hb))]
    rfl

theorem mapM_returns : ∀ (xs : List Json), (∀ x ∈ xs, ∃ a, d x = .ok a) → ∃ as, xs.mapM d = .ok as
  | [], _ => ⟨[], rfl⟩
  | x :: xs, h => by
    obtain ⟨a, ha⟩ := h x List.mem_cons_self
    obtain ⟨as, has⟩ := mapM_returns xs (fun x' hx => h x' (List.mem_cons_of_mem _ hx))
    rw [List.mapM_cons, ha, has]
    exact ⟨a :: as, rfl⟩

theorem mapM_cons_inv {x : Json} {xs : List Json} {as : List α} (h : (x :: xs).mapM d = .ok as) :
    ∃ a as', d x = .ok a ∧ xs.mapM d = .ok as' ∧ as = a :: as' := by
  rw [List.mapM_cons] at h
  obtain ⟨a, ha, h⟩ := bind_ok_inv h
  obtain ⟨as', has, h⟩ := bind_ok_inv h
  cases h
  exact ⟨a, as', ha, has, rfl⟩

/-- **An array is read item by item, in order.** -/
theorem mapM_ok_inv : ∀ (xs : List Json) (as : List α), xs.mapM d = .ok as →
    List.Forall₂ (fun x a => d x = .ok a) xs as
  | [], as, h => by cases h; exact .nil
  | x :: xs, as, h => by
    obtain ⟨a, as', ha, has, rfl⟩ := mapM_cons_inv h
    exact .cons ha (mapM_ok_inv xs as' has)

theorem escapes_mapM : ∀ (xs : List Json), Escapes (xs.mapM d) ↔
    ∃ pre x post as, xs = pre ++ x :: post ∧ pre.mapM d = .ok as ∧ Escapes (d x)
  | [] => by
    refine ⟨fun h => absurd h (not_escapes_ok []), ?_⟩
    rintro ⟨pre, x, post, _, h, _⟩
    cases pre <;> cases h
  | x :: xs => by
    rw [List.mapM_cons, escapes_bind]
    constructor
    · rintro (h | ⟨a, h1, h⟩)
      · exact ⟨[], x, xs, [], rfl, rfl, h⟩
      · rcases escapes_bind.1 h with h | ⟨as, _, h⟩
        · obtain ⟨pre, x', post, as, rfl, h2, h3⟩ := (escapes_mapM xs).1 h
          refine ⟨x :: pre, x', post, a :: as, rfl, ?_, h3⟩
          rw [List.mapM_cons, h1, h2]; rfl
        · exact absurd h (not_escapes_ok _)
    · rintro ⟨pre, x', post, as, he, h2, h3⟩
      cases pre with
      | nil => cases he; exact .inl h3
      | cons p pre =>
        cases he
        obtain ⟨a, as', h1, h4, rfl⟩ := mapM_cons_inv h2
        exact .inr ⟨a, h1, escapes_bind.2 (.inl ((escapes_mapM _).2 ⟨pre, x', post, as', rfl, h4, h3⟩))⟩

/-- **An item that is read alike does not matter.** -/
theorem outcome_mapM_modify {f : Json → Json} : ∀ (xs : List Json) {i : Nat} {y : Json}, xs[i]? = some y →
    outcome (d (f y)) = outcome (d y) → outcome ((xs.modify i f).mapM d) = outcome (xs.mapM d)
  | [], _, _, hy, _ => by simp at hy
  | x :: xs, 0, y, hy, h => by
    obtain rfl : x = y := by simpa using hy
    rw [List.modify_zero_cons, List.mapM_cons, List.mapM_cons]
    exact outcome_bind_congr h (fun _ => rfl)
  | x :: xs, i + 1, y, hy, h => by
    have hi : xs[i]? = some y := by simpa using hy
    rw [List.modify_succ_cons, List.mapM_cons, List.mapM_cons]
    exact outcome_bind_congr rfl (fun _ => outcome_bind_congr (outcome_mapM_modify xs hi h) (fun _ => rfl))

end Map

end Wire
