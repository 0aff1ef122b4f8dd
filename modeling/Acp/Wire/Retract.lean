import Acp.Wire.Runs
/-!
# Retract — codecs that keep a normal form

A codec need not give back every value it writes: some values have two forms in memory and one on the wire.  `Retract`
says which form comes back: `norm` of it, and nothing a decoder returns is in another form.
-/
namespace Wire

/-- **Writing and reading `c` normalises**, for the values that are `ok`. -/
structure Retract {α : Type} (c : Codec α) (ok : α → Prop) (norm : α → α) : Prop where
  loop  : ∀ v, ok v → c.decode (c.encode v) = .ok (norm v)
  lands : ∀ j v, c.decode j = .ok v → ok v ∧ norm v = v

namespace Retract

variable {α : Type} {c : Codec α} {ok : α → Prop} {norm : α → α}

/-- **What was decoded is given back as it is.** -/
theorem stable (h : Retract c ok norm) {j : Json} {v : α} (hj : c.decode j = .ok v) :
    c.decode (c.encode v) = .ok v := by
  obtain ⟨hv, hn⟩ := h.lands j v hj
  rw [h.loop v hv, hn]

/-- **Two values with one encoding have one normal form.** -/
theorem norm_eq_of_encode_eq (h : Retract c ok norm) {v w : α} (hv : ok v) (hw : ok w)
    (he : c.encode v = c.encode w) : norm v = norm w := by
  have h1 := h.loop v hv
  rw [he, h.loop w hw] at h1
  exact (Except.ok.inj h1).symm

/-- **A codec of wrapped values**, which are on the wire what they are bare, normalises what it wraps. -/
theorem wrap {β : Type} {c' : Codec β} (h : Retract c ok norm) (mk : α → β) (get : β → α)
    (hdecode : ∀ j, c'.decode j = mk <$> c.decode j) (hencode : ∀ b, c'.encode b = c.encode (get b))
    (hget : ∀ a, get (mk a) = a) : Retract c' (fun b => ok (get b)) (fun b => mk (norm (get b))) where
  loop b hb := by
    rw [hdecode, hencode, h.loop (get b) hb]; rfl
  lands j b hb := by
    rw [hdecode] at hb
    obtain ⟨a, ha, rfl⟩ := map_ok_inv hb
    obtain ⟨hok, hnorm⟩ := h.lands j a ha
    rw [hget]
    exact ⟨hok, congrArg mk hnorm⟩

end Retract
end Wire
