import Acp.Wire.Json
/-!
# Overlay — the members of one object put over those of another

Where both have a key the upper one's member stands (`find?_overlay`), so that laying objects one over the other is
associative, and a pile of them is one object (`foldl_overlay`).
-/
namespace Wire

namespace FinMap

variable {κ V : Type} [DecidableEq κ]

/-- The members of `p` over those of `m`. -/
def overlay (m p : FinMap κ V) : FinMap κ V :=
  ⟨m.keys ∪ p.keys, fun k =>
    if h : k.1 ∈ p.keys then p.val ⟨k.1, h⟩ else m.val ⟨k.1, (Finset.mem_union.1 k.2).resolve_right h⟩⟩

theorem find?_overlay (m p : FinMap κ V) (k : κ) : (m.overlay p).find? k = (p.find? k).or (m.find? k) := by
  unfold find? overlay
  by_cases hp : k ∈ p.keys
  · simp [hp]
  · by_cases hm : k ∈ m.keys <;> simp [hp, hm]

theorem overlay_assoc (m p q : FinMap κ V) : (m.overlay p).overlay q = m.overlay (p.overlay q) := by
  refine ext_find? (fun k => ?_)
  rw [find?_overlay, find?_overlay, find?_overlay, find?_overlay, Option.or_assoc]

/-- **A pile of maps is one map**, and it does not matter which of them are put together first. -/
theorem foldl_overlay (m p : FinMap κ V) : ∀ qs : List (FinMap κ V),
    m.overlay (qs.foldl overlay p) = qs.foldl overlay (m.overlay p)
  | [] => rfl
  | q :: qs => by rw [List.foldl_cons, List.foldl_cons, foldl_overlay m (p.overlay q) qs, overlay_assoc]

end FinMap

namespace Json

/-- The same of two objects. -/
def overlay : Json → Json → Json
  | .obj o, .obj p => .obj (o.overlay p)
  | j,      _      => j

theorem foldl_overlay_obj (o : Members) (ps : List Members) :
    (ps.map Json.obj).foldl overlay (.obj o) = .obj (ps.foldl FinMap.overlay o) := by
  rw [List.foldl_map]
  exact List.foldl_hom Json.obj (fun _ _ => rfl)

end Json

end Wire
