import Mathlib.Data.Finset.Basic
import Mathlib.Data.Finset.Insert
import Mathlib.Data.Fintype.Basic
/-!
# FinMap — finite maps, equal when their lookups are

A map is a finite set of keys and one value for each of them, so a key cannot stand twice and two maps with the same
lookups are the same map (`FinMap.ext_find?`).  The value family is a function, not a list of pairs, so that an
inductive type can have a constructor over maps into itself.
-/
namespace Wire

structure FinMap (κ V : Type) where
  keys : Finset κ
  val  : keys → V

namespace FinMap

variable {κ V W : Type}

def map (f : V → W) (m : FinMap κ V) : FinMap κ W := ⟨m.keys, fun k => f (m.val k)⟩

theorem map_map {X : Type} (g : W → X) (f : V → W) (m : FinMap κ V) :
    (m.map f).map g = m.map (fun v => g (f v)) := rfl

variable [DecidableEq κ]

def find? (m : FinMap κ V) (k : κ) : Option V :=
  if h : k ∈ m.keys then some (m.val ⟨k, h⟩) else none

instance : EmptyCollection (FinMap κ V) := ⟨⟨∅, fun k => absurd k.2 (Finset.notMem_empty _)⟩⟩

def isEmpty (m : FinMap κ V) : Bool := decide (m.keys = ∅)

def insert (m : FinMap κ V) (k : κ) (v : V) : FinMap κ V :=
  ⟨Insert.insert k m.keys,
    fun k' => if h : k'.1 = k then v else m.val ⟨k'.1, (Finset.mem_insert.1 k'.2).resolve_left h⟩⟩

def erase (m : FinMap κ V) (k : κ) : FinMap κ V :=
  ⟨m.keys.erase k, fun k' => m.val ⟨k'.1, Finset.mem_of_mem_erase k'.2⟩⟩

/-- The key gets the value, or is taken out. -/
def put (m : FinMap κ V) (k : κ) : Option V → FinMap κ V
  | some v => m.insert k v
  | none   => m.erase k

/-- The value under the key, if there is one, becomes `f` of it. -/
def adjust (m : FinMap κ V) (k : κ) (f : V → V) : FinMap κ V :=
  ⟨m.keys, fun k' => if k'.1 = k then f (m.val k') else m.val k'⟩

theorem mem_keys_iff (m : FinMap κ V) (k : κ) : k ∈ m.keys ↔ ∃ v, m.find? k = some v := by
  unfold find?
  by_cases h : k ∈ m.keys <;> simp [h]

theorem find?_val (m : FinMap κ V) (k : m.keys) : m.find? k.1 = some (m.val k) := by
  unfold find?
  rw [dif_pos k.2]

@[simp] theorem find?_empty (k : κ) : (∅ : FinMap κ V).find? k = none := by
  unfold find?
  exact dif_neg (Finset.notMem_empty k)

@[simp] theorem find?_insert_self (m : FinMap κ V) (k : κ) (v : V) : (m.insert k v).find? k = some v := by
  simp [find?, insert]

theorem find?_insert_of_ne (m : FinMap κ V) {k k' : κ} (v : V) (h : k' ≠ k) :
    (m.insert k v).find? k' = m.find? k' := by
  unfold find? insert
  by_cases hk : k' ∈ m.keys <;> simp [hk, h]

theorem find?_insert (m : FinMap κ V) (k k' : κ) (v : V) :
    (m.insert k v).find? k' = if k' = k then some v else m.find? k' := by
  by_cases h : k' = k
  · subst h; simp
  · rw [find?_insert_of_ne m v h, if_neg h]

theorem find?_erase_of_ne (m : FinMap κ V) {k k' : κ} (h : k' ≠ k) : (m.erase k).find? k' = m.find? k' := by
  unfold find? erase
  by_cases hk : k' ∈ m.keys <;> simp [hk, h]

@[simp] theorem find?_erase_self (m : FinMap κ V) (k : κ) : (m.erase k).find? k = none := by
  simp [find?, erase]

theorem find?_put_of_ne (m : FinMap κ V) {k k' : κ} (x : Option V) (h : k' ≠ k) :
    (m.put k x).find? k' = m.find? k' := by
  cases x with
  | some v => exact find?_insert_of_ne m v h
  | none => exact find?_erase_of_ne m h

theorem find?_adjust (m : FinMap κ V) (k k' : κ) (f : V → V) :
    (m.adjust k f).find? k' = if k' = k then (m.find? k').map f else m.find? k' := by
  unfold find? adjust
  by_cases hk : k' ∈ m.keys <;> by_cases he : k' = k <;> simp [hk, he]

@[simp] theorem find?_map (f : V → W) (m : FinMap κ V) (k : κ) : (m.map f).find? k = (m.find? k).map f := by
  unfold find? map
  by_cases hk : k ∈ m.keys <;> simp [hk]

/-- **Two maps with the same lookups are one map.** -/
theorem ext_find? {m m' : FinMap κ V} (h : ∀ k, m.find? k = m'.find? k) : m = m' := by
  have hkeys : m.keys = m'.keys := Finset.ext (fun k => by rw [mem_keys_iff, mem_keys_iff, h])
  obtain ⟨ks, f⟩ := m
  obtain ⟨ks', f'⟩ := m'
  obtain rfl : ks = ks' := hkeys
  have hf : f = f' := funext (fun k => by
    have := h k.1
    rw [find?_val ⟨ks, f⟩ k, find?_val ⟨ks, f'⟩ k] at this
    exact Option.some.inj this)
  rw [hf]

/-- **A key that was put in can be taken out again.** -/
theorem erase_insert {m : FinMap κ V} {k : κ} (h : m.find? k = none) (v : V) : (m.insert k v).erase k = m := by
  refine ext_find? (fun k' => ?_)
  by_cases hk : k' = k
  · subst hk; rw [find?_erase_self, h]
  · rw [find?_erase_of_ne _ hk, find?_insert_of_ne m v hk]

theorem insert_erase {m : FinMap κ V} {k : κ} {v : V} (h : m.find? k = some v) : (m.erase k).insert k v = m := by
  refine ext_find? (fun k' => ?_)
  by_cases hk : k' = k
  · subst hk; rw [find?_insert_self, h]
  · rw [find?_insert_of_ne _ v hk, find?_erase_of_ne m hk]

theorem insert_insert (m : FinMap κ V) (k : κ) (v w : V) : (m.insert k v).insert k w = m.insert k w := by
  refine ext_find? (fun k' => ?_)
  by_cases hk : k' = k
  · subst hk; rw [find?_insert_self, find?_insert_self]
  · rw [find?_insert_of_ne _ w hk, find?_insert_of_ne m v hk, find?_insert_of_ne m w hk]

theorem insert_of_erase (m : FinMap κ V) (k : κ) (v : V) : (m.erase k).insert k v = m.insert k v := by
  refine ext_find? (fun k' => ?_)
  by_cases hk : k' = k
  · subst hk; rw [find?_insert_self, find?_insert_self]
  · rw [find?_insert_of_ne _ v hk, find?_erase_of_ne m hk, find?_insert_of_ne m v hk]

/-- A key that is given what it has. -/
theorem put_find? (m : FinMap κ V) (k : κ) : m.put k (m.find? k) = m := by
  cases h : m.find? k with
  | some v => exact (insert_of_erase m k v).symm.trans (insert_erase h)
  | none =>
    refine ext_find? (fun k' => ?_)
    by_cases hk : k' = k
    · subst hk; exact (find?_erase_self m k').trans h.symm
    · exact find?_erase_of_ne m hk

theorem isEmpty_iff (m : FinMap κ V) : m.isEmpty = true ↔ m = ∅ := by
  constructor
  · intro h
    refine ext_find? (fun k => ?_)
    have hk : m.keys = ∅ := of_decide_eq_true h
    rw [find?_empty]
    unfold find?
    rw [dif_neg (by rw [hk]; exact Finset.notMem_empty k)]
  · rintro rfl; rfl

theorem isEmpty_insert (m : FinMap κ V) (k : κ) (v : V) : (m.insert k v).isEmpty = false := by
  simp [isEmpty, insert]

end FinMap
end Wire
