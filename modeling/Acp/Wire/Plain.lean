import Acp.Wire.Rpc
/-!
# Plain — an engine that keeps the laws

`plain` counts its ids and keeps its packets as they are.  It does what `Rpc.Lawful` asks for (`plain_lawful`): the laws
can be met, and a run of two hosts can be computed.
-/
namespace Wire

universe u

/-- What a frame holds. -/
inductive Packet where
  | call (c : Call Nat)
  | note (n : Notification)
  | completed (c : Completed Nat Unit)

/-- The next id, and the ids that wait for an answer, which come before it. -/
structure PlainEngine where
  next    : Nat
  pending : Finset Nat
  fresh   : ∀ i ∈ pending, i < next

namespace PlainEngine

def request (e : PlainEngine) : PlainEngine where
  next    := e.next + 1
  pending := insert e.next e.pending
  fresh i hi := by
    rcases Finset.mem_insert.1 hi with rfl | hi
    · exact Nat.lt_succ_self _
    · exact Nat.lt_succ_of_lt (e.fresh i hi)

def complete (e : PlainEngine) (i : Nat) : PlainEngine where
  next    := e.next
  pending := e.pending.erase i
  fresh j hj := e.fresh j (Finset.mem_of_mem_erase hj)

def step (e : PlainEngine) : Packet → PlainEngine × Effects Nat Unit Packet
  | .call c      => (e, { calls := [c] })
  | .note n      => (e, { notifications := [n] })
  | .completed c => if c.id ∈ e.pending then (e.complete c.id, { completed := [c] }) else (e, {})

end PlainEngine

variable {T : Table.{u}} {σ : Type}

def plainHandle (rs : List (Route T σ)) (s : σ) (c : Call Nat) : σ × Option Packet :=
  match rs.find? (fun r => r.callName? == some c.method) with
  | some (.on m h)  => match (T.params m).decode c.params with
    | .ok v    => match (h s v).2 with
      | some r => ((h s v).1, some (.completed ⟨c.id, .ok ((T.result m).encode r)⟩))
      | none   => ((h s v).1, some (.completed ⟨c.id, .error ()⟩))
    | .error _ => (s, some (.completed ⟨c.id, .error ()⟩))
  | some (.defer _) => (s, none)
  | _               => (s, some (.completed ⟨c.id, .error ()⟩))

def plainHandleNote (rs : List (Route T σ)) (s : σ) (n : Notification) : σ :=
  match rs.find? (fun r => r.noteName? == some n.method) with
  | some (.note m h) => match (T.body m).decode n.params with
    | .ok b    => h s b
    | .error _ => s
  | _                => s

def plain (T : Table.{u}) : Rpc T Nat Unit where
  Engine     := PlainEngine
  Frame      := Packet
  start      := ⟨0, ∅, fun _ hi => absurd hi (Finset.notMem_empty _)⟩
  pending    := PlainEngine.pending
  request    := fun e m j => (e.next, e.request, { send := [.call ⟨e.next, m, j⟩] })
  notify     := fun m j => .note ⟨m, j⟩
  reply      := fun i j => .completed ⟨i, .ok j⟩
  refuse     := fun i => .completed ⟨i, .error ()⟩
  step       := PlainEngine.step
  handle     := plainHandle
  handleNote := plainHandleNote
  result     := fun c p => match p.outcome with
    | .ok j    => (c.decode j).mapError (fun _ => ())
    | .error e => .error e

theorem plain_completes (i : Nat) (o : Except Unit Json) : (plain T).Completes (.completed ⟨i, o⟩) ⟨i, o⟩ := by
  intro e (hi : i ∈ e.pending)
  have hstep : (plain T).step e (.completed ⟨i, o⟩) = (e.complete i, { completed := [⟨i, o⟩] }) := if_pos hi
  rw [hstep]
  exact ⟨rfl, rfl⟩

theorem plain_lawful (T : Table.{u}) : (plain T).Lawful where
  start_pending := rfl
  request_fresh e _ _ hi := Nat.lt_irrefl _ (e.fresh _ hi)
  request_pending _ _ _ := rfl
  request_send _ _ _ _ := ⟨_, rfl, fun _ => ⟨rfl, rfl⟩⟩
  notify _ _ _ _ := ⟨rfl, rfl⟩
  reply i j _ := plain_completes i (.ok j)
  refuse i := ⟨(), plain_completes i _⟩
  handle_on rs hn c h hm s i j v r hv hr _ := by
    refine ⟨_, ?_, plain_completes i _⟩
    show plainHandle rs s _ = _
    unfold plainHandle
    rw [find?_name hn hm rfl]
    simp only [hv, hr]
    rfl
  handle_throw rs hn c h hm s i j v hv hr := by
    refine ⟨(), _, ?_, plain_completes i _⟩
    show plainHandle rs s _ = _
    unfold plainHandle
    rw [find?_name hn hm rfl]
    simp only [hv, hr]
    rfl
  handle_defer rs hn c hr s i j := by
    show plainHandle rs s _ = _
    unfold plainHandle
    rw [find?_name hn hr rfl]
    rfl
  handle_other rs m hr s i j := by
    refine ⟨(), _, ?_, plain_completes i _⟩
    show plainHandle rs s _ = _
    unfold plainHandle
    rw [find?_noName hr]
    rfl
  note_on rs hn n h hr s j b hb := by
    show plainHandleNote rs s _ = _
    unfold plainHandleNote
    rw [find?_name hn hr rfl]
    simp only [hb]
  note_other rs m hr s j := by
    show plainHandleNote rs s _ = _
    unfold plainHandleNote
    rw [find?_noName hr]
  result_ok c i j v hv := by
    show (c.decode j).mapError _ = _
    rw [hv]
    rfl
  result_error _ _ _ := rfl

end Wire
