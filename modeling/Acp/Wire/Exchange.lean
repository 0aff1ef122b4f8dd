import Acp.Wire.Codec
import Mathlib.Data.List.Perm.Basic
import Mathlib.Data.List.Forall2
/-!
# Exchange — two peers that call each other over two queues

A `Table` is what the peers can say: calls, which are answered, and notes, which are not.  A peer speaks, or hears the
first message of its queue and reacts to it as its router says; a `Talk` is any order the two do so in.  What is heard
is what was said as its codec takes it (`Codec.Arrives`).  A call is answered with a result or an error, by a handler at
once, or by the host later.  `Accounted` holds in every talk: a message is heard once, in its order, and a call that is
out is on its way, parked with the peer, or on its way back.
-/
namespace Wire

universe u

/-- `w` is read where `v` was written. -/
def Codec.Arrives {α : Type} (c : Codec α) (v w : α) : Prop := c.decode (c.encode v) = .ok w

/-- What is written can be put in a frame, and is read as some value. -/
def Codec.Sendable {α : Type} (c : Codec α) (v : α) : Prop := (c.encode v).isText = true ∧ ∃ w, c.Arrives v w

theorem Codec.Arrives.unique {α : Type} {c : Codec α} {v w w' : α} (h : c.Arrives v w) (h' : c.Arrives v w') :
    w = w' := Except.ok.inj (h.symm.trans h')

/-! ## What can be said -/

structure Table : Type (u + 1) where
  Call     : Type u
  Note     : Type u
  callName : Call → String
  noteName : Note → String
  Params   : Call → Type
  Result   : Call → Type
  Body     : Note → Type
  params   : (c : Call) → Codec (Params c)
  result   : (c : Call) → Codec (Result c)
  body     : (n : Note) → Codec (Body n)
  callName_inj : ∀ c c', callName c = callName c' → c = c'
  noteName_inj : ∀ n n', noteName n = noteName n' → n = n'

section Messages

variable (T : Table.{u}) (Id E : Type)

/-- A call, made under an id. -/
structure Ask where
  id     : Id
  call   : T.Call
  params : T.Params call

/-- What a host does with its end. -/
inductive Act where
  | request (c : T.Call) (v : T.Params c)
  | notify (n : T.Note) (b : T.Body n)
  | deliver
  | reply (id : Id) (c : T.Call) (r : T.Result c)
  | refuse (id : Id)

/-- What one end tells the other.  An answer knows the call it answers, and whether the host gave it late. -/
inductive Msg where
  | ask (a : Ask T Id)
  | tell (n : T.Note) (b : T.Body n)
  | answer (a : Ask T Id) (r : T.Result a.call) (late : Bool)
  | refuse (a : Ask T Id) (e : E) (late : Bool)

/-- A call that has ended, and how. -/
structure Done where
  ask    : Ask T Id
  result : Except E (T.Result ask.call)

end Messages

section Projections

variable {T : Table.{u}} {Id E : Type}

namespace Msg

@[simp] def ask? : Msg T Id E → Option (Ask T Id)
  | .ask a => some a
  | _      => none

/-- The call that the message ends. -/
@[simp] def ends? : Msg T Id E → Option (Ask T Id)
  | .answer a _ _ => some a
  | .refuse a _ _ => some a
  | _             => none

/-- What the host did to say it; the router's answers are not the host's. -/
@[simp] def act? : Msg T Id E → Option (Act T Id)
  | .ask a           => some (.request a.call a.params)
  | .tell n b        => some (.notify n b)
  | .answer a r true => some (.reply a.id a.call r)
  | .refuse a _ true => some (.refuse a.id)
  | _                => none

end Msg

/-- The message ends the call as recorded. -/
inductive Concludes : Msg T Id E → Done T Id E → Prop
  | answer {a : Ask T Id} {r r' : T.Result a.call} {late : Bool} (h : (T.result a.call).Arrives r r') :
      Concludes (.answer a r late) ⟨a, .ok r'⟩
  | refuse {a : Ask T Id} {e : E} {late : Bool} : Concludes (.refuse a e late) ⟨a, .error e⟩

theorem Concludes.ends {m : Msg T Id E} {d : Done T Id E} (h : Concludes m d) : m.ends? = some d.ask := by
  cases h <;> rfl

end Projections

/-! ## What a peer does -/

/-- One entry of a router: a call that is handled, one that is answered later, or a note that is handled.  The handler
of a call has a result, or throws. -/
inductive Route (T : Table.{u}) (σ : Type) : Type u where
  | on (c : T.Call) (h : σ → T.Params c → σ × Option (T.Result c))
  | defer (c : T.Call)
  | note (n : T.Note) (h : σ → T.Body n → σ)

section Routes

variable {T : Table.{u}} {σ : Type}

/-- A handler that never throws. -/
def returning {α β : Type} (h : σ → α → σ × β) (s : σ) (v : α) : σ × Option β := ((h s v).1, some (h s v).2)

def Route.callName? : Route T σ → Option String
  | .on c _  => some (T.callName c)
  | .defer c => some (T.callName c)
  | _        => none

def Route.noteName? : Route T σ → Option String
  | .note n _ => some (T.noteName n)
  | _         => none

end Routes

/-- **A host**: its router, and what it promises of all it sends, its router's answers and its own. -/
structure Host (T : Table.{u}) (σ : Type) : Type u where
  router : List (Route T σ)
  asks   : (c : T.Call) → T.Params c → Prop
  tells  : (n : T.Note) → T.Body n → Prop
  keeps  : (c : T.Call) → T.Params c → T.Result c → Prop

/-- No name is routed twice, what is promised can be sent, and what a handler returns keeps to the promise. -/
structure Host.Sound {T : Table.{u}} {σ : Type} (H : Host T σ) : Prop where
  calls     : (H.router.filterMap Route.callName?).Nodup
  notes     : (H.router.filterMap Route.noteName?).Nodup
  asksSend  : ∀ c v, H.asks c v → (T.params c).Sendable v
  tellsSend : ∀ n b, H.tells n b → (T.body n).Sendable b
  keepsSend : ∀ c v r, H.keeps c v r → (T.result c).Sendable r
  serves    : ∀ c h, Route.on c h ∈ H.router → ∀ s v w, (T.params c).Arrives v w → ∀ r, (h s w).2 = some r →
    H.keeps c w r

/-- The host has promised what it says. -/
def Host.Says {T : Table.{u}} {Id E σ : Type} (H : Host T σ) : Msg T Id E → Prop
  | .ask a        => H.asks a.call a.params
  | .tell n b     => H.tells n b
  | .answer a r _ => ∃ v, (T.params a.call).Arrives a.params v ∧ H.keeps a.call v r
  | .refuse _ _ _ => True

section Parties

variable (T : Table.{u}) (Id E σ : Type)

/-- What a peer has at hand: its state, the calls it made, the calls it has still to answer, the calls that ended. -/
structure Desk where
  state   : σ
  waiting : List (Ask T Id)
  parked  : List (Ask T Id)
  done    : List (Done T Id E)

/-- A peer, with all it said and heard and what it has still to hear. -/
structure Party where
  desk   : Desk T Id E σ
  spoken : List (Msg T Id E)
  heard  : List (Msg T Id E)
  unread : List (Msg T Id E)

end Parties

/-- Two ends. -/
structure Link (α β : Type u) where
  here  : α
  there : β

namespace Link

def swap {α β : Type u} (l : Link α β) : Link β α := ⟨l.there, l.here⟩

@[simp] theorem swap_here {α β : Type u} (l : Link α β) : l.swap.here = l.there := rfl

@[simp] theorem swap_there {α β : Type u} (l : Link α β) : l.swap.there = l.here := rfl

@[simp] theorem swap_swap {α β : Type u} (l : Link α β) : l.swap.swap = l := rfl

end Link

inductive Side where
  | here
  | there
  deriving DecidableEq, Repr

def Side.other : Side → Side
  | .here  => .there
  | .there => .here

section Steps

variable {T : Table.{u}} {Id E σ τ : Type}

/-- The host says something: it asks under an id that is not out, tells, or answers a call it parked. -/
inductive Speak (H : Host T σ) (d : Desk T Id E σ) : Act T Id → Msg T Id E → Desk T Id E σ → Prop
  | request (a : Ask T Id) (ha : H.asks a.call a.params) (fresh : a.id ∉ d.waiting.map Ask.id) :
      Speak H d (.request a.call a.params) (.ask a) { d with waiting := d.waiting ++ [a] }
  | notify (n : T.Note) (b : T.Body n) (hb : H.tells n b) : Speak H d (.notify n b) (.tell n b) d
  | reply {pre post : List (Ask T Id)} (a : Ask T Id) {v : T.Params a.call} (r : T.Result a.call)
      (hp : d.parked = pre ++ a :: post) (hv : (T.params a.call).Arrives a.params v) (hk : H.keeps a.call v r) :
      Speak H d (.reply a.id a.call r) (.answer a r true) { d with parked := pre ++ post }
  | refuse {pre post : List (Ask T Id)} (a : Ask T Id) (e : E) (hp : d.parked = pre ++ a :: post) :
      Speak H d (.refuse a.id) (.refuse a e true) { d with parked := pre ++ post }

/-- The router reacts to what is heard. -/
inductive React (H : Host T σ) (d : Desk T Id E σ) : Msg T Id E → List (Msg T Id E) → Desk T Id E σ → Prop
  | serve {a : Ask T Id} {h : σ → T.Params a.call → σ × Option (T.Result a.call)} {v : T.Params a.call}
      {r : T.Result a.call} (hm : .on a.call h ∈ H.router) (hv : (T.params a.call).Arrives a.params v)
      (hr : (h d.state v).2 = some r) : React H d (.ask a) [.answer a r false] { d with state := (h d.state v).1 }
  | throw {a : Ask T Id} {h : σ → T.Params a.call → σ × Option (T.Result a.call)} {v : T.Params a.call}
      (hm : .on a.call h ∈ H.router) (hv : (T.params a.call).Arrives a.params v) (hr : (h d.state v).2 = none) (e : E) :
      React H d (.ask a) [.refuse a e false] { d with state := (h d.state v).1 }
  | park {a : Ask T Id} (hm : .defer a.call ∈ H.router) :
      React H d (.ask a) [] { d with parked := d.parked ++ [a] }
  | turnAway {a : Ask T Id} (hm : ∀ r ∈ H.router, r.callName? ≠ some (T.callName a.call)) (e : E) :
      React H d (.ask a) [.refuse a e false] d
  | note {n : T.Note} {b w : T.Body n} {h : σ → T.Body n → σ} (hm : .note n h ∈ H.router)
      (hb : (T.body n).Arrives b w) : React H d (.tell n b) [] { d with state := h d.state w }
  | ignore {n : T.Note} {b : T.Body n} (hm : ∀ r ∈ H.router, r.noteName? ≠ some (T.noteName n)) :
      React H d (.tell n b) [] d
  | finish {pre post : List (Ask T Id)} {m : Msg T Id E} {c : Done T Id E} (hm : Concludes m c)
      (hw : d.waiting = pre ++ c.ask :: post) :
      React H d m [] { d with waiting := pre ++ post, done := d.done ++ [c] }

/-- **One peer acts**, and the other is told. -/
inductive Moves (H : Host T σ) (l : Link (Party T Id E σ) (Party T Id E τ)) :
    Act T Id → Link (Party T Id E σ) (Party T Id E τ) → Prop
  | speak {a : Act T Id} {m : Msg T Id E} {d : Desk T Id E σ} (h : Speak H l.here.desk a m d) :
      Moves H l a ⟨⟨d, l.here.spoken ++ [m], l.here.heard, l.here.unread⟩,
        { l.there with unread := l.there.unread ++ [m] }⟩
  | hear {m : Msg T Id E} {rest ms : List (Msg T Id E)} {d : Desk T Id E σ} (hu : l.here.unread = m :: rest)
      (h : React H l.here.desk m ms d) :
      Moves H l .deliver ⟨⟨d, l.here.spoken ++ ms, l.here.heard ++ [m], rest⟩,
        { l.there with unread := l.there.unread ++ ms }⟩

def Party.start (s : σ) : Party T Id E σ := ⟨⟨s, [], [], []⟩, [], [], []⟩

/-- **A talk**: what the two hosts did, in order, and what it has come to. -/
inductive Talk (H : Host T σ) (K : Host T τ) (s : σ) (t : τ) :
    List (Side × Act T Id) → Link (Party T Id E σ) (Party T Id E τ) → Prop
  | start : Talk H K s t [] ⟨.start s, .start t⟩
  | here {as : List (Side × Act T Id)} {a : Act T Id} {l l' : Link (Party T Id E σ) (Party T Id E τ)}
      (h : Talk H K s t as l) (hs : Moves H l a l') : Talk H K s t (as ++ [(.here, a)]) l'
  | there {as : List (Side × Act T Id)} {a : Act T Id} {l l' : Link (Party T Id E σ) (Party T Id E τ)}
      (h : Talk H K s t as l) (hs : Moves K l.swap a l'.swap) : Talk H K s t (as ++ [(.there, a)]) l'

end Steps

/-! ## What holds in every talk -/

section Lists

variable {α : Type u} {w xs ys pre post : List α} {a : α}

theorem perm_snoc (h : w.Perm (xs ++ ys)) : (w ++ [a]).Perm ((xs ++ [a]) ++ ys) := by
  rw [List.append_assoc]
  refine (h.append_right [a]).trans ?_
  rw [List.append_assoc]
  exact List.Perm.append_left xs List.perm_append_comm

theorem perm_drop (h : (pre ++ a :: post).Perm (xs ++ a :: ys)) : (pre ++ post).Perm (xs ++ ys) :=
  (List.perm_middle.symm.trans (h.trans List.perm_middle)).cons_inv

/-- A call that arrived is answered at once. -/
theorem perm_answer (h : w.Perm (a :: xs ++ (pre ++ ys))) : w.Perm (xs ++ (pre ++ (ys ++ [a]))) := by
  rw [← List.append_assoc, ← List.append_assoc]
  rw [List.cons_append, ← List.append_assoc] at h
  exact h.trans (List.perm_append_singleton a _).symm

/-- A call that arrived is parked. -/
theorem perm_park (h : w.Perm (a :: xs ++ (pre ++ post))) : w.Perm (xs ++ ((pre ++ [a]) ++ post)) := by
  rw [List.append_assoc, List.singleton_append, ← List.append_assoc]
  rw [List.cons_append, ← List.append_assoc] at h
  exact h.trans List.perm_middle.symm

/-- A call that was parked is answered. -/
theorem perm_late (h : w.Perm (xs ++ ((pre ++ a :: post) ++ ys))) : w.Perm (xs ++ ((pre ++ post) ++ (ys ++ [a]))) := by
  refine h.trans (List.Perm.append_left xs ?_)
  rw [List.append_assoc, List.append_assoc, List.cons_append, ← List.append_assoc post]
  exact (List.perm_append_singleton a (post ++ ys)).symm.append_left pre

theorem forall₂_mem_right {β : Type u} {R : α → β → Prop} {ys : List β} {b : β} (h : List.Forall₂ R xs ys)
    (hb : b ∈ ys) : ∃ a ∈ xs, R a b := by
  induction h with
  | nil => cases hb
  | @cons x y _ _ hxy _ ih =>
    rcases List.mem_cons.1 hb with rfl | hb
    · exact ⟨x, List.mem_cons_self, hxy⟩
    · obtain ⟨a, ha, hr⟩ := ih hb
      exact ⟨a, List.mem_cons_of_mem _ ha, hr⟩

theorem forall₂_comp {β γ : Type u} {R : α → β → Prop} {S : β → γ → Prop} {ys : List β} {zs : List γ}
    (h : List.Forall₂ R xs ys) (h' : List.Forall₂ S ys zs) : List.Forall₂ (fun a c => ∃ b, R a b ∧ S b c) xs zs := by
  induction h generalizing zs with
  | nil =>
    cases h'
    exact .nil
  | cons hr _ ih =>
    cases h' with
    | cons hs h' => exact .cons ⟨_, hr, hs⟩ (ih h')

end Lists

section Invariant

variable {T : Table.{u}} {Id E σ τ : Type}

/-- **What is known of the calls that `here` makes and of all it says**: it is as promised, and heard by `there` once and
in order; the calls that are out have distinct ids and are on their way, parked, or on their way back; and every call that
was made is out or has ended, as the message that ended it says. -/
structure Accounted (H : Host T σ) (l : Link (Party T Id E σ) (Party T Id E τ)) : Prop where
  wire     : l.there.heard ++ l.there.unread = l.here.spoken
  promised : ∀ m ∈ l.here.spoken, H.Says m
  ids      : (l.here.desk.waiting.map Ask.id).Nodup
  out      : l.here.desk.waiting.Perm
    (l.there.unread.filterMap Msg.ask? ++ (l.there.desk.parked ++ l.here.unread.filterMap Msg.ends?))
  made     : (l.here.spoken.filterMap Msg.ask?).Perm (l.here.desk.done.map Done.ask ++ l.here.desk.waiting)
  ended    : List.Forall₂ Concludes (l.here.heard.filter (fun m => m.ends?.isSome)) l.here.desk.done

section Reactions

variable {H : Host T σ} {d d' : Desk T Id E σ} {m : Msg T Id E} {ms : List (Msg T Id E)}

theorem Speak.act? {a : Act T Id} (h : Speak H d a m d') : m.act? = some a := by
  cases h <;> rfl

theorem Speak.promised {a : Act T Id} (h : Speak H d a m d') : H.Says m := by
  cases h with
  | request a ha _ => exact ha
  | notify n b hb => exact hb
  | reply a r _ hv hk => exact ⟨_, hv, hk⟩
  | refuse a e _ => trivial

theorem React.no_acts (h : React H d m ms d') : ms.filterMap Msg.act? = [] := by
  cases h <;> rfl

theorem React.no_asks (h : React H d m ms d') : ms.filterMap Msg.ask? = [] := by
  cases h <;> rfl

theorem React.promised (hH : H.Sound) (h : React H d m ms d') : ∀ m' ∈ ms, H.Says m' := by
  cases h with
  | serve hm hv hr =>
    intro m' hm'
    rw [List.mem_singleton.1 hm']
    exact ⟨_, hv, hH.serves _ _ hm d.state _ _ hv _ hr⟩
  | throw _ _ _ e | turnAway _ e =>
    intro m' hm'
    rw [List.mem_singleton.1 hm']
    trivial
  | _ => exact fun m' hm' => by cases hm'

end Reactions

section Steps

variable {H : Host T σ} {K : Host T τ} {l : Link (Party T Id E σ) (Party T Id E τ)} {d : Desk T Id E σ}

theorem Accounted.spoken_asked (hl : Accounted H l) {a : Ask T Id} (ha : a ∈ l.here.spoken.filterMap Msg.ask?) :
    H.asks a.call a.params := by
  obtain ⟨m, hm, he⟩ := List.mem_filterMap.1 ha
  cases m <;> cases he
  exact hl.promised _ hm

/-- A call that waits was asked. -/
theorem Accounted.waiting_asked (hl : Accounted H l) {a : Ask T Id} (ha : a ∈ l.here.desk.waiting) :
    H.asks a.call a.params :=
  hl.spoken_asked (hl.made.mem_iff.2 (List.mem_append_right _ ha))

/-- A call that has ended was asked. -/
theorem Accounted.done_asked (hl : Accounted H l) {d : Done T Id E} (hd : d ∈ l.here.desk.done) :
    H.asks d.ask.call d.ask.params :=
  hl.spoken_asked (hl.made.mem_iff.2 (List.mem_append_left _ (List.mem_map_of_mem hd)))

theorem Accounted.parked_asked (hl : Accounted H l) {a : Ask T Id} (ha : a ∈ l.there.desk.parked) :
    H.asks a.call a.params :=
  hl.waiting_asked (hl.out.mem_iff.2 (List.mem_append_right _ (List.mem_append_left _ ha)))

theorem Accounted.unread_promised (hl : Accounted H l) {m : Msg T Id E} (hm : m ∈ l.there.unread) : H.Says m :=
  hl.promised m (hl.wire ▸ List.mem_append_right _ hm)

/-- What ends a call ends one that waits. -/
theorem Accounted.ends_waiting (hl : Accounted H l) {m : Msg T Id E} (hm : m ∈ l.here.unread) :
    ∀ a, m.ends? = some a → a ∈ l.here.desk.waiting := fun _ ha =>
  hl.out.mem_iff.2 (List.mem_append_right _ (List.mem_append_right _ (List.mem_filterMap.2 ⟨m, hm, ha⟩)))

theorem Accounted.parked_ids (hl : Accounted H l) : (l.there.desk.parked.map Ask.id).Nodup := by
  have hn := (hl.out.map Ask.id).nodup_iff.1 hl.ids
  rw [List.map_append, List.map_append] at hn
  exact (List.nodup_append.1 (List.nodup_append.1 hn).2.1).1

/-- Speaking keeps the account of one's own calls. -/
theorem Accounted.speak {a : Act T Id} {m : Msg T Id E} (hl : Accounted H l) (h : Speak H l.here.desk a m d) :
    Accounted H ⟨⟨d, l.here.spoken ++ [m], l.here.heard, l.here.unread⟩,
      { l.there with unread := l.there.unread ++ [m] }⟩ where
  wire := by rw [← List.append_assoc, hl.wire]
  promised m' hm' := by
    rcases List.mem_append.1 hm' with hm' | hm'
    · exact hl.promised m' hm'
    · rw [List.mem_singleton.1 hm']
      exact h.promised
  ids := by
    cases h with
    | request a _ fresh =>
      rw [List.map_append, List.nodup_append]
      refine ⟨hl.ids, List.nodup_singleton _, fun i hi j hj => ?_⟩
      rw [List.mem_singleton.1 hj]
      exact fun he => fresh (he ▸ hi)
    | _ => exact hl.ids
  out := by
    rw [List.filterMap_append]
    cases h with
    | request a _ _ => exact perm_snoc hl.out
    | _ => simpa [List.filterMap_cons] using hl.out
  made := by
    rw [List.filterMap_append]
    cases h with
    | request a _ _ =>
      rw [← List.append_assoc]
      exact hl.made.append_right [a]
    | _ => simpa [List.filterMap_cons] using hl.made
  ended := by
    cases h <;> exact hl.ended

/-- Being told something keeps the account of what is said to one. -/
theorem Accounted.told {a : Act T Id} {m : Msg T Id E} (hl : Accounted K l.swap) (h : Speak H l.here.desk a m d) :
    Accounted K (Link.swap ⟨⟨d, l.here.spoken ++ [m], l.here.heard, l.here.unread⟩,
      { l.there with unread := l.there.unread ++ [m] }⟩) where
  wire := hl.wire
  promised := hl.promised
  ids := hl.ids
  out := by
    have hout := hl.out
    cases h with
    | reply a r hp _ _ | refuse a e hp =>
      rw [Link.swap_there, hp] at hout
      simp only [Link.swap_here, Link.swap_there, List.filterMap_append]
      exact perm_late hout
    | _ => simpa [List.filterMap_cons] using hout
  made := hl.made
  ended := hl.ended

variable {m : Msg T Id E} {rest ms : List (Msg T Id E)}

/-- Hearing something keeps the account of one's own calls. -/
theorem Accounted.hear (hH : H.Sound) (hl : Accounted H l) (hu : l.here.unread = m :: rest)
    (h : React H l.here.desk m ms d) :
    Accounted H ⟨⟨d, l.here.spoken ++ ms, l.here.heard ++ [m], rest⟩,
      { l.there with unread := l.there.unread ++ ms }⟩ where
  wire := by rw [← List.append_assoc, hl.wire]
  promised m' hm' := by
    rcases List.mem_append.1 hm' with hold | hnew
    · exact hl.promised m' hold
    · exact h.promised hH m' hnew
  ids := by
    cases h with
    | finish hm hw =>
      have hn := hl.ids
      rw [hw, List.map_append, List.map_cons, List.nodup_middle] at hn
      rw [List.map_append]
      exact (List.nodup_cons.1 hn).2
    | _ => exact hl.ids
  out := by
    have hout := hl.out
    rw [List.filterMap_append, h.no_asks, List.append_nil]
    rw [hu] at hout
    cases h with
    | finish hm hw =>
      rw [hw, List.filterMap_cons_some hm.ends, ← List.append_assoc] at hout
      rw [← List.append_assoc]
      exact perm_drop hout
    | _ => exact hout
  made := by
    rw [List.filterMap_append, h.no_asks, List.append_nil]
    have hmade := hl.made
    cases h with
    | finish hm hw =>
      rw [hw] at hmade
      rw [List.map_append, List.append_assoc]
      exact hmade.trans (List.perm_middle.append_left _)
    | _ => exact hmade
  ended := by
    rw [List.filter_append]
    cases h with
    | finish hm hw =>
      rw [List.filter_cons_of_pos (by rw [hm.ends]; rfl)]
      exact List.rel_append hl.ended (.cons hm .nil)
    | _ => simpa using hl.ended

/-- Hearing something keeps the account of what is said to one. -/
theorem Accounted.heardBy (hl : Accounted K l.swap) (hu : l.here.unread = m :: rest)
    (h : React H l.here.desk m ms d) :
    Accounted K (Link.swap ⟨⟨d, l.here.spoken ++ ms, l.here.heard ++ [m], rest⟩,
      { l.there with unread := l.there.unread ++ ms }⟩) where
  wire := by
    have hw := hl.wire
    rw [Link.swap_there, hu] at hw
    rw [Link.swap_there, List.append_assoc]
    exact hw
  promised := hl.promised
  ids := hl.ids
  out := by
    have hout := hl.out
    rw [Link.swap_there, hu] at hout
    cases h with
    | serve _ _ _ | throw _ _ _ _ | turnAway _ _ =>
      simp only [Link.swap_here, Link.swap_there, List.filterMap_append]
      exact perm_answer hout
    | park _ =>
      simp only [Link.swap_here, Link.swap_there, List.append_nil]
      exact perm_park hout
    | finish hm _ =>
      rw [List.filterMap_cons_none (by cases hm <;> rfl)] at hout
      simpa using hout
    | _ => simpa [List.filterMap_cons] using hout
  made := hl.made
  ended := hl.ended

/-- **A step keeps both accounts.** -/
theorem Moves.accounted {l l' : Link (Party T Id E σ) (Party T Id E τ)} {a : Act T Id} (hH : H.Sound)
    (h : Moves H l a l') (hl : Accounted H l ∧ Accounted K l.swap) : Accounted H l' ∧ Accounted K l'.swap := by
  cases h with
  | speak hs => exact ⟨hl.1.speak hs, hl.2.told hs⟩
  | hear hu hr => exact ⟨hl.1.hear hH hu hr, hl.2.heardBy hu hr⟩

theorem Accounted.start {s : σ} {t : τ} :
    Accounted H (⟨.start s, .start t⟩ : Link (Party T Id E σ) (Party T Id E τ)) where
  wire := rfl
  promised := fun m hm => by cases hm
  ids := List.nodup_nil
  out := .nil
  made := .nil
  ended := .nil

/-- **Every talk is accounted for, at both ends.** -/
theorem Talk.accounted {s : σ} {t : τ} {as : List (Side × Act T Id)} {l : Link (Party T Id E σ) (Party T Id E τ)}
    (hH : H.Sound) (hK : K.Sound) (h : Talk H K s t as l) : Accounted H l ∧ Accounted K l.swap := by
  induction h with
  | start => exact ⟨.start, .start⟩
  | here _ hs ih => exact hs.accounted hH ih
  | there _ hs ih => exact (hs.accounted hK ih.symm).symm

/-- When all is heard, what is out is parked with the peer. -/
theorem Accounted.quiet (hl : Accounted H l) (hu : l.here.unread = []) (hu' : l.there.unread = []) :
    l.here.desk.waiting.Perm l.there.desk.parked := by
  have hout := hl.out
  rw [hu, hu'] at hout
  simpa using hout

/-- What a delivery does to the queues: only a call that arrives is answered. -/
theorem Moves.deliver {l' : Link (Party T Id E σ) (Party T Id E τ)} (h : Moves H l .deliver l') :
    ∃ m rest ms, l.here.unread = m :: rest ∧ l'.here.unread = rest ∧ l'.there.unread = l.there.unread ++ ms ∧
      (∀ x ∈ ms, x.ask? = none) ∧ (m.ask? = none → ms = []) := by
  cases h with
  | speak hs => cases hs
  | @hear m rest ms d hu hr =>
    refine ⟨m, rest, ms, hu, rfl, rfl, fun x hx => ?_, fun hm => ?_⟩
    · exact List.filterMap_eq_nil_iff.1 hr.no_asks x hx
    · cases hr <;> first | rfl | cases hm

end Steps

end Invariant

end Wire
