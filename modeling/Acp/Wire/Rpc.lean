import Acp.Wire.Talks
import Acp.Wire.Runs
import Mathlib.Data.Finset.Basic
import Mathlib.Data.Finset.Insert
/-!
# Rpc — two peers around two engines

`Rpc` is a JSON-RPC engine and what dispatches to a router, as a parameter, and `Rpc.Lawful` what a host relies on of
it.  A `Peer` drives an engine: it carries the frames its peer sent into it, does what comes back, and keeps account of
what it answers.  A `Run` is any order of what two hosts do.
-/
namespace Wire

universe u

/-! ## The engine -/

structure Call (Id : Type) where
  id     : Id
  method : String
  params : Json

structure Notification where
  method : String
  params : Json

structure Completed (Id E : Type) where
  id      : Id
  outcome : Except E Json

/-- What an engine asks its host to act on. -/
structure Effects (Id E Frame : Type) where
  calls         : List (Call Id) := []
  notifications : List Notification := []
  completed     : List (Completed Id E) := []
  send          : List Frame := []

/-- **A JSON-RPC engine**, and the dispatch of its calls and notifications by a router. -/
structure Rpc (T : Table.{u}) (Id E : Type) : Type (max 1 u) where
  Engine     : Type
  Frame      : Type
  start      : Engine
  pending    : Engine → Finset Id
  request    : Engine → String → Json → Id × Engine × Effects Id E Frame
  notify     : String → Json → Frame
  reply      : Id → Json → Frame
  refuse     : Id → Frame
  step       : Engine → Frame → Engine × Effects Id E Frame
  handle     : {σ : Type} → List (Route T σ) → σ → Call Id → σ × Option Frame
  handleNote : {σ : Type} → List (Route T σ) → σ → Notification → σ
  result     : {α : Type} → Codec α → Completed Id E → Except E α

variable {T : Table.{u}} {Id E σ τ : Type} [DecidableEq Id]

namespace Rpc

variable (R : Rpc T Id E)

/-- Whatever engine gets the frame gets this call. -/
def BringsCall (f : R.Frame) (c : Call Id) : Prop :=
  ∀ e, (R.step e f).2 = { calls := [c] } ∧ R.pending (R.step e f).1 = R.pending e

def BringsNote (f : R.Frame) (n : Notification) : Prop :=
  ∀ e, (R.step e f).2 = { notifications := [n] } ∧ R.pending (R.step e f).1 = R.pending e

/-- The engine that has the request pending gets this completion. -/
def Completes (f : R.Frame) (c : Completed Id E) : Prop :=
  ∀ e, c.id ∈ R.pending e → (R.step e f).2 = { completed := [c] } ∧ R.pending (R.step e f).1 = (R.pending e).erase c.id

/-- **What a host relies on of the engine and the dispatch**, for what a frame can carry. -/
structure Lawful : Prop where
  start_pending : R.pending R.start = ∅
  /-- A request is sent in one frame, under an id that is not pending and then is. -/
  request_fresh : ∀ e m j, (R.request e m j).1 ∉ R.pending e
  request_pending : ∀ e m j, R.pending (R.request e m j).2.1 = insert (R.request e m j).1 (R.pending e)
  request_send : ∀ e m j, j.isText = true → ∃ f, (R.request e m j).2.2 = { send := [f] } ∧
    R.BringsCall f ⟨(R.request e m j).1, m, j⟩
  notify : ∀ m j, j.isText = true → R.BringsNote (R.notify m j) ⟨m, j⟩
  reply : ∀ i j, j.isText = true → R.Completes (R.reply i j) ⟨i, .ok j⟩
  refuse : ∀ i, ∃ e, R.Completes (R.refuse i) ⟨i, .error e⟩
  /-- A call of a routed name is decoded, handled and answered, with an error where the handler throws; of a deferred
  name, left to the host; of another, refused. -/
  handle_on : ∀ {σ : Type} (rs : List (Route T σ)), (rs.filterMap Route.callName?).Nodup → ∀ c h, Route.on c h ∈ rs →
    ∀ s i j v r, (T.params c).decode j = .ok v → (h s v).2 = some r → ((T.result c).encode r).isText = true →
      ∃ f, R.handle rs s ⟨i, T.callName c, j⟩ = ((h s v).1, some f) ∧
        R.Completes f ⟨i, .ok ((T.result c).encode r)⟩
  handle_throw : ∀ {σ : Type} (rs : List (Route T σ)), (rs.filterMap Route.callName?).Nodup → ∀ c h,
    Route.on c h ∈ rs → ∀ s i j v, (T.params c).decode j = .ok v → (h s v).2 = none →
      ∃ e f, R.handle rs s ⟨i, T.callName c, j⟩ = ((h s v).1, some f) ∧ R.Completes f ⟨i, .error e⟩
  handle_defer : ∀ {σ : Type} (rs : List (Route T σ)), (rs.filterMap Route.callName?).Nodup → ∀ c, Route.defer c ∈ rs →
    ∀ s i j, R.handle rs s ⟨i, T.callName c, j⟩ = (s, none)
  handle_other : ∀ {σ : Type} (rs : List (Route T σ)) (m : String), (∀ r ∈ rs, r.callName? ≠ some m) →
    ∀ s i j, ∃ e f, R.handle rs s ⟨i, m, j⟩ = (s, some f) ∧ R.Completes f ⟨i, .error e⟩
  /-- A notification of a routed name is decoded and handled, and of another ignored. -/
  note_on : ∀ {σ : Type} (rs : List (Route T σ)), (rs.filterMap Route.noteName?).Nodup → ∀ n h, Route.note n h ∈ rs →
    ∀ s j b, (T.body n).decode j = .ok b → R.handleNote rs s ⟨T.noteName n, j⟩ = h s b
  note_other : ∀ {σ : Type} (rs : List (Route T σ)) (m : String), (∀ r ∈ rs, r.noteName? ≠ some m) →
    ∀ s j, R.handleNote rs s ⟨m, j⟩ = s
  result_ok : ∀ {α : Type} (c : Codec α) i j v, c.decode j = .ok v → R.result c ⟨i, .ok j⟩ = .ok v
  result_error : ∀ {α : Type} (c : Codec α) i e, R.result c ⟨i, .error e⟩ = .error e

end Rpc

/-! ## The host around it -/

/-- What a host answered to a call: the result its handler returned, or one it gave later; or an error, because its
handler threw, because it gave one later, because the params could not be read, or because it does not route the call. -/
inductive Answer (T : Table.{u}) : Type u where
  | returned (c : T.Call) (v : T.Params c) (r : T.Result c)
  | replied (c : T.Call) (r : T.Result c)
  | threw (c : T.Call) (v : T.Params c)
  | refused
  | unreadable
  | unrouted

/-- A call as it came, and what was answered to it. -/
structure Given (T : Table.{u}) (Id : Type) : Type u where
  call   : Call Id
  answer : Answer T

/-- What a router answers to a call that it does not defer. -/
def answered (rs : List (Route T σ)) (s : σ) (c : Call Id) : Answer T :=
  match rs.find? (fun r => r.callName? == some c.method) with
  | some (.on m h) => match (T.params m).decode c.params with
    | .ok v    => match (h s v).2 with
      | some r => .returned m v r
      | none   => .threw m v
    | .error _ => .unreadable
  | _              => .unrouted

/-- A host that drives an engine: the frames it has still to put in, the requests it waits for, the calls it deferred,
what it answered, and the requests that are done. -/
structure Peer (R : Rpc T Id E) (σ : Type) : Type u where
  engine   : R.Engine
  state    : σ
  inbox    : List R.Frame
  asked    : List (Ask T Id)
  deferred : List (Call Id)
  given    : List (Given T Id)
  done     : List (Done T Id E)

namespace Peer

variable (R : Rpc T Id E)

def start (s : σ) : Peer R σ := ⟨R.start, s, [], [], [], [], []⟩

/-- A call goes to the router, which answers it or leaves it to the host. -/
def handle (rs : List (Route T σ)) (p : Peer R σ × List R.Frame) (c : Call Id) : Peer R σ × List R.Frame :=
  match R.handle rs p.1.state c with
  | (s, some f) => ({ p.1 with state := s, given := p.1.given ++ [⟨c, answered rs p.1.state c⟩] }, p.2 ++ [f])
  | (s, none)   => ({ p.1 with state := s, deferred := p.1.deferred ++ [c] }, p.2)

/-- A completion is read as the result of the request it completes. -/
def complete (p : Peer R σ) (c : Completed Id E) : Peer R σ :=
  match p.asked.find? (fun a => a.id == c.id) with
  | some a =>
    { p with
      asked := p.asked.eraseP (fun a => a.id == c.id)
      done := p.done ++ [⟨a, R.result (T.result a.call) c⟩] }
  | none   => p

/-- **One frame**: into the engine, its calls and notifications to the router, and what goes back. -/
def receive (rs : List (Route T σ)) (p : Peer R σ) (f : R.Frame) : Peer R σ × List R.Frame :=
  let (e, fx) := R.step p.engine f
  let (p, back) := fx.calls.foldl (handle R rs) ({ p with engine := e }, [])
  let p := fx.notifications.foldl (fun p n => { p with state := R.handleNote rs p.state n }) p
  (fx.completed.foldl (complete R) p, back ++ fx.send)

/-- **What a host does**, and the frames it sends by it. -/
def act (rs : List (Route T σ)) (p : Peer R σ) : Act T Id → Option (Peer R σ × List R.Frame)
  | .request c v =>
    let (i, e, fx) := R.request p.engine (T.callName c) ((T.params c).encode v)
    some ({ p with engine := e, asked := p.asked ++ [⟨i, c, v⟩] }, fx.send)
  | .notify n b => some (p, [R.notify (T.noteName n) ((T.body n).encode b)])
  | .deliver =>
    match p.inbox with
    | []      => none
    | f :: fs => some (receive R rs { p with inbox := fs } f)
  | .reply i c r =>
    match p.deferred.find? (fun d => d.id == i) with
    | some d =>
      if d.method = T.callName c then
        some ({ p with
          deferred := p.deferred.eraseP (fun d => d.id == i), given := p.given ++ [⟨d, .replied c r⟩] },
            [R.reply i ((T.result c).encode r)])
      else none
    | none   => none
  | .refuse i =>
    match p.deferred.find? (fun d => d.id == i) with
    | some d =>
      some ({ p with deferred := p.deferred.eraseP (fun d => d.id == i), given := p.given ++ [⟨d, .refused⟩] },
        [R.refuse i])
    | none   => none

/-- **The loop of the loopback test**: every frame of the wire, in order, and all that goes back. -/
def deliver (rs : List (Route T σ)) : List R.Frame → Peer R σ → Peer R σ × List R.Frame
  | [],      p => (p, [])
  | f :: fs, p =>
    let (p, back) := receive R rs p f
    let (p, backs) := deliver rs fs p
    (p, back ++ backs)

end Peer

section Runs

variable (R : Rpc T Id E)

/-- One host acts, and its frames are put on the other's wire. -/
def Link.act (rs : List (Route T σ)) (l : Link (Peer R σ) (Peer R τ)) (a : Act T Id) :
    Option (Link (Peer R σ) (Peer R τ)) :=
  (Peer.act R rs l.here a).map (fun p => ⟨p.1, { l.there with inbox := l.there.inbox ++ p.2 }⟩)

/-- What is asked of a host: that it keeps to its promise in what it asks, tells and answers late. -/
def Allowed (H : Host T σ) (p : Peer R σ) : Act T Id → Prop
  | .request c v => H.asks c v
  | .notify n b  => H.tells n b
  | .deliver     => True
  | .reply i c r => ∀ d ∈ p.deferred, d.id = i → ∀ v, (T.params c).decode d.params = .ok v → H.keeps c v r
  | .refuse _    => True

/-- **A run of the two peers**, in any order of what the two hosts do. -/
inductive Run (H : Host T σ) (K : Host T τ) (s : σ) (t : τ) :
    List (Side × Act T Id) → Link (Peer R σ) (Peer R τ) → Prop
  | start : Run H K s t [] ⟨.start R s, .start R t⟩
  | here {as : List (Side × Act T Id)} {l l' : Link (Peer R σ) (Peer R τ)} (a : Act T Id) (h : Run H K s t as l)
      (ha : Allowed R H l.here a) (hs : l.act R H.router a = some l') : Run H K s t (as ++ [(.here, a)]) l'
  | there {as : List (Side × Act T Id)} {l l' : Link (Peer R σ) (Peer R τ)} (a : Act T Id) (h : Run H K s t as l)
      (ha : Allowed R K l.there a) (hs : l.swap.act R K.router a = some l'.swap) :
      Run H K s t (as ++ [(.there, a)]) l'

/-- What comes of the acts, one after the other. -/
def Link.runs (rs : List (Route T σ)) (rs' : List (Route T τ)) :
    List (Side × Act T Id) → Link (Peer R σ) (Peer R τ) → Option (Link (Peer R σ) (Peer R τ))
  | [],                l => some l
  | (.here, a) :: as,  l => (l.act R rs a).bind (runs rs rs' as)
  | (.there, a) :: as, l => (l.swap.act R rs' a).bind (fun l => runs rs rs' as l.swap)

theorem Run.other {H : Host T σ} {K : Host T τ} {s : σ} {t : τ} {as : List (Side × Act T Id)}
    {l : Link (Peer R σ) (Peer R τ)} {m : Link (Peer R τ) (Peer R σ)} (a : Act T Id) (h : Run R H K s t as l)
    (ha : Allowed R K l.there a) (hs : l.swap.act R K.router a = some m) :
    Run R H K s t (as ++ [(.there, a)]) m.swap := h.there a ha hs

/-- The host may do it at any time. -/
def AllowedAlways (H : Host T σ) (K : Host T τ) : Side × Act T Id → Prop
  | (.here, a)  => ∀ p, Allowed R H p a
  | (.there, a) => ∀ p, Allowed R K p a

theorem Run.runs {H : Host T σ} {K : Host T τ} {s : σ} {t : τ} : ∀ {bs as : List (Side × Act T Id)}
    {l l' : Link (Peer R σ) (Peer R τ)}, Run R H K s t as l → (∀ q ∈ bs, AllowedAlways R H K q) →
      Link.runs R H.router K.router bs l = some l' → Run R H K s t (as ++ bs) l'
  | [], as, l, l', h, _, hl => by
    cases hl
    rwa [List.append_nil]
  | (side, a) :: bs, as, l, l', h, hall, hl => by
    have ha := hall _ List.mem_cons_self
    have hbs := fun q hq => hall q (List.mem_cons_of_mem _ hq)
    rw [List.append_cons]
    cases side with
    | here =>
      obtain ⟨m, hm, hrest⟩ := Option.bind_eq_some_iff.1 hl
      exact Run.runs (h.here a (ha _) hm) hbs hrest
    | there =>
      obtain ⟨m, hm, hrest⟩ := Option.bind_eq_some_iff.1 hl
      exact Run.runs (h.other R a (ha _) hm) hbs hrest

end Runs

/-- What the router has for a call. -/
theorem Host.call_cases (H : Host T σ) (c : T.Call) :
    (∃ h, .on c h ∈ H.router) ∨ .defer c ∈ H.router ∨ ∀ r ∈ H.router, r.callName? ≠ some (T.callName c) := by
  by_cases h : ∃ r ∈ H.router, r.callName? = some (T.callName c)
  · obtain ⟨r, hr, hn⟩ := h
    cases r with
    | on c' h =>
      obtain rfl := T.callName_inj c' c (Option.some.inj hn)
      exact .inl ⟨h, hr⟩
    | defer c' =>
      obtain rfl := T.callName_inj c' c (Option.some.inj hn)
      exact .inr (.inl hr)
    | note _ _ => cases hn
  · exact .inr (.inr (fun r hr hn => h ⟨r, hr, hn⟩))

theorem Host.note_cases (H : Host T σ) (n : T.Note) :
    (∃ h, .note n h ∈ H.router) ∨ ∀ r ∈ H.router, r.noteName? ≠ some (T.noteName n) := by
  by_cases h : ∃ r ∈ H.router, r.noteName? = some (T.noteName n)
  · obtain ⟨r, hr, hn⟩ := h
    cases r with
    | note n' h =>
      obtain rfl := T.noteName_inj n' n (Option.some.inj hn)
      exact .inl ⟨h, hr⟩
    | _ => cases hn
  · exact .inr (fun r hr hn => h ⟨r, hr, hn⟩)

/-- A list whose elements have distinct names is searched by name. -/
theorem find?_name {α : Type u} {f : α → Option String} {xs : List α} {a : α} {m : String}
    (hn : (xs.filterMap f).Nodup) (ha : a ∈ xs) (hm : f a = some m) :
    xs.find? (fun x => f x == some m) = some a := by
  cases hfind : xs.find? (fun x => f x == some m) with
  | none =>
    have := List.find?_eq_none.1 hfind a ha
    exact absurd hm (by simpa using this)
  | some x =>
    have hx : f x = some m := by simpa using List.find?_some hfind
    rw [eq_of_name hn (List.mem_of_find?_eq_some hfind) ha hx hm]

theorem find?_noName {α : Type u} {f : α → Option String} {xs : List α} {m : String}
    (h : ∀ x ∈ xs, f x ≠ some m) : xs.find? (fun x => f x == some m) = none := by
  rw [List.find?_eq_none]
  intro x hx
  simpa using h x hx

section Answered

variable {H : Host T σ} (hH : H.Sound) {c : T.Call} {h : σ → T.Params c → σ × Option (T.Result c)}
  (hm : .on c h ∈ H.router) (s : σ) (i : Id) {j : Json} {v : T.Params c} (hv : (T.params c).decode j = .ok v)
include hH hm hv

omit [DecidableEq Id] in
theorem answered_returned {r : T.Result c} (hr : (h s v).2 = some r) :
    answered H.router s ⟨i, T.callName c, j⟩ = .returned c v r := by
  unfold answered
  rw [find?_name hH.calls hm rfl]
  simp only [hv, hr]

omit [DecidableEq Id] in
theorem answered_threw (hr : (h s v).2 = none) : answered H.router s ⟨i, T.callName c, j⟩ = .threw c v := by
  unfold answered
  rw [find?_name hH.calls hm rfl]
  simp only [hv, hr]

omit [DecidableEq Id] hH hm hv in
theorem answered_unrouted {rs : List (Route T σ)} {d : Call Id} (hd : ∀ r ∈ rs, r.callName? ≠ some d.method) :
    answered rs s d = .unrouted := by
  unfold answered
  rw [find?_noName hd]

end Answered

end Wire
