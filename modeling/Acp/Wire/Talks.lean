import Acp.Wire.Exchange
/-!
# Talks — what a talk says of its run

What a host says is on its wire in the order it said it (`Talk.said`), a call that was made has ended or waits
(`Talk.requests`), and what a host keeps of what it hears and sends is read off what it heard and sent (`Talk.party`).
A call that is deferred is answered by the host and no other is (`Host.Timely`), so that an answer it gives is heard
after all that it said before (`Talk.turn`).
-/
namespace Wire

universe u

variable {T : Table.{u}} {Id E σ τ : Type} {H : Host T σ} {K : Host T τ}
  {l : Link (Party T Id E σ) (Party T Id E τ)} {d : Desk T Id E σ} {m : Msg T Id E}

/-! ## One end of a talk -/

theorem Speak.state {d' : Desk T Id E σ} {a : Act T Id} (h : Speak H d a m d') : d'.state = d.state := by
  cases h <;> rfl

section Party

variable (hH : H.Sound) (hK : K.Sound) {s : σ} {t : τ} {as : List (Side × Act T Id)}
include hH hK

/-- **What holds of a host's desk and of all it said and heard**, if it does at the start, and whatever the host says and
its router makes of what the other has promised keeps it so. -/
theorem Talk.party {P : Desk T Id E σ → List (Msg T Id E) → List (Msg T Id E) → Prop} (hstart : P ⟨s, [], [], []⟩ [] [])
    (hspeak : ∀ d a m d' sp hd, P d sp hd → Speak H d a m d' → P d' (sp ++ [m]) hd)
    (hreact : ∀ d m ms d' sp hd, P d sp hd → K.Says m → React H d m ms d' → P d' (sp ++ ms) (hd ++ [m]))
    (h : Talk H K s t as l) : P l.here.desk l.here.spoken l.here.heard := by
  induction h with
  | start => exact hstart
  | here h hs ih =>
    cases hs with
    | speak hsp => exact hspeak _ _ _ _ _ _ ih hsp
    | hear hu hr =>
      have hsays := (h.accounted hH hK).2.unread_promised (hu ▸ List.mem_cons_self)
      exact hreact _ _ _ _ _ _ ih hsays hr
  | @there _ _ _ l' _ hs ih =>
    obtain ⟨p, q⟩ := l'
    cases hs <;> exact ih

end Party

/-! ## What is answered late -/

/-- A list whose elements have distinct names has one of each name. -/
theorem eq_of_name {α : Type u} {β : Type} {f : α → Option β} {a a' : α} {m : β} :
    ∀ {xs : List α}, (xs.filterMap f).Nodup → a ∈ xs → a' ∈ xs → f a = some m → f a' = some m → a = a'
  | [], _, h, _, _, _ => by cases h
  | x :: xs, hn, h, h', hm, hm' => by
    have hmem : ∀ {y}, y ∈ xs → f y = some m → m ∈ xs.filterMap f := fun hy hf => List.mem_filterMap.2 ⟨_, hy, hf⟩
    cases hx : f x with
    | none =>
      rw [List.filterMap_cons_none hx] at hn
      rcases List.mem_cons.1 h with rfl | h
      · rw [hx] at hm; cases hm
      rcases List.mem_cons.1 h' with rfl | h'
      · rw [hx] at hm'; cases hm'
      exact eq_of_name hn h h' hm hm'
    | some y =>
      rw [List.filterMap_cons_some hx, List.nodup_cons] at hn
      rcases List.mem_cons.1 h with rfl | hxs <;> rcases List.mem_cons.1 h' with rfl | hxs'
      · rfl
      · exact absurd (hmem hxs' hm') (Option.some.inj (hx.symm.trans hm) ▸ hn.1)
      · exact absurd (hmem hxs hm) (Option.some.inj (hx.symm.trans hm') ▸ hn.1)
      · exact eq_of_name hn.2 hxs hxs' hm hm'

/-- The host answers the call itself. -/
def Host.defers (H : Host T σ) (c : T.Call) : Bool :=
  H.router.any (fun r => match r with
    | .defer c' => T.callName c' == T.callName c
    | _         => false)

theorem Host.defers_iff {c : T.Call} : H.defers c = true ↔ .defer c ∈ H.router := by
  unfold Host.defers
  rw [List.any_eq_true]
  constructor
  · rintro ⟨r, hr, hc⟩
    cases r with
    | defer c' =>
      obtain rfl := T.callName_inj _ _ (eq_of_beq hc)
      exact hr
    | _ => cases hc
  · exact fun hr => ⟨_, hr, beq_self_eq_true _⟩

theorem Host.Sound.defers_of_on (hH : H.Sound) {c : T.Call} {h : σ → T.Params c → σ × Option (T.Result c)}
    (hm : .on c h ∈ H.router) : H.defers c = false := by
  refine Bool.eq_false_iff.2 (fun hd => ?_)
  cases eq_of_name hH.calls hm (Host.defers_iff.1 hd) rfl rfl

theorem Host.defers_of_other {c : T.Call} (hm : ∀ r ∈ H.router, r.callName? ≠ some (T.callName c)) :
    H.defers c = false :=
  Bool.eq_false_iff.2 (fun hd => hm _ (Host.defers_iff.1 hd) rfl)

/-- The call is answered late where it is deferred, and at once where it is not. -/
def Host.Timely (H : Host T σ) : Msg T Id E → Prop
  | .answer a _ late => late = H.defers a.call
  | .refuse a _ late => late = H.defers a.call
  | _                => True

theorem Speak.timely {d' : Desk T Id E σ} {a : Act T Id} (hp : ∀ a ∈ d.parked, H.defers a.call = true)
    (hs : Speak H d a m d') : (∀ a ∈ d'.parked, H.defers a.call = true) ∧ H.Timely m := by
  cases hs with
  | request => exact ⟨hp, trivial⟩
  | notify => exact ⟨hp, trivial⟩
  | reply a r hpark _ _ | refuse a e hpark =>
    rw [hpark] at hp
    refine ⟨fun a' ha' => hp a' ?_, (hp a (List.mem_append_right _ List.mem_cons_self)).symm⟩
    exact (List.mem_append.1 ha').elim (List.mem_append_left _)
      (fun h => List.mem_append_right _ (List.mem_cons_of_mem _ h))

theorem React.timely (hH : H.Sound) {ms : List (Msg T Id E)} {d' : Desk T Id E σ}
    (hp : ∀ a ∈ d.parked, H.defers a.call = true) (hr : React H d m ms d') :
    (∀ a ∈ d'.parked, H.defers a.call = true) ∧ ∀ m' ∈ ms, H.Timely m' := by
  cases hr with
  | serve hm _ _ | throw hm _ _ _ =>
    refine ⟨hp, fun m' hm' => ?_⟩
    rw [List.mem_singleton.1 hm']
    exact (hH.defers_of_on hm).symm
  | park hm =>
    refine ⟨fun a' ha' => ?_, fun m' hm' => by cases hm'⟩
    rcases List.mem_append.1 ha' with ha' | ha'
    · exact hp a' ha'
    · rw [List.mem_singleton.1 ha']
      exact Host.defers_iff.2 hm
  | turnAway hm e =>
    refine ⟨hp, fun m' hm' => ?_⟩
    rw [List.mem_singleton.1 hm']
    exact (Host.defers_of_other hm).symm
  | _ => exact ⟨hp, fun m' hm' => by cases hm'⟩

/-- **The calls that are parked are deferred ones, and they alone are answered late.** -/
theorem Talk.timely (hH : H.Sound) (hK : K.Sound) {s : σ} {t : τ} {as : List (Side × Act T Id)}
    (h : Talk H K s t as l) : ∀ m ∈ l.here.spoken, H.Timely m := by
  refine (h.party hH hK (P := fun d sp _ => (∀ a ∈ d.parked, H.defers a.call = true) ∧ ∀ m ∈ sp, H.Timely m)
    ⟨fun a ha => ?_, fun m hm => ?_⟩ ?_ ?_).2
  · cases ha
  · cases hm
  · intro d a m d' sp hd ⟨hp, hall⟩ hs
    obtain ⟨hp', ht⟩ := hs.timely hp
    exact ⟨hp', fun m' hm' => (List.mem_append.1 hm').elim (hall m') (fun h => List.mem_singleton.1 h ▸ ht)⟩
  · intro d m ms d' sp hd ⟨hp, hall⟩ _ hr
    obtain ⟨hp', ht⟩ := hr.timely hH hp
    exact ⟨hp', fun m' hm' => (List.mem_append.1 hm').elim (hall m') (ht m')⟩

/-! ## What the hosts did -/

/-- What a host did, its deliveries apart. -/
def saidBy (side : Side) (as : List (Side × Act T Id)) : List (Act T Id) :=
  as.filterMap (fun p => match p with
    | (_, .deliver) => none
    | (s, a)        => if s = side then some a else none)

/-- The same, seen from the other end. -/
def flipped (as : List (Side × Act T Id)) : List (Side × Act T Id) := as.map (fun p => (p.1.other, p.2))

theorem flipped_append (as as' : List (Side × Act T Id)) : flipped (as ++ as') = flipped as ++ flipped as' :=
  List.map_append

theorem flipped_flipped (as : List (Side × Act T Id)) : flipped (flipped as) = as := by
  unfold flipped
  rw [List.map_map]
  exact (List.map_congr_left (fun p _ => by obtain ⟨⟨_ | _⟩, _⟩ := p <;> rfl)).trans (List.map_id as)

/-- Nothing is done but to deliver. -/
def Delivers (as : List (Side × Act T Id)) : Prop := ∀ p ∈ as, p.2 = .deliver

theorem Delivers.replicate (n : Nat) (side : Side) : Delivers (T := T) (List.replicate n (side, (.deliver : Act T Id))) :=
  fun p hp => by rw [(List.mem_replicate.1 hp).2]

theorem Delivers.append {as as' : List (Side × Act T Id)} (h : Delivers as) (h' : Delivers as') :
    Delivers (as ++ as') := fun p hp => (List.mem_append.1 hp).elim (h p) (h' p)

theorem Delivers.flipped {as : List (Side × Act T Id)} (h : Delivers as) : Delivers (flipped as) := by
  intro p hp
  obtain ⟨q, hq, rfl⟩ := List.mem_map.1 hp
  exact h q hq

theorem saidBy_snoc (side : Side) (as : List (Side × Act T Id)) (p : Side × Act T Id) :
    saidBy side (as ++ [p]) = saidBy side as ++ saidBy side [p] := List.filterMap_append

theorem saidBy_other {s side : Side} (a : Act T Id) (h : s ≠ side) : saidBy side [(s, a)] = [] := by
  cases a <;> simp [saidBy, h]

theorem Speak.said {a : Act T Id} (h : Speak H l.here.desk a m d) (side : Side) :
    saidBy side [(side, a)] = [a] := by
  cases h <;> simp [saidBy]

theorem Moves.said {l l' : Link (Party T Id E σ) (Party T Id E τ)} {a : Act T Id} (h : Moves H l a l') (side : Side) :
    l'.here.spoken.filterMap Msg.act? = l.here.spoken.filterMap Msg.act? ++ saidBy side [(side, a)] ∧
      l'.there.spoken = l.there.spoken := by
  cases h with
  | speak hs =>
    refine ⟨?_, rfl⟩
    rw [hs.said, List.filterMap_append, List.filterMap_cons_some hs.act?, List.filterMap_nil]
  | hear _ hr =>
    refine ⟨?_, rfl⟩
    rw [List.filterMap_append, hr.no_acts]
    rfl

theorem Talk.swap {as : List (Side × Act T Id)} {L : Link (Party T Id E σ) (Party T Id E τ)} (h : Talk H K s t as L) :
    Talk K H t s (flipped as) L.swap := by
  induction h with
  | start => exact .start
  | here _ hs ih =>
    unfold flipped
    rw [List.map_append]
    exact ih.there hs
  | there _ hs ih =>
    unfold flipped
    rw [List.map_append]
    exact ih.here hs

/-- **What a host said is on its wire in the order it said it**, between the answers of its router. -/
theorem Talk.said {s : σ} {t : τ} {as : List (Side × Act T Id)} (h : Talk H K s t as l) :
    l.here.spoken.filterMap Msg.act? = saidBy .here as ∧ l.there.spoken.filterMap Msg.act? = saidBy .there as := by
  induction h with
  | start => exact ⟨rfl, rfl⟩
  | here _ hs ih =>
    obtain ⟨h1, h2⟩ := hs.said .here
    constructor
    · rw [saidBy_snoc, h1, ih.1]
    · rw [saidBy_snoc, h2, ih.2, saidBy_other _ (by decide), List.append_nil]
  | there _ hs ih =>
    obtain ⟨h1, h2⟩ := hs.said .there
    rw [Link.swap_here, Link.swap_here] at h1
    rw [Link.swap_there, Link.swap_there] at h2
    constructor
    · rw [saidBy_snoc, h2, ih.1, saidBy_other _ (by decide), List.append_nil]
    · rw [saidBy_snoc, h1, ih.2]

/-- What a call asks, its id apart. -/
def Ask.asked (a : Ask T Id) : (c : T.Call) × T.Params c := ⟨a.call, a.params⟩

/-- The calls that a host made. -/
def requestsOf (side : Side) (as : List (Side × Act T Id)) : List ((c : T.Call) × T.Params c) :=
  (saidBy side as).filterMap (fun a => match a with
    | .request c v => some ⟨c, v⟩
    | _            => none)

theorem requestsOf_flipped (as : List (Side × Act T Id)) : requestsOf .here (flipped as) = requestsOf .there as := by
  unfold requestsOf saidBy flipped
  rw [List.filterMap_map]
  refine congrArg _ (List.filterMap_congr (fun p _ => ?_))
  obtain ⟨⟨_ | _⟩, a⟩ := p <;> cases a <;> rfl

theorem requestsOf_spoken {ms : List (Msg T Id E)} {side : Side} {as : List (Side × Act T Id)}
    (h : ms.filterMap Msg.act? = saidBy side as) :
    requestsOf side as = (ms.filterMap Msg.ask?).map Ask.asked := by
  unfold requestsOf
  rw [← h, List.filterMap_filterMap, List.map_filterMap]
  refine List.filterMap_congr (fun m _ => ?_)
  cases m with
  | answer a r late | refuse a e late => cases late <;> rfl
  | _ => rfl

/-- **A call that was made has ended, or waits.** -/
theorem Talk.requests {s : σ} {t : τ} {as : List (Side × Act T Id)} (hH : H.Sound) (hK : K.Sound)
    (h : Talk H K s t as l) : (requestsOf .here as).Perm
      (l.here.desk.done.map (fun c => c.ask.asked) ++ l.here.desk.waiting.map Ask.asked) := by
  rw [requestsOf_spoken h.said.1]
  refine ((h.accounted hH hK).1.made.map Ask.asked).trans ?_
  rw [List.map_append, List.map_map]
  rfl

/-! ## Turns -/

def Act.isReply : Act T Id → Bool
  | .reply _ _ _ => true
  | .refuse _    => true
  | _            => false

/-- How many deferred calls a host has answered. -/
def repliesOf (side : Side) (as : List (Side × Act T Id)) : Nat := (saidBy side as).countP Act.isReply

def Msg.isLate : Msg T Id E → Bool
  | .answer _ _ true => true
  | .refuse _ _ true => true
  | _                => false

theorem countP_isLate (ms : List (Msg T Id E)) : ms.countP Msg.isLate = (ms.filterMap Msg.act?).countP Act.isReply := by
  rw [List.countP_filterMap]
  refine List.countP_congr (fun m _ => ?_)
  cases m with
  | answer a r late | refuse a e late => cases late <;> simp [Msg.isLate, Act.isReply]
  | _ => simp [Msg.isLate, Act.isReply]

theorem Concludes.isLate {c : Done T Id E} (h : Concludes m c) (ht : K.Timely m) :
    m.isLate = K.defers c.ask.call := by
  cases h with
  | @answer a _ _ late _ | @refuse a _ late =>
    obtain rfl : late = K.defers a.call := ht
    cases h : K.defers a.call <;> rfl

theorem countP_forall₂ {α β : Type u} {S : α → β → Prop} {p : α → Bool} {q : β → Bool} {xs : List α} {ys : List β}
    (h : List.Forall₂ S xs ys) (hpq : ∀ x ∈ xs, ∀ y, S x y → p x = q y) : xs.countP p = ys.countP q := by
  induction h with
  | nil => rfl
  | @cons x y xs ys hxy _ ih =>
    rw [List.countP_cons, List.countP_cons, ih (fun x hx => hpq x (List.mem_cons_of_mem _ hx)),
      hpq x List.mem_cons_self y hxy]

/-- The deferred calls that have ended are the late answers that were heard. -/
theorem Accounted.countP_done (hl : Accounted H l) (ht : ∀ m ∈ l.here.heard, K.Timely m) :
    l.here.desk.done.countP (fun c => K.defers c.ask.call) = l.here.heard.countP Msg.isLate := by
  have hends : l.here.heard.countP Msg.isLate =
      (l.here.heard.filter (fun m => m.ends?.isSome)).countP Msg.isLate := by
    rw [List.countP_filter]
    refine List.countP_congr (fun m _ => ?_)
    cases m <;> simp [Msg.isLate]
  rw [hends]
  exact (countP_forall₂ hl.ended (fun m hm c hc => hc.isLate (ht m (List.mem_filter.1 hm).1))).symm

/-- **An answer comes after all that was said before it**: once more deferred calls have ended than the other host had
answered at some point, all that it had said by then has been heard. -/
theorem Talk.turn (hH : H.Sound) (hK : K.Sound) {s : σ} {t : τ} {pre post : List (Side × Act T Id)}
    (h : Talk H K s t (pre ++ post) l)
    (hn : repliesOf .there pre < l.here.desk.done.countP (fun c => K.defers c.ask.call)) :
    ∃ before after, l.here.heard = before ++ after ∧ before.filterMap Msg.act? = saidBy .there pre := by
  obtain ⟨hA, hB⟩ := h.accounted hH hK
  have hwire : l.here.heard ++ l.here.unread = l.there.spoken := hB.wire
  have hsaid := h.said.2
  unfold saidBy at hsaid
  rw [List.filterMap_append, ← hwire] at hsaid
  obtain ⟨before, rest, hsplit, hbefore, -⟩ := List.filterMap_eq_append_iff.1 hsaid
  have htimely : ∀ m ∈ l.here.heard, K.Timely m := fun m hm =>
    h.swap.timely hK hH m (hwire ▸ List.mem_append_left _ hm)
  rw [hA.countP_done htimely] at hn
  -- what is heard cannot end before the answer
  rcases List.append_eq_append_iff.1 hsplit with ⟨more, hb, -⟩ | ⟨more, hheard, -⟩
  · have hcount : l.here.heard.countP Msg.isLate ≤ before.countP Msg.isLate := by
      rw [hb, List.countP_append]
      exact Nat.le_add_right _ _
    rw [countP_isLate before, hbefore] at hcount
    exact absurd hn (Nat.not_lt.2 hcount)
  · exact ⟨before, more, hheard, hbefore⟩

/-! ## One note, one call -/

section Named

variable (n : T.Note) (c : T.Call)

/-- What the message says of the note. -/
def Msg.tellOf : Msg T Id E → Option (T.Body n)
  | .tell n' b => if h : T.noteName n' = T.noteName n then some (T.noteName_inj n' n h ▸ b) else none
  | _          => none

def Act.notifyOf : Act T Id → Option (T.Body n)
  | .notify n' b => if h : T.noteName n' = T.noteName n then some (T.noteName_inj n' n h ▸ b) else none
  | _            => none

/-- The bodies of a note that a host sent. -/
def notesOf (side : Side) (as : List (Side × Act T Id)) : List (T.Body n) :=
  (saidBy side as).filterMap (Act.notifyOf n)

/-- What the router answered to the call. -/
def Msg.servedOf : Msg T Id E → Option (T.Result c)
  | .answer a r false => if h : T.callName a.call = T.callName c then some (T.callName_inj _ c h ▸ r) else none
  | _                 => none

/-- How the call ended, if it did well. -/
def Done.resultOf (d : Done T Id E) : Option (T.Result c) :=
  match d with
  | ⟨a, .ok r⟩    => if h : T.callName a.call = T.callName c then some (T.callName_inj _ c h ▸ r) else none
  | ⟨_, .error _⟩ => none

@[simp] theorem Msg.tellOf_self (b : T.Body n) : (Msg.tell n b : Msg T Id E).tellOf n = some b := dif_pos rfl

theorem Msg.tellOf_ne {n' : T.Note} (h : n' ≠ n) (b : T.Body n') : (Msg.tell n' b : Msg T Id E).tellOf n = none :=
  dif_neg (fun he => h (T.noteName_inj n' n he))

theorem Msg.tellOf_inv {b : T.Body n} (h : m.tellOf n = some b) : m = .tell n b := by
  cases m with
  | tell n' b' =>
    by_cases hn : n' = n
    · subst hn
      rw [Msg.tellOf_self] at h
      rw [Option.some.inj h]
    · rw [Msg.tellOf_ne n hn] at h
      cases h
  | _ => cases h

theorem Msg.act?_notifyOf (m : Msg T Id E) : m.act?.bind (Act.notifyOf n) = m.tellOf n := by
  cases m with
  | answer a r late | refuse a e late => cases late <;> rfl
  | _ => rfl

@[simp] theorem Msg.servedOf_self {i : Id} {v : T.Params c} (r : T.Result c) :
    (Msg.answer ⟨i, c, v⟩ r false : Msg T Id E).servedOf c = some r := dif_pos rfl

theorem Msg.servedOf_ne {a : Ask T Id} (h : a.call ≠ c) (r : T.Result a.call) (late : Bool) :
    (Msg.answer a r late : Msg T Id E).servedOf c = none := by
  cases late with
  | true => rfl
  | false => exact dif_neg (fun he => h (T.callName_inj _ c he))

theorem Msg.servedOf_inv {r : T.Result c} (h : m.servedOf c = some r) : ∃ i v, m = .answer ⟨i, c, v⟩ r false := by
  cases m with
  | answer a r' late =>
    obtain ⟨i, c', v⟩ := a
    by_cases hc : c' = c
    · subst hc
      cases late with
      | true => cases h
      | false =>
        rw [Msg.servedOf_self] at h
        exact ⟨i, v, by rw [Option.some.inj h]⟩
    · rw [Msg.servedOf_ne c hc] at h
      cases h
  | _ => cases h

theorem Speak.servedOf {a : Act T Id} {d' : Desk T Id E σ} (h : Speak H d a m d') : m.servedOf c = none := by
  cases h <;> rfl

@[simp] theorem Done.resultOf_self {i : Id} {v : T.Params c} (r : T.Result c) :
    (⟨⟨i, c, v⟩, .ok r⟩ : Done T Id E).resultOf c = some r := dif_pos rfl

theorem Done.resultOf_ne {a : Ask T Id} (h : a.call ≠ c) (r : Except E (T.Result a.call)) :
    (⟨a, r⟩ : Done T Id E).resultOf c = none := by
  cases r with
  | error e => rfl
  | ok r => exact dif_neg (fun he => h (T.callName_inj _ c he))

theorem notesOf_spoken {ms : List (Msg T Id E)} {side : Side} {as : List (Side × Act T Id)}
    (h : ms.filterMap Msg.act? = saidBy side as) : notesOf n side as = ms.filterMap (Msg.tellOf n) := by
  unfold notesOf
  rw [← h, List.filterMap_filterMap]
  exact List.filterMap_congr (fun m _ => m.act?_notifyOf n)

end Named

/-- **A host that collects a note**: each is put at the end of the view, and the view changes by nothing else. -/
structure Host.Collects (H : Host T σ) (n : T.Note) (view : σ → List (T.Body n)) : Prop where
  routed : ∃ h, .note n h ∈ H.router
  calls  : ∀ c h, Route.on c h ∈ H.router → ∀ s v, view (h s v).1 = view s
  notes  : ∀ h, Route.note n h ∈ H.router → ∀ s b, view (h s b) = view s ++ [b]
  others : ∀ n' h, n' ≠ n → Route.note n' h ∈ H.router → ∀ s b, view (h s b) = view s

section Collected

variable {n : T.Note} {view : σ → List (T.Body n)} (hv : H.Collects n view)
include hv

theorem React.collects {ms : List (Msg T Id E)} {d' : Desk T Id E σ} (h : React H d m ms d') :
    ∃ ws, view d'.state = view d.state ++ ws ∧ List.Forall₂ (T.body n).Arrives (m.tellOf n).toList ws := by
  cases h with
  | serve hm _ _ | throw hm _ _ _ => exact ⟨[], by rw [hv.calls _ _ hm, List.append_nil], .nil⟩
  | @note n' b w h hm hb =>
    by_cases hn : n' = n
    · subst hn
      refine ⟨[w], hv.notes _ hm _ _, ?_⟩
      rw [Msg.tellOf_self]
      exact .cons hb .nil
    · refine ⟨[], by rw [hv.others _ _ hn hm, List.append_nil], ?_⟩
      rw [Msg.tellOf_ne n hn]
      exact .nil
  | @ignore n' b hm =>
    have hn : n' ≠ n := by
      rintro rfl
      obtain ⟨h, hr⟩ := hv.routed
      exact hm _ hr rfl
    refine ⟨[], (List.append_nil _).symm, ?_⟩
    rw [Msg.tellOf_ne n hn]
    exact .nil
  | finish hm _ => exact ⟨[], (List.append_nil _).symm, by cases hm <;> exact .nil⟩
  | _ => exact ⟨[], (List.append_nil _).symm, .nil⟩

/-- **What a host collects is what it heard of the note**, each once and in order. -/
theorem Talk.collected (hH : H.Sound) (hK : K.Sound) {s : σ} {t : τ} {as : List (Side × Act T Id)} (hs : view s = [])
    (h : Talk H K s t as l) :
    List.Forall₂ (T.body n).Arrives (l.here.heard.filterMap (Msg.tellOf n)) (view l.here.desk.state) := by
  refine h.party hH hK (P := fun d _ hd => List.Forall₂ (T.body n).Arrives (hd.filterMap (Msg.tellOf n)) (view d.state))
    ?_ ?_ ?_
  · rw [hs]
    exact .nil
  · intro d a m d' sp hd hall hsp
    rw [hsp.state]
    exact hall
  · intro d m ms d' sp hd hall _ hr
    obtain ⟨ws, hview, hws⟩ := hr.collects hv
    rw [hview, List.filterMap_append]
    refine List.rel_append hall ?_
    rwa [show [m].filterMap (Msg.tellOf n) = (m.tellOf n).toList by cases h : m.tellOf n <;> simp [h]]

end Collected

/-- **Every note that was heard or is on its way was told by the host, in its order.** -/
theorem Talk.notes (hH : H.Sound) (hK : K.Sound) {s : σ} {t : τ} {as : List (Side × Act T Id)} (n : T.Note)
    (h : Talk H K s t as l) : notesOf n .there as =
      l.here.heard.filterMap (Msg.tellOf n) ++ l.here.unread.filterMap (Msg.tellOf n) ∧
        ∀ b ∈ notesOf n .there as, K.tells n b := by
  obtain ⟨-, hB⟩ := h.accounted hH hK
  have hwire : l.here.heard ++ l.here.unread = l.there.spoken := hB.wire
  rw [notesOf_spoken n h.said.2]
  refine ⟨by rw [← hwire, List.filterMap_append], fun b hb => ?_⟩
  obtain ⟨m, hm, he⟩ := List.mem_filterMap.1 hb
  obtain rfl := Msg.tellOf_inv n he
  exact hB.promised _ hm

theorem Concludes.results {c : T.Call} (hc : H.defers c = false) {ms : List (Msg T Id E)} {ds : List (Done T Id E)}
    (h : List.Forall₂ Concludes ms ds) (ht : ∀ m ∈ ms, H.Timely m) :
    List.Forall₂ (T.result c).Arrives (ms.filterMap (Msg.servedOf c)) (ds.filterMap (Done.resultOf c)) := by
  induction h with
  | nil => exact .nil
  | @cons m d ms ds hm _ ih =>
    have ih := ih (fun m' hm' => ht m' (List.mem_cons_of_mem _ hm'))
    have hlate := ht m List.mem_cons_self
    cases hm with
    | @answer a r r' late harr =>
      obtain ⟨i, c', v⟩ := a
      by_cases hcall : c' = c
      · subst hcall
        obtain rfl : late = false := Eq.trans hlate hc
        rw [List.filterMap_cons_some (Msg.servedOf_self _ r), List.filterMap_cons_some (Done.resultOf_self _ r')]
        exact .cons harr ih
      · rwa [List.filterMap_cons_none (Msg.servedOf_ne c hcall r late),
          List.filterMap_cons_none (Done.resultOf_ne c hcall _)]
    | refuse => exact ih

/-- **The calls of a name that have ended well carry what the other router answered to that name**, in its order and as
its host has promised. -/
theorem Talk.results (hH : H.Sound) (hK : K.Sound) {s : σ} {t : τ} {as : List (Side × Act T Id)} {c : T.Call}
    (hc : K.defers c = false) (h : Talk H K s t as l) : ∃ rs,
      rs <+: l.there.spoken.filterMap (Msg.servedOf c) ∧ (∀ r ∈ rs, ∃ v, K.keeps c v r) ∧
        List.Forall₂ (T.result c).Arrives rs (l.here.desk.done.filterMap (Done.resultOf c)) := by
  obtain ⟨hA, hB⟩ := h.accounted hH hK
  have hwire : l.here.heard ++ l.here.unread = l.there.spoken := hB.wire
  have htimely : ∀ m ∈ l.here.heard, K.Timely m := fun m hm =>
    h.swap.timely hK hH m (hwire ▸ List.mem_append_left _ hm)
  refine ⟨l.here.heard.filterMap (Msg.servedOf c), ?_, fun r hr => ?_, ?_⟩
  · rw [← hwire, List.filterMap_append]
    exact List.prefix_append _ _
  · obtain ⟨m, hm, he⟩ := List.mem_filterMap.1 hr
    obtain ⟨i, v, rfl⟩ := Msg.servedOf_inv c he
    obtain ⟨w, _, hk⟩ := hB.promised _ (hwire ▸ List.mem_append_left _ hm)
    exact ⟨w, hk⟩
  · have hres := Concludes.results hc hA.ended (fun m hm => htimely m (List.mem_filter.1 hm).1)
    have hends : ∀ m : Msg T Id E, (if m.ends?.isSome then m.servedOf c else none) = m.servedOf c := fun m => by
      cases m <;> rfl
    rwa [List.filterMap_filter, List.filterMap_congr (fun m _ => hends m)] at hres

/-! ## How often a call was made -/

section Counted

variable (c : T.Call)

def Ask.isOf (a : Ask T Id) : Bool := T.callName a.call == T.callName c

/-- How many calls of the name a host made. -/
def madeOf (side : Side) (as : List (Side × Act T Id)) : Nat :=
  (requestsOf side as).countP (fun r => T.callName r.1 == T.callName c)

/-- How many of them are in the messages. -/
def asksOf (ms : List (Msg T Id E)) : Nat := (ms.filterMap Msg.ask?).countP (Ask.isOf c)

theorem asksOf_append (ms ms' : List (Msg T Id E)) : asksOf c (ms ++ ms') = asksOf c ms + asksOf c ms' := by
  unfold asksOf
  rw [List.filterMap_append, List.countP_append]

theorem madeOf_spoken {ms : List (Msg T Id E)} {side : Side} {as : List (Side × Act T Id)}
    (h : ms.filterMap Msg.act? = saidBy side as) : madeOf c side as = asksOf c ms := by
  unfold madeOf asksOf
  rw [requestsOf_spoken h, List.countP_map]
  rfl

/-- **A call is heard before it ends and after it is made.** -/
theorem Talk.asked (hH : H.Sound) (hK : K.Sound) {s : σ} {t : τ} {as : List (Side × Act T Id)} (h : Talk H K s t as l) :
    l.there.desk.done.countP (fun d => d.ask.isOf c) ≤ asksOf c l.here.heard ∧
      asksOf c l.here.heard + asksOf c l.here.unread = madeOf c .there as := by
  obtain ⟨-, hB⟩ := h.accounted hH hK
  have hwire : l.here.heard ++ l.here.unread = l.there.spoken := hB.wire
  have hmade : asksOf c l.there.spoken = l.there.desk.done.countP (fun d => d.ask.isOf c) +
      l.there.desk.waiting.countP (Ask.isOf c) := by
    refine (hB.made.countP_eq _).trans ?_
    rw [List.countP_append, List.countP_map]
    rfl
  have hout : asksOf c l.here.unread ≤ l.there.desk.waiting.countP (Ask.isOf c) := by
    refine le_of_le_of_eq ?_ (hB.out.countP_eq _).symm
    rw [List.countP_append]
    exact Nat.le_add_right _ _
  rw [madeOf_spoken c h.said.2, ← asksOf_append, hwire]
  rw [← hwire, asksOf_append] at hmade
  exact ⟨by omega, rfl⟩

end Counted

end Wire
