import Acp.Wire.Rpc
/-!
# Simulation — a run is a talk

Whatever two hosts do around two engines that keep the laws, their peers are where a talk of the two is (`Run.talk`):
nothing is heard but what was said.  A call ends in what the other host has answered to it, answer by answer
(`At.ended`).
-/
namespace Wire

universe u

variable {T : Table.{u}} {Id E σ τ : Type} [DecidableEq Id]

/-- What the message carries can be put in a frame, and is read. -/
def Msg.Sendable : Msg T Id E → Prop
  | .ask a        => (T.params a.call).Sendable a.params
  | .tell n b     => (T.body n).Sendable b
  | .answer a r _ => (T.result a.call).Sendable r
  | .refuse _ _ _ => True

omit [DecidableEq Id] in
theorem Host.Sound.sendable {H : Host T σ} (hH : H.Sound) {m : Msg T Id E} (h : H.Says m) : m.Sendable := by
  cases m with
  | ask a => exact hH.asksSend _ _ h
  | tell n b => exact hH.tellsSend _ _ h
  | answer a r late =>
    obtain ⟨v, _, hk⟩ := h
    exact hH.keepsSend _ _ _ hk
  | refuse a e late => trivial

/-! ## A run is a talk -/

/-- A list whose elements have distinct ids is searched and cut at the one that is asked for. -/
theorem find?_id {α : Type u} {f : α → Id} {xs pre post : List α} {a : α} (h : xs = pre ++ a :: post)
    (hn : (xs.map f).Nodup) :
    xs.find? (fun x => f x == f a) = some a ∧ xs.eraseP (fun x => f x == f a) = pre ++ post := by
  subst h
  rw [List.map_append, List.map_cons, List.nodup_middle, List.nodup_cons] at hn
  have hpre : ∀ x ∈ pre, ¬ (f x == f a) = true := fun x hx he =>
    hn.1 (List.mem_append_left _ (List.mem_map.2 ⟨x, hx, eq_of_beq he⟩))
  constructor
  · rw [List.find?_append, List.find?_eq_none.2 hpre, Option.none_or, List.find?_cons_of_pos (by simp)]
  · rw [List.eraseP_append_right _ hpre, List.eraseP_cons_of_pos (by simp)]

theorem erase_toFinset {α : Type} [DecidableEq α] {pre post : List α} {a : α} (h : (pre ++ a :: post).Nodup) :
    (pre ++ a :: post).toFinset.erase a = (pre ++ post).toFinset := by
  rw [List.nodup_middle, List.nodup_cons] at h
  ext i
  simp only [Finset.mem_erase, List.mem_toFinset, List.mem_append, List.mem_cons]
  constructor
  · rintro ⟨hi, h | h | h⟩
    · exact .inl h
    · exact absurd h hi
    · exact .inr h
  · intro hi
    exact ⟨fun he => h.1 (List.mem_append.2 (he ▸ hi)), hi.imp id .inr⟩

/-- A call as it is on the wire. -/
def Ask.wire (a : Ask T Id) : Call Id := ⟨a.id, T.callName a.call, (T.params a.call).encode a.params⟩

variable (R : Rpc T Id E)

/-- The frame is the message. -/
def Brings (f : R.Frame) : Msg T Id E → Prop
  | .ask a        => R.BringsCall f a.wire
  | .tell n b     => R.BringsNote f ⟨T.noteName n, (T.body n).encode b⟩
  | .answer a r _ => R.Completes f ⟨a.id, .ok ((T.result a.call).encode r)⟩
  | .refuse a e _ => R.Completes f ⟨a.id, .error e⟩

/-- The message is what the host answered. -/
inductive Gives (H : Host T σ) : Given T Id → Msg T Id E → Prop
  | returned {a : Ask T Id} {h : σ → T.Params a.call → σ × Option (T.Result a.call)} {s : σ} {v : T.Params a.call}
      {r : T.Result a.call} (hm : .on a.call h ∈ H.router) (hv : (T.params a.call).Arrives a.params v)
      (hr : (h s v).2 = some r) : Gives H ⟨a.wire, .returned a.call v r⟩ (.answer a r false)
  | threw {a : Ask T Id} {h : σ → T.Params a.call → σ × Option (T.Result a.call)} {s : σ} {v : T.Params a.call} {e : E}
      (hm : .on a.call h ∈ H.router) (hv : (T.params a.call).Arrives a.params v) (hr : (h s v).2 = none) :
      Gives H ⟨a.wire, .threw a.call v⟩ (.refuse a e false)
  | unrouted {a : Ask T Id} {e : E} (hm : ∀ r ∈ H.router, r.callName? ≠ some (T.callName a.call)) :
      Gives H ⟨a.wire, .unrouted⟩ (.refuse a e false)
  | replied {a : Ask T Id} {r : T.Result a.call} : Gives H ⟨a.wire, .replied a.call r⟩ (.answer a r true)
  | refused {a : Ask T Id} {e : E} : Gives H ⟨a.wire, .refused⟩ (.refuse a e true)

/-- **The peer is where the desk is, with the messages as frames**, those still to be heard and the answers among those
that were said. -/
structure Shows (H : Host T σ) (p : Peer R σ) (d : Desk T Id E σ) (us sp : List (Msg T Id E)) : Prop where
  state    : p.state = d.state
  inbox    : List.Forall₂ (Brings R) p.inbox us
  asked    : p.asked = d.waiting
  deferred : p.deferred = d.parked.map Ask.wire
  given    : List.Forall₂ (Gives H) p.given (sp.filter (fun m => m.ends?.isSome))
  done     : p.done = d.done
  pending  : R.pending p.engine = (d.waiting.map Ask.id).toFinset

section Receive

variable {R : Rpc T Id E} (rs : List (Route T σ)) (p : Peer R σ) {f : R.Frame}

theorem Peer.receive_call {c : Call Id} (hf : R.BringsCall f c) :
    Peer.receive R rs p f = Peer.handle R rs ({ p with engine := (R.step p.engine f).1 }, []) c := by
  unfold Peer.receive
  simp [(hf p.engine).1]

omit [DecidableEq Id] in
theorem Peer.handle_some {c : Call Id} {s : σ} (h : R.handle rs p.state c = (s, some f)) :
    Peer.handle R rs (p, []) c =
      ({ p with state := s, given := p.given ++ [⟨c, answered rs p.state c⟩] }, [f]) := by
  unfold Peer.handle
  simp [h]

omit [DecidableEq Id] in
theorem Peer.handle_none {c : Call Id} {s : σ} (h : R.handle rs p.state c = (s, none)) :
    Peer.handle R rs (p, []) c = ({ p with state := s, deferred := p.deferred ++ [c] }, []) := by
  unfold Peer.handle
  simp [h]

theorem Peer.receive_note {n : Notification} (hf : R.BringsNote f n) :
    Peer.receive R rs p f =
      ({ p with engine := (R.step p.engine f).1, state := R.handleNote rs p.state n }, []) := by
  unfold Peer.receive
  simp [(hf p.engine).1]

theorem Peer.receive_completed {c : Completed Id E} (hc : c.id ∈ R.pending p.engine) (hf : R.Completes f c) :
    Peer.receive R rs p f = (Peer.complete R { p with engine := (R.step p.engine f).1 } c, []) := by
  unfold Peer.receive
  simp [(hf p.engine hc).1]

end Receive

section Simulation

variable {R : Rpc T Id E} (hR : R.Lawful) {H : Host T σ} (hH : H.Sound) {p p' : Peer R σ} {d : Desk T Id E σ}
  {us sp : List (Msg T Id E)}
include hR hH

omit hR hH in
/-- A deferred call that is found is one that is parked. -/
theorem Peer.find_deferred (hp : Shows R H p d us sp) (hn : (d.parked.map Ask.id).Nodup) {i : Id} {call : Call Id}
    (h : p.deferred.find? (fun d => d.id == i) = some call) : ∃ (a : Ask T Id) (pre post : List (Ask T Id)),
      a.wire = call ∧ a.id = i ∧ d.parked = pre ++ a :: post ∧
        p.deferred.eraseP (fun d => d.id == i) = (pre ++ post).map Ask.wire := by
  have hmem := List.mem_of_find?_eq_some h
  have hid : call.id = i := by simpa using List.find?_some h
  rw [hp.deferred] at hmem ⊢
  obtain ⟨a, ha, rfl⟩ := List.mem_map.1 hmem
  obtain rfl : a.id = i := hid
  obtain ⟨pre, post, hpre⟩ := List.append_of_mem ha
  refine ⟨a, pre, post, rfl, rfl, hpre, ?_⟩
  rw [List.eraseP_map, (find?_id (f := Ask.id) hpre hn).2.symm]
  rfl

/-- **What a host does but deliver, it says**, in one frame. -/
theorem Peer.act_speak (hp : Shows R H p d us sp) (hn : (d.parked.map Ask.id).Nodup)
    (hv : ∀ a ∈ d.parked, (T.params a.call).Sendable a.params) {a : Act T Id} (hd : a ≠ .deliver)
    (ha : Allowed R H p a) {fs : List R.Frame} (h : Peer.act R H.router p a = some (p', fs)) :
    ∃ m d' f, Speak H d a m d' ∧ fs = [f] ∧ Brings R f m ∧ Shows R H p' d' us (sp ++ [m]) := by
  cases a with
  | request c v =>
    cases h
    obtain ⟨f, hf, hb⟩ := hR.request_send p.engine (T.callName c) _ (hH.asksSend c v ha).1
    have hfresh := hR.request_fresh p.engine (T.callName c) ((T.params c).encode v)
    have hpend := hR.request_pending p.engine (T.callName c) ((T.params c).encode v)
    rw [hp.pending] at hfresh hpend
    refine ⟨.ask ⟨_, c, v⟩, _, f, .request ⟨_, c, v⟩ ha (by simpa using hfresh), by rw [hf], hb, ?_⟩
    exact
      { state := hp.state, inbox := hp.inbox, deferred := hp.deferred, done := hp.done
        given := by simpa using hp.given
        asked := congrArg (· ++ [_]) hp.asked
        pending := by
          refine hpend.trans ?_
          ext i
          simp }
  | notify n b =>
    cases h
    exact ⟨.tell n b, _, _, .notify n b ha, rfl, hR.notify _ _ (hH.tellsSend n b ha).1, hp.state, hp.inbox, hp.asked,
      hp.deferred, by simpa using hp.given, hp.done, hp.pending⟩
  | deliver => exact absurd rfl hd
  | reply i c r =>
    simp only [Peer.act] at h
    split at h
    · rename_i call hfind
      split at h
      · rename_i hname
        cases h
        obtain ⟨a, pre, post, rfl, rfl, hpre, hdef⟩ := Peer.find_deferred hp hn hfind
        obtain rfl : a.call = c := T.callName_inj _ _ hname
        have hmem : a ∈ d.parked := by
          rw [hpre]
          exact List.mem_append_right _ List.mem_cons_self
        obtain ⟨-, v, hv⟩ := hv a hmem
        have hk : H.keeps a.call v r := ha a.wire (by rw [hp.deferred]; exact List.mem_map_of_mem hmem) rfl v hv
        refine ⟨.answer a r true, _, _, .reply a r hpre hv hk, rfl, hR.reply _ _ (hH.keepsSend _ _ _ hk).1, ?_⟩
        exact
          { state := hp.state, inbox := hp.inbox, asked := hp.asked, done := hp.done, pending := hp.pending
            deferred := hdef
            given := by
              rw [List.filter_append]
              exact List.rel_append hp.given (.cons .replied .nil) }
      · cases h
    · cases h
  | refuse i =>
    simp only [Peer.act] at h
    split at h
    · rename_i call hfind
      cases h
      obtain ⟨a, pre, post, rfl, rfl, hpre, hdef⟩ := Peer.find_deferred hp hn hfind
      obtain ⟨e, hb⟩ := hR.refuse a.id
      refine ⟨.refuse a e true, _, _, .refuse a e hpre, rfl, hb, ?_⟩
      exact
        { state := hp.state, inbox := hp.inbox, asked := hp.asked, done := hp.done, pending := hp.pending
          deferred := hdef
          given := by
            rw [List.filter_append]
            exact List.rel_append hp.given (.cons .refused .nil) }
    · cases h

omit hR hH in
/-- A completion ends the request that waits for it. -/
theorem Peer.complete_finish {m : Msg T Id E} {c : Done T Id E} {f : R.Frame}
    {o : Except E Json} (hp : Shows R H p d us sp) (hn : (d.waiting.map Ask.id).Nodup)
    (hw : c.ask ∈ d.waiting) (hf : R.Completes f ⟨c.ask.id, o⟩) (hm : Concludes m c)
    (ho : R.result (T.result c.ask.call) ⟨c.ask.id, o⟩ = c.result) :
    ∃ d', React H d m [] d' ∧ (Peer.receive R H.router p f).2 = [] ∧
      Shows R H (Peer.receive R H.router p f).1 d' us sp := by
  obtain ⟨pre, post, hpre⟩ := List.append_of_mem hw
  obtain ⟨hfind, herase⟩ := find?_id hpre hn
  have hpend : c.ask.id ∈ R.pending p.engine := by
    rw [hp.pending, List.mem_toFinset]
    exact List.mem_map_of_mem hw
  rw [Peer.receive_completed H.router p hpend hf]
  refine ⟨_, .finish hm hpre, rfl, ?_⟩
  have hc : Peer.complete R { p with engine := (R.step p.engine f).1 } ⟨c.ask.id, o⟩ =
      { p with engine := (R.step p.engine f).1, asked := pre ++ post, done := p.done ++ [c] } := by
    unfold Peer.complete
    rw [hp.asked, hfind, herase]
    simp only [ho]
  rw [hc]
  exact
    { state := hp.state, inbox := hp.inbox, deferred := hp.deferred, given := hp.given, asked := rfl
      done := congrArg (· ++ [c]) hp.done
      pending := by
        rw [hpre, List.map_append, List.map_cons] at hn
        refine ((hf p.engine hpend).2.trans (congrArg (Finset.erase · c.ask.id) hp.pending)).trans ?_
        rw [hpre, List.map_append, List.map_cons, List.map_append]
        exact erase_toFinset hn }

omit hR hH in
/-- What is answered to a call is on the account, and in the frame that goes back. -/
theorem Peer.shows_answered (hp : Shows R H p d us sp) {m : Msg T Id E} {g : Given T Id} {s : σ} (e : R.Engine)
    (he : R.pending e = R.pending p.engine) (hm : m.ends?.isSome = true) (hg : Gives H g m) :
    Shows R H { p with engine := e, state := s, given := p.given ++ [g] } { d with state := s } us (sp ++ [m]) where
  state := rfl
  inbox := hp.inbox
  asked := hp.asked
  deferred := hp.deferred
  given := by
    rw [List.filter_append, show [m].filter (fun m => m.ends?.isSome) = [m] from List.filter_cons_of_pos hm]
    exact List.rel_append hp.given (.cons hg .nil)
  done := hp.done
  pending := he.trans hp.pending

/-- **What a host is told, its router reacts to**, and the frames that go back are the messages it answers. -/
theorem Peer.receive_react {f : R.Frame} {m : Msg T Id E}
    (hp : Shows R H p d us sp) (hf : Brings R f m) (hm : m.Sendable)
    (hn : (d.waiting.map Ask.id).Nodup) (hw : ∀ a, m.ends? = some a → a ∈ d.waiting) :
    ∃ ms d', React H d m ms d' ∧ List.Forall₂ (Brings R) (Peer.receive R H.router p f).2 ms ∧
      Shows R H (Peer.receive R H.router p f).1 d' us (sp ++ ms) := by
  cases m with
  | ask a =>
    obtain ⟨-, v, hv⟩ := hm
    have hpend := (hf p.engine).2
    rw [Peer.receive_call H.router p hf]
    rcases H.call_cases a.call with ⟨h, hr⟩ | hr | hr
    · cases hres : (h d.state v).2 with
      | some r =>
        have hsend := (hH.keepsSend _ _ _ (hH.serves _ _ hr d.state _ _ hv r hres)).1
        rw [← hp.state] at hres
        obtain ⟨g, hg, hb⟩ := hR.handle_on H.router hH.calls a.call h hr p.state a.id _ v r hv hres hsend
        change R.handle H.router p.state a.wire = _ at hg
        have hans : answered H.router p.state a.wire = _ := answered_returned hH hr p.state a.id hv hres
        rw [Peer.handle_some H.router { p with engine := (R.step p.engine f).1 } hg, hans]
        have hshow := Peer.shows_answered hp (s := (h p.state v).1) _ hpend rfl (.returned (E := E) hr hv hres)
        rw [hp.state] at hres hshow ⊢
        exact ⟨_, _, .serve hr hv hres, .cons hb .nil, hshow⟩
      | none =>
        rw [← hp.state] at hres
        obtain ⟨e, g, hg, hb⟩ := hR.handle_throw H.router hH.calls a.call h hr p.state a.id _ v hv hres
        change R.handle H.router p.state a.wire = _ at hg
        have hans : answered H.router p.state a.wire = _ := answered_threw hH hr p.state a.id hv hres
        rw [Peer.handle_some H.router { p with engine := (R.step p.engine f).1 } hg, hans]
        have hshow := Peer.shows_answered hp (s := (h p.state v).1) _ hpend rfl (.threw (e := e) hr hv hres)
        rw [hp.state] at hres hshow ⊢
        exact ⟨_, _, .throw hr hv hres e, .cons hb .nil, hshow⟩
    · have hg : R.handle H.router p.state a.wire = _ := hR.handle_defer H.router hH.calls a.call hr p.state a.id _
      rw [Peer.handle_none H.router { p with engine := (R.step p.engine f).1 } hg]
      refine ⟨_, _, .park hr, .nil, hp.state, hp.inbox, hp.asked, ?_, ?_, hp.done, hpend.trans hp.pending⟩
      · rw [List.map_append]
        exact congrArg (· ++ [a.wire]) hp.deferred
      · rw [List.append_nil]
        exact hp.given
    · obtain ⟨e, g, hg, hb⟩ := hR.handle_other H.router _ hr p.state a.id ((T.params a.call).encode a.params)
      change R.handle H.router p.state a.wire = _ at hg
      have hans : answered H.router p.state a.wire = _ := answered_unrouted p.state hr
      rw [Peer.handle_some H.router { p with engine := (R.step p.engine f).1 } hg, hans]
      have hshow := Peer.shows_answered hp (s := p.state) _ hpend rfl (.unrouted (e := e) hr)
      rw [hp.state] at hshow ⊢
      exact ⟨_, _, .turnAway hr e, .cons hb .nil, hshow⟩
  | tell n b =>
    obtain ⟨-, w, hw'⟩ := hm
    have hpend := (hf p.engine).2.trans hp.pending
    rw [Peer.receive_note H.router p hf]
    refine ⟨[], ?_⟩
    rw [List.append_nil]
    rcases H.note_cases n with ⟨h, hr⟩ | hr
    · rw [hR.note_on H.router hH.notes n h hr p.state _ w hw']
      refine ⟨_, .note hr hw', .nil, ?_, hp.inbox, hp.asked, hp.deferred, hp.given, hp.done, hpend⟩
      exact congrArg (h · w) hp.state
    · rw [hR.note_other H.router _ hr]
      exact ⟨_, .ignore hr, .nil, hp.state, hp.inbox, hp.asked, hp.deferred, hp.given, hp.done, hpend⟩
  | answer a r late =>
    obtain ⟨-, r', hr⟩ := hm
    obtain ⟨d', hd, hback, hs⟩ := Peer.complete_finish (c := ⟨a, .ok r'⟩) hp hn (hw a rfl) hf (.answer hr)
      (hR.result_ok _ a.id _ r' hr)
    exact ⟨[], d', hd, hback ▸ .nil, (List.append_nil sp).symm ▸ hs⟩
  | refuse a e late =>
    obtain ⟨d', hd, hback, hs⟩ := Peer.complete_finish (c := ⟨a, .error e⟩) hp hn (hw a rfl) hf .refuse
      (hR.result_error _ a.id e)
    exact ⟨[], d', hd, hback ▸ .nil, (List.append_nil sp).symm ▸ hs⟩

end Simulation

section Runs

variable {R : Rpc T Id E} (hR : R.Lawful) {H : Host T σ} {K : Host T τ}

/-- **What one peer does is a move of its host.** -/
theorem Link.act_moves (hR : R.Lawful) (hH : H.Sound) (hK : K.Sound) {l l' : Link (Peer R σ) (Peer R τ)}
    {L : Link (Party T Id E σ) (Party T Id E τ)} (hA : Accounted H L) (hB : Accounted K L.swap)
    (hs : Shows R H l.here L.here.desk L.here.unread L.here.spoken)
    (ht : Shows R K l.there L.there.desk L.there.unread L.there.spoken)
    {a : Act T Id} (ha : Allowed R H l.here a) (h : l.act R H.router a = some l') :
    ∃ L', Moves H L a L' ∧ Shows R H l'.here L'.here.desk L'.here.unread L'.here.spoken ∧
      Shows R K l'.there L'.there.desk L'.there.unread L'.there.spoken := by
  unfold Link.act at h
  obtain ⟨⟨p', fs⟩, hact, rfl⟩ := Option.map_eq_some_iff.1 h
  have hgrow : ∀ ms, List.Forall₂ (Brings R) fs ms →
      Shows R K { l.there with inbox := l.there.inbox ++ fs } L.there.desk (L.there.unread ++ ms) L.there.spoken :=
    fun ms hms => { ht with inbox := List.rel_append ht.inbox hms }
  by_cases hd : a = .deliver
  · subst hd
    simp only [Peer.act] at hact
    split at hact
    · cases hact
    · rename_i f fs' hin
      cases hact
      have hbox := hs.inbox
      rw [hin] at hbox
      cases hu : L.here.unread with
      | nil => rw [hu] at hbox; cases hbox
      | cons m rest =>
        rw [hu] at hbox
        obtain ⟨hf, hrest⟩ := List.forall₂_cons.1 hbox
        have hmem : m ∈ L.here.unread := by
          rw [hu]
          exact List.mem_cons_self
        obtain ⟨ms, d, hr, hback, hshow⟩ := Peer.receive_react hR hH (p := { l.here with inbox := fs' })
          { hs with inbox := hrest } hf (hK.sendable (hB.unread_promised hmem)) hA.ids (hA.ends_waiting hmem)
        exact ⟨_, .hear hu hr, hshow, hgrow ms hback⟩
  · obtain ⟨m, d, f, hsp, rfl, hb, hshow⟩ := Peer.act_speak hR hH hs hB.parked_ids
      (fun a ha => hK.asksSend _ _ (hB.parked_asked ha)) hd ha hact
    exact ⟨_, .speak hsp, hshow, hgrow [m] (.cons hb .nil)⟩

/-- **A run is a talk**: whatever the two hosts do, and in whatever order, their peers are where a talk of the two is. -/
theorem Run.talk (hR : R.Lawful) (hH : H.Sound) (hK : K.Sound) {s : σ} {t : τ} {as : List (Side × Act T Id)}
    {l : Link (Peer R σ) (Peer R τ)} (h : Run R H K s t as l) :
    ∃ L, Talk H K s t as L ∧ Shows R H l.here L.here.desk L.here.unread L.here.spoken ∧
      Shows R K l.there L.there.desk L.there.unread L.there.spoken := by
  induction h with
  | start =>
    exact ⟨_, .start, ⟨rfl, .nil, rfl, rfl, .nil, rfl, hR.start_pending⟩,
      ⟨rfl, .nil, rfl, rfl, .nil, rfl, hR.start_pending⟩⟩
  | here a _ ha hs ih =>
    obtain ⟨L, hL, h1, h2⟩ := ih
    obtain ⟨hA, hB⟩ := hL.accounted hH hK
    obtain ⟨L', hm, h1', h2'⟩ := Link.act_moves hR hH hK hA hB h1 h2 ha hs
    exact ⟨L', hL.here hm, h1', h2'⟩
  | there a _ ha hs ih =>
    obtain ⟨L, hL, h1, h2⟩ := ih
    obtain ⟨hA, hB⟩ := hL.accounted hH hK
    obtain ⟨L', hm, h2', h1'⟩ := Link.act_moves (L := L.swap) hR hK hH hB hA h2 h1 ha hs
    exact ⟨L'.swap, hL.there hm, h1', h2'⟩

end Runs

section Points

variable {R : Rpc T Id E} {H : Host T σ} {K : Host T τ} {s : σ} {t : τ}

/-- A run at a point of a talk. -/
structure At (R : Rpc T Id E) (H : Host T σ) (K : Host T τ) (s : σ) (t : τ) (as : List (Side × Act T Id))
    (l : Link (Peer R σ) (Peer R τ)) (L : Link (Party T Id E σ) (Party T Id E τ)) : Prop where
  run   : Run R H K s t as l
  talk  : Talk H K s t as L
  here  : Shows R H l.here L.here.desk L.here.unread L.here.spoken
  there : Shows R K l.there L.there.desk L.there.unread L.there.spoken

theorem Run.at (hR : R.Lawful) (hH : H.Sound) (hK : K.Sound) {as : List (Side × Act T Id)}
    {l : Link (Peer R σ) (Peer R τ)} (h : Run R H K s t as l) : ∃ L, At R H K s t as l L := by
  obtain ⟨L, hL, h1, h2⟩ := h.talk hR hH hK
  exact ⟨L, h, hL, h1, h2⟩

theorem Run.swap {as : List (Side × Act T Id)} {l : Link (Peer R σ) (Peer R τ)} (h : Run R H K s t as l) :
    Run R K H t s (flipped as) l.swap := by
  induction h with
  | start => exact .start
  | here a _ ha hs ih =>
    unfold flipped
    rw [List.map_append]
    exact ih.there a ha hs
  | there a _ ha hs ih =>
    unfold flipped
    rw [List.map_append]
    exact ih.here a ha hs

theorem At.swap {as : List (Side × Act T Id)} {l : Link (Peer R σ) (Peer R τ)}
    {L : Link (Party T Id E σ) (Party T Id E τ)} (h : At R H K s t as l L) :
    At R K H t s (flipped as) l.swap L.swap := ⟨h.run.swap, h.talk.swap, h.there, h.here⟩

end Points

/-! ## How calls end -/

section Ends

variable {R : Rpc T Id E} {H : Host T σ} {K : Host T τ} {s : σ} {t : τ}

/-- **A call has ended in what the host answered to it**: in the result of a handler's on what arrived, or one it gave
later, as it arrived; or in an error, where the handler threw, the host refused later, or it does not route the call. -/
inductive Ended (K : Host T τ) : Given T Id → Done T Id E → Prop
  | returned {a : Ask T Id} {h : τ → T.Params a.call → τ × Option (T.Result a.call)} {t : τ} {v : T.Params a.call}
      {r r' : T.Result a.call} (hm : .on a.call h ∈ K.router) (hv : (T.params a.call).Arrives a.params v)
      (hr : (h t v).2 = some r) (hr' : (T.result a.call).Arrives r r') :
      Ended K ⟨a.wire, .returned a.call v r⟩ ⟨a, .ok r'⟩
  | replied {a : Ask T Id} {v : T.Params a.call} {r r' : T.Result a.call} (hm : .defer a.call ∈ K.router)
      (hv : (T.params a.call).Arrives a.params v) (hk : K.keeps a.call v r) (hr' : (T.result a.call).Arrives r r') :
      Ended K ⟨a.wire, .replied a.call r⟩ ⟨a, .ok r'⟩
  | threw {a : Ask T Id} {h : τ → T.Params a.call → τ × Option (T.Result a.call)} {t : τ} {v : T.Params a.call} {e : E}
      (hm : .on a.call h ∈ K.router) (hv : (T.params a.call).Arrives a.params v) (hr : (h t v).2 = none) :
      Ended K ⟨a.wire, .threw a.call v⟩ ⟨a, .error e⟩
  | refused {a : Ask T Id} {e : E} (hm : .defer a.call ∈ K.router) : Ended K ⟨a.wire, .refused⟩ ⟨a, .error e⟩
  | unrouted {a : Ask T Id} {e : E} (hm : ∀ r ∈ K.router, r.callName? ≠ some (T.callName a.call)) :
      Ended K ⟨a.wire, .unrouted⟩ ⟨a, .error e⟩

omit [DecidableEq Id] in
/-- What a message that was heard ends, what was answered by it has ended. -/
theorem Gives.ended {g : Given T Id} {m : Msg T Id E} {d : Done T Id E} (hg : Gives K g m) (hs : K.Says m)
    (ht : K.Timely m) (hc : Concludes m d) : Ended K g d := by
  cases hg with
  | returned hm hv hr =>
    cases hc with
    | answer hr' => exact .returned hm hv hr hr'
  | replied =>
    obtain ⟨v, hv, hk⟩ := hs
    cases hc with
    | answer hr' => exact .replied (Host.defers_iff.1 (Eq.symm ht)) hv hk hr'
  | threw hm hv hr =>
    cases hc
    exact .threw hm hv hr
  | refused =>
    cases hc
    exact .refused (Host.defers_iff.1 (Eq.symm ht))
  | unrouted hm =>
    cases hc
    exact .unrouted hm

/-- **The calls of one host end in the answers of the other**, one by one and in their order. -/
theorem At.ended (hH : H.Sound) (hK : K.Sound) {as : List (Side × Act T Id)} {l : Link (Peer R σ) (Peer R τ)}
    {L : Link (Party T Id E σ) (Party T Id E τ)} (h : At R H K s t as l L) :
    List.Forall₂ (Ended K) (l.there.given.take l.here.done.length) l.here.done := by
  obtain ⟨hA, hB⟩ := h.talk.accounted hH hK
  have hwire : L.here.heard ++ L.here.unread = L.there.spoken := hB.wire
  have hended := hA.ended
  have hgiven := h.there.given
  rw [← hwire, List.filter_append] at hgiven
  have hheard := List.forall₂_take_append _ _ _ hgiven
  rw [hended.length_eq] at hheard
  have hspoken : ∀ m ∈ L.here.heard.filter (fun m => m.ends?.isSome), K.Says m ∧ K.Timely m := fun m hm => by
    have hm' : m ∈ L.there.spoken := hwire ▸ List.mem_append_left _ (List.mem_filter.1 hm).1
    exact ⟨hB.promised m hm', h.talk.swap.timely hK hH m hm'⟩
  rw [h.here.done]
  refine (forall₂_comp hheard ((List.forall₂_and_left _ _).2 ⟨hspoken, hended⟩)).imp (fun g d hgd => ?_)
  obtain ⟨m, hg, ⟨hs, ht⟩, hc⟩ := hgd
  exact hg.ended hs ht hc

/-- A call that has ended was asked. -/
theorem At.done_asked (hH : H.Sound) (hK : K.Sound) {as : List (Side × Act T Id)} {l : Link (Peer R σ) (Peer R τ)}
    {L : Link (Party T Id E σ) (Party T Id E τ)} (h : At R H K s t as l L) :
    ∀ d ∈ l.here.done, H.asks d.ask.call d.ask.params := fun d hd => by
  obtain ⟨hA, -⟩ := h.talk.accounted hH hK
  exact hA.done_asked (h.here.done ▸ hd)

end Ends

end Wire
