import Acp.Loopback
import Acp.Handshake
import Acp.Wire.Loop
/-!
# Conversation — what holds of a client and an agent in every run

Over any engine that keeps the laws, and in whatever order the two hosts act: a call ends in what its peer has answered
to it (`calls_end_well`), none waits when all is delivered and answered (`quiet_exchange`), and three rounds of the
test's loop deliver all (`loops_settle`).  Updates are collected as they were told and before the turn ends
(`updates_in_order`), session ids are given once (`session_ids_distinct`), both ends of an initialize hold the same
(`initialize_agreed`), and a permission is one that was offered (`permission_was_offered`).  A run is what the hosts
ask, tell, deliver and answer; time does not pass in it, no request is cancelled, and no stream is closed.
-/
namespace Acp

open Wire

section Runs

variable {L : Jsonrpc} {b : Build} {Id E σ τ : Type} [DecidableEq Id] {R : Rpc (table L b) Id E}
  {C : Host (table L b) σ} {A : Host (table L b) τ} {s : σ} {t : τ} {as : List (Side × Act (table L b) Id)}
  {l : Link (Peer R σ) (Peer R τ)}

/-! ## Calls -/

theorem ended_well (hL : L.Lawful) (hR : R.Lawful) (hC : Proper C) (hA : Proper A) (h : Run R C A s t as l) :
    List.Forall₂ (EndedWell A) (l.there.given.take l.here.done.length) l.here.done := by
  obtain ⟨T, hT⟩ := h.at hR (hC.sound hL) (hA.sound hL)
  have hasked : ∀ d ∈ l.here.done, d.ask.call.1.paramsOk d.ask.params := fun d hd =>
    (hC.asks _ _ (hT.done_asked (hC.sound hL) (hA.sound hL) d hd)).1
  have hended := (hT.ended (hC.sound hL) (hA.sound hL)).flip
  exact (((List.forall₂_and_left _ _).2 ⟨hasked, hended⟩).imp (fun d g hd => hA.endedWell hL hd.1 hd.2)).flip

/-- **A call ends well**: whatever the two hosts do and in whatever order, the n-th call of either that has ended has
ended in the n-th answer of its peer's, and this answer was given to that very call, for the normal form of what it
asked. -/
theorem calls_end_well (hL : L.Lawful) (hR : R.Lawful) (hC : Proper C) (hA : Proper A) (h : Run R C A s t as l) :
    List.Forall₂ (EndedWell A) (l.there.given.take l.here.done.length) l.here.done ∧
      List.Forall₂ (EndedWell C) (l.here.given.take l.there.done.length) l.there.done :=
  ⟨ended_well hL hR hC hA h, ended_well hL hR hA hC h.swap⟩

/-- Five calls of the client's have ended, in a result or an error, and one of the agent's. -/
theorem calls_end_well_test : ∃ l, loopbackAfter busyTest = some l ∧ l.here.done.length = 5 ∧ l.there.done.length = 1 ∧
    List.Forall₂ (EndedWell testAgent) (l.there.given.take l.here.done.length) l.here.done ∧
      List.Forall₂ (EndedWell testClient) (l.here.given.take l.there.done.length) l.there.done :=
  ⟨_, rfl, rfl, rfl, calls_end_well reference_lawful (plain_lawful _) testClient_proper testAgent_proper
    (loopback_run busyTest_allowed rfl)⟩

/-- What a call has ended in is on the account of the peer. -/
theorem ended_given (hL : L.Lawful) (hR : R.Lawful) (hC : Proper C) (hA : Proper A) (h : Run R C A s t as l)
    {d : Done (table L b) Id E} (hd : d ∈ l.here.done) : ∃ g ∈ l.there.given, EndedWell A g d := by
  obtain ⟨g, hg, hw⟩ := forall₂_mem_right (ended_well hL hR hC hA h) hd
  exact ⟨g, List.mem_of_mem_take hg, hw⟩

theorem quiet_here (hL : L.Lawful) (hR : R.Lawful) (hC : Proper C) (hA : Proper A) (h : Run R C A s t as l)
    (hi : l.here.inbox = []) (hi' : l.there.inbox = []) (hd : l.there.deferred = []) :
    R.pending l.here.engine = ∅ ∧ (requestsOf .here as).Perm (l.here.done.map (fun d => d.ask.asked)) := by
  obtain ⟨T, hT⟩ := h.at hR (hC.sound hL) (hA.sound hL)
  have hp : R.pending l.here.engine = ∅ := by
    rw [(hT.quiet (hC.sound hL) (hA.sound hL) hi hi').1, Peer.owes, hd]
    rfl
  have hw : T.here.desk.waiting = [] := by
    rw [hT.here.pending, List.toFinset_eq_empty_iff] at hp
    exact List.map_eq_nil_iff.1 hp
  have hreq := hT.talk.requests (hC.sound hL) (hA.sound hL)
  rw [hw, List.map_nil, List.append_nil, ← hT.here.done] at hreq
  exact ⟨hp, hreq⟩

/-- **When all is delivered and nothing deferred, no request is pending**, and every call that was made has ended, once. -/
theorem quiet_exchange (hL : L.Lawful) (hR : R.Lawful) (hC : Proper C) (hA : Proper A) (h : Run R C A s t as l)
    (hi : l.here.inbox = [] ∧ l.there.inbox = []) (hd : l.here.deferred = [] ∧ l.there.deferred = []) :
    (R.pending l.here.engine = ∅ ∧ (requestsOf .here as).Perm (l.here.done.map (fun d => d.ask.asked))) ∧
      R.pending l.there.engine = ∅ ∧ (requestsOf .there as).Perm (l.there.done.map (fun d => d.ask.asked)) := by
  have hother := quiet_here hL hR hA hC h.swap hi.2 hi.1 hd.1
  rw [requestsOf_flipped] at hother
  exact ⟨quiet_here hL hR hC hA h hi.1 hi.2 hd.2, hother⟩

theorem quiet_exchange_test : ∃ l, loopbackAfter loopbackTest = some l ∧
    ((plain (table reference {})).pending l.here.engine = ∅ ∧
      (requestsOf .here loopbackTest).Perm (l.here.done.map (fun d => d.ask.asked))) ∧
    (plain (table reference {})).pending l.there.engine = ∅ ∧
      (requestsOf .there loopbackTest).Perm (l.there.done.map (fun d => d.ask.asked)) :=
  ⟨_, rfl, quiet_exchange reference_lawful (plain_lawful _) testClient_proper testAgent_proper
    (loopback_run loopbackTest_allowed rfl) ⟨rfl, rfl⟩ ⟨rfl, rfl⟩⟩

/-- **Three rounds of the test's loop deliver all there is**: from wherever a run has come to, and by deliveries alone,
both wires are empty, and each engine waits for what the other host has deferred and for nothing else. -/
theorem loops_settle (hL : L.Lawful) (hR : R.Lawful) (hC : Proper C) (hA : Proper A) (h : Run R C A s t as l) :
    ∃ ds, Delivers ds ∧ Run R C A s t (as ++ ds) (l.settle C.router A.router) ∧
      ((l.settle C.router A.router).here.inbox = [] ∧ (l.settle C.router A.router).there.inbox = []) ∧
      R.pending (l.settle C.router A.router).here.engine = (l.settle C.router A.router).there.owes ∧
      R.pending (l.settle C.router A.router).there.engine = (l.settle C.router A.router).here.owes := by
  obtain ⟨T, hT⟩ := h.at hR (hC.sound hL) (hA.sound hL)
  obtain ⟨ds, T', hds, hT', hu, hu'⟩ := hT.settle hR (hC.sound hL) (hA.sound hL)
  have hi : (l.settle C.router A.router).here.inbox = [] := List.forall₂_nil_right_iff.1 (hu ▸ hT'.here.inbox)
  have hi' : (l.settle C.router A.router).there.inbox = [] := List.forall₂_nil_right_iff.1 (hu' ▸ hT'.there.inbox)
  exact ⟨ds, hds, hT'.run, ⟨hi, hi'⟩, hT'.quiet (hC.sound hL) (hA.sound hL) hi hi'⟩

/-- With an update and a request on the wire. -/
theorem loops_settle_test : ∃ l, loopbackAfter (loopbackTest.take 10) = some l ∧ l.here.inbox.length = 2 ∧ ∃ ds,
    Delivers ds ∧ Run (plain (table reference {})) testClient testAgent {} {} (loopbackTest.take 10 ++ ds)
      (l.settle testClient.router testAgent.router) ∧
    ((l.settle testClient.router testAgent.router).here.inbox = [] ∧
      (l.settle testClient.router testAgent.router).there.inbox = []) ∧
    (plain (table reference {})).pending (l.settle testClient.router testAgent.router).here.engine =
      (l.settle testClient.router testAgent.router).there.owes ∧
    (plain (table reference {})).pending (l.settle testClient.router testAgent.router).there.engine =
      (l.settle testClient.router testAgent.router).here.owes :=
  ⟨_, rfl, rfl, loops_settle reference_lawful (plain_lawful _) testClient_proper testAgent_proper
    (loopback_run (fun q hq => loopbackTest_allowed q (List.mem_of_mem_take hq)) rfl)⟩

/-! ## Turns -/

/-- The updates that a host sent. -/
def updatesOf (side : Side) (as : List (Side × Act (table L b) Id)) : List SessionUpdateMsg :=
  notesOf (T := table L b) ToClient.sessionUpdateNote side as

/-- The updates among messages. -/
def updatesIn (ms : List (Msg (table L b) Id E)) : List SessionUpdateMsg :=
  ms.filterMap (Msg.tellOf (T := table L b) ToClient.sessionUpdateNote)

omit [DecidableEq Id] in
theorem updatesIn_append (ms ms' : List (Msg (table L b) Id E)) :
    updatesIn (ms ++ ms') = updatesIn ms ++ updatesIn ms' := List.filterMap_append

omit [DecidableEq Id] in
theorem updates_arrive (hL : L.Lawful) {ms ws : List SessionUpdateMsg} (hms : ∀ m ∈ ms, metaOk m)
    (h : List.Forall₂ (L.codec SessionUpdateMsg).Arrives ms ws) : ws = ms.map norm := by
  induction h with
  | nil => rfl
  | @cons m w ms ws hm _ ih =>
    have hw : w = norm m := hm.unique (Crosses.arrives hL m (hms m List.mem_cons_self))
    rw [List.map_cons, ih (fun m' hm' => hms m' (List.mem_cons_of_mem _ hm')), hw]

/-- **Updates come in order, once each, and before the turn ends**: what a client has collected is the first of the
updates that the agent told, as normal forms; it is all of them when the wire is empty; and once more deferred calls have
ended than the agent had answered at some point, it has all that were told by then. -/
theorem updates_in_order (hL : L.Lawful) (hR : R.Lawful) (hC : Proper C) (hA : Proper A)
    {view : σ → List SessionUpdateMsg} (hv : C.Collects ToClient.sessionUpdateNote view) (hs : view s = []) (h : Run R C A s t as l) :
    view l.here.state <+: (updatesOf .there as).map norm ∧
      (l.here.inbox = [] → view l.here.state = (updatesOf .there as).map norm) ∧
      ∀ pre post, as = pre ++ post → repliesOf .there pre < l.here.done.countP (fun d => A.defers d.ask.call) →
        (updatesOf .there pre).map norm <+: view l.here.state := by
  obtain ⟨T, hT⟩ := h.at hR (hC.sound hL) (hA.sound hL)
  have hcollected := hT.talk.collected hv (hC.sound hL) (hA.sound hL) hs
  obtain ⟨hsplit, htold⟩ := hT.talk.notes (hC.sound hL) (hA.sound hL) ToClient.sessionUpdateNote
  have hnotes : updatesOf .there as = updatesIn T.here.heard ++ updatesIn T.here.unread := hsplit
  have hview : view l.here.state = (updatesIn T.here.heard).map norm := by
    rw [hT.here.state]
    have hm : ∀ m ∈ updatesIn T.here.heard, m ∈ updatesOf .there as := fun m hm =>
      hnotes ▸ List.mem_append_left _ hm
    exact updates_arrive hL (fun m h => (hA.tells ToClient.sessionUpdateNote m (htold m (hm m h))).1) hcollected
  rw [hview, hnotes, List.map_append]
  refine ⟨List.prefix_append _ _, fun hi => ?_, fun pre post has hn => ?_⟩
  · have hu : T.here.unread = [] := List.forall₂_nil_left_iff.1 (hi ▸ hT.here.inbox)
    rw [hu]
    exact (List.append_nil _).symm
  · subst has
    rw [hT.here.done] at hn
    obtain ⟨before, after, hheard, hbefore⟩ := hT.talk.turn (hC.sound hL) (hA.sound hL) hn
    have hpre : updatesOf .there pre = updatesIn before :=
      notesOf_spoken (T := table L b) ToClient.sessionUpdateNote hbefore
    rw [hpre, hheard, updatesIn_append, List.map_append]
    exact List.prefix_append _ _

/-- Two updates, and the turn they were told in has ended. -/
theorem updates_in_order_test : ∃ l, loopbackAfter busyTest = some l ∧ l.here.state.updates.length = 2 ∧
    l.here.done.countP (fun d => testAgent.defers d.ask.call) = 2 ∧
    l.here.state.updates <+: (updatesOf .there busyTest).map norm ∧
    (l.here.inbox = [] → l.here.state.updates = (updatesOf .there busyTest).map norm) ∧
    ∀ pre post, busyTest = pre ++ post →
      repliesOf .there pre < l.here.done.countP (fun d => testAgent.defers d.ask.call) →
        (updatesOf .there pre).map norm <+: l.here.state.updates :=
  ⟨_, rfl, rfl, rfl, updates_in_order reference_lawful (plain_lawful _) testClient_proper testAgent_proper
    (Client.collects _) rfl (loopback_run busyTest_allowed rfl)⟩

/-! ## Sessions -/

/-- The sessions that were opened, as their answers came. -/
def sessionsOpened (ds : List (Done (table L b) Id E)) : List NewSessionResult :=
  ds.filterMap (Done.resultOf (T := table L b) (ToAgent.sessionNewCall b))

/-- The sessions that the router gave. -/
def sessionsGiven (ms : List (Msg (table L b) Id E)) : List NewSessionResult :=
  ms.filterMap (Msg.servedOf (T := table L b) (ToAgent.sessionNewCall b))

def idsOf (rs : List NewSessionResult) : List SessionId := rs.map NewSessionResult.sessionId

/-- The n-th id that the agent gives. -/
def Agent.sessionId (n : Nat) : SessionId := ⟨"s" ++ toString (Int32.ofNat (n + 1))⟩

omit [DecidableEq Id] in
theorem sessionsGiven_append (ms ms' : List (Msg (table L b) Id E)) :
    sessionsGiven (ms ++ ms') = sessionsGiven ms ++ sessionsGiven ms' := List.filterMap_append

theorem idsOf_append (rs rs' : List NewSessionResult) : idsOf (rs ++ rs') = idsOf rs ++ idsOf rs' := List.map_append

/-- The agent has counted the ids it gave, and they are the first ones. -/
structure Agent.Counts (a : Agent) (ids : List SessionId) : Prop where
  sessions : a.sessions = Int32.ofNat ids.length
  given    : ids = (List.range ids.length).map Agent.sessionId

theorem Agent.Counts.next {a : Agent} {ids : List SessionId} (h : a.Counts ids) (p : NewSessionParams) :
    (a.onSessionNew p).1.Counts (ids ++ [(a.onSessionNew p).2.sessionId]) := by
  have hnext : a.sessions + 1 = Int32.ofNat (ids.length + 1) := by
    rw [h.sessions, Int32.ofNat_add]
    rfl
  have hid : (a.onSessionNew p).2.sessionId = Agent.sessionId ids.length := by
    show (⟨"s" ++ toString (a.sessions + 1)⟩ : SessionId) = _
    rw [hnext]
    rfl
  constructor
  · rw [List.length_append, List.length_singleton]
    exact hnext
  · rw [hid, List.length_append, List.length_singleton, List.range_succ, List.map_append, ← h.given]
    rfl

omit [DecidableEq Id] in
theorem Agent.Counts.react {d d' : Desk (table L b) Id E Agent} {m : Msg (table L b) Id E}
    {ms : List (Msg (table L b) Id E)} {ids : List SessionId} (h : d.state.Counts ids)
    (hr : React (answering (Agent.router L b)) d m ms d') : d'.state.Counts (ids ++ idsOf (sessionsGiven ms)) := by
  have hkeeps : ∀ {ms : List (Msg (table L b) Id E)}, sessionsGiven ms = [] →
      d.state.Counts (ids ++ idsOf (sessionsGiven ms)) := fun hms => by
    rw [hms]
    exact (List.append_nil ids).symm ▸ h
  cases hr with
  | @serve a hand v r hm hv hr =>
    obtain ⟨i, c, p⟩ := a
    rcases hm with _ | ⟨_, _ | ⟨_, _ | ⟨_, hm⟩⟩⟩
    · exact hkeeps rfl
    · cases hr
      exact h.next _
    · cases hm
  | @throw a hand v hm hv hr e =>
    obtain ⟨i, c, p⟩ := a
    rcases hm with _ | ⟨_, _ | ⟨_, _ | ⟨_, hm⟩⟩⟩
    · cases hr
    · cases hr
    · cases hm
  | note hm _ =>
    rcases hm with _ | ⟨_, _ | ⟨_, _ | ⟨_, hm⟩⟩⟩
    cases hm
  | _ => exact hkeeps rfl

omit [DecidableEq Id] in
/-- **The agent gives its ids in turn.** -/
theorem ids_given (hL : L.Lawful) (hW : L.WritesText) (hC : Proper C)
    {T : Link (Party (table L b) Id E σ) (Party (table L b) Id E Agent)} (h : Talk C (answering (Agent.router L b)) s {} as T) :
    T.there.desk.state.Counts (idsOf (sessionsGiven T.there.spoken)) := by
  refine h.swap.party ((Agent.proper hL hW).sound hL) (hC.sound hL)
    (P := fun d sp _ => d.state.Counts (idsOf (sessionsGiven sp))) ⟨rfl, rfl⟩ ?_ ?_
  · intro d a m d' sp hd hcounts hsp
    have hnone : sessionsGiven [m] = [] := List.filterMap_cons_none (hsp.servedOf _)
    rw [hsp.state, sessionsGiven_append, hnone, List.append_nil]
    exact hcounts
  · intro d m ms d' sp hd hcounts _ hr
    rw [sessionsGiven_append, idsOf_append]
    exact hcounts.react hr

theorem idsOf_arrive (hL : L.Lawful) {rs rs' : List NewSessionResult} (hrs : ∀ r ∈ rs, metaOk r)
    (h : List.Forall₂ (L.codec NewSessionResult).Arrives rs rs') : idsOf rs' = idsOf rs := by
  induction h with
  | nil => rfl
  | @cons r r' rs rs' hr _ ih =>
    have hr' : r' = norm r := hr.unique (Crosses.arrives hL r (hrs r List.mem_cons_self))
    have ih := ih (fun x hx => hrs x (List.mem_cons_of_mem _ hx))
    unfold idsOf at ih ⊢
    rw [List.map_cons, List.map_cons, ih, hr']
    rfl

theorem sessionId_of_lt {n : Nat} (h : n + 1 < 2147483648) : Agent.sessionId n = ⟨"s" ++ toString (n + 1)⟩ := by
  unfold Agent.sessionId
  rw [show toString (Int32.ofNat (n + 1)) = toString (Int32.ofNat (n + 1)).toInt from rfl, Int32.toInt_ofNat_of_lt h]
  rfl

/-- A numeral is written as no other is. -/
theorem toString_inj {m n : Nat} (h : toString m = toString n) : m = n := by
  have hdigits : m.repr.toList = n.repr.toList := congrArg String.toList h
  rw [Nat.toList_repr, Nat.toList_repr] at hdigits
  rw [← Nat.ofDigitChars_ten_toDigits (n := m), hdigits, Nat.ofDigitChars_ten_toDigits]

theorem sessionId_inj {m n : Nat} (hm : m + 1 < 2147483648) (hn : n + 1 < 2147483648)
    (h : Agent.sessionId m = Agent.sessionId n) : m = n := by
  rw [sessionId_of_lt hm, sessionId_of_lt hn] at h
  have hs : "s" ++ toString (m + 1) = "s" ++ toString (n + 1) := congrArg Newtype.value h
  have := toString_inj ((String.append_right_inj "s").1 hs)
  omega

theorem firstIds_prefix {ids given : List SessionId} (h : given = (List.range given.length).map Agent.sessionId)
    (hp : ids <+: given) : ids = (List.range ids.length).map Agent.sessionId := by
  have htake := List.prefix_iff_eq_take.1 hp
  rw [h, ← List.map_take, List.take_range, Nat.min_eq_left hp.length_le] at htake
  exact htake

/-- **No session id is given twice**: whatever the client does and in whatever order, the sessions that were opened have
the ids s1, s2 and so on, in the order of the answers, as long as the count does not overflow. -/
theorem session_ids_distinct (hL : L.Lawful) (hW : L.WritesText) (hR : R.Lawful) (hC : Proper C)
    {l : Link (Peer R σ) (Peer R Agent)} (h : Run R C (answering (Agent.router L b)) s {} as l)
    (hn : (sessionsOpened l.here.done).length < 2147483648) :
    idsOf (sessionsOpened l.here.done) =
        (List.range (sessionsOpened l.here.done).length).map (fun n => ⟨"s" ++ toString (n + 1)⟩) ∧
      (idsOf (sessionsOpened l.here.done)).Nodup := by
  have hA : (answering (Agent.router L b)).Sound := (Agent.proper hL hW).sound hL
  obtain ⟨T, hT⟩ := h.at hR (hC.sound hL) hA
  rw [hT.here.done] at hn ⊢
  obtain ⟨rs, hsome, hkept, hres⟩ : ∃ rs : List NewSessionResult, rs <+: sessionsGiven T.there.spoken ∧
      (∀ r ∈ rs, metaOk r) ∧
        List.Forall₂ (L.codec NewSessionResult).Arrives rs (sessionsOpened T.here.desk.done) := by
    obtain ⟨rs, hp, hk, hr⟩ := hT.talk.results (hC.sound hL) hA (c := ToAgent.sessionNewCall b) rfl
    exact ⟨rs, hp, fun r hr => let ⟨_, hk⟩ := hk r hr; hk.1, hr⟩
  rw [idsOf_arrive hL hkept hres, ← hres.length_eq]
  rw [← hres.length_eq] at hn
  -- the ids that came are the first of those that were given
  have hgiven := (ids_given hL hW hC hT.talk).given
  have hfirst : idsOf rs = (List.range rs.length).map Agent.sessionId := by
    have hp := firstIds_prefix hgiven (hsome.map NewSessionResult.sessionId)
    rwa [List.length_map] at hp
  rw [hfirst]
  constructor
  · refine List.map_congr_left (fun n hm => sessionId_of_lt ?_)
    have := List.mem_range.1 hm
    omega
  · refine List.nodup_range.map_on (fun m hm n hm' he => sessionId_inj ?_ ?_ he)
    · have := List.mem_range.1 hm
      omega
    · have := List.mem_range.1 hm'
      omega

/-- Two sessions were opened. -/
theorem session_ids_distinct_test : ∃ l, loopbackAfter busyTest = some l ∧ (sessionsOpened l.here.done).length = 2 ∧
    idsOf (sessionsOpened l.here.done) =
        (List.range (sessionsOpened l.here.done).length).map (fun n => ⟨"s" ++ toString (n + 1)⟩) ∧
      (idsOf (sessionsOpened l.here.done)).Nodup :=
  ⟨_, rfl, rfl, session_ids_distinct reference_lawful reference_writesText (plain_lawful _) testClient_proper
    (loopback_run busyTest_allowed rfl) (by decide : 2 < 2147483648)⟩

/-! ## Versions -/

def initializeAsk (L : Jsonrpc) (i : Id) (p : InitializeParams b) : Ask (table L b) Id :=
  ⟨i, ToAgent.initializeCall b, p⟩

/-- What an agent answers to an initialize, by its version: what `negotiateVersion` makes of the two, and nothing where
it throws. -/
def Negotiates (ours : Int32) (answer : τ → InitializeParams b → τ × Option (InitializeResult b)) : Prop :=
  ∀ t p, (answer t p).2.map InitializeResult.protocolVersion = (negotiateVersion ours p.protocolVersion).toOption

theorem Negotiates.returned {ours : Int32} {answer : τ → InitializeParams b → τ × Option (InitializeResult b)}
    (h : Negotiates ours answer) {t : τ} {p : InitializeParams b} {w : InitializeResult b}
    (hw : (answer t p).2 = some w) : w.protocolVersion = min ours p.protocolVersion ∧ 1 ≤ w.protocolVersion := by
  have hv := h t p
  rw [hw] at hv
  by_cases hmin : min ours p.protocolVersion < 1
  · obtain ⟨e, he⟩ := negotiateVersion_of_lt hmin
    rw [he] at hv
    cases hv
  · have hle : 1 ≤ min ours p.protocolVersion := Int32.not_lt.1 hmin
    rw [negotiateVersion_of_le hle] at hv
    have hw : w.protocolVersion = min ours p.protocolVersion := Option.some.inj hv
    exact ⟨hw, hw ▸ hle⟩

theorem Negotiates.threw {ours : Int32} {answer : τ → InitializeParams b → τ × Option (InitializeResult b)}
    (h : Negotiates ours answer) {t : τ} {p : InitializeParams b} (hw : (answer t p).2 = none) :
    min ours p.protocolVersion < 1 := by
  have hv := h t p
  rw [hw] at hv
  by_contra hmin
  rw [negotiateVersion_of_le (Int32.not_lt.1 hmin)] at hv
  cases hv

/-- **Both ends of an initialize hold the same**: if an agent's handler of initialize answers with what
`negotiateVersion` makes of its version and the client's, and throws where that throws, then every initialize that has
ended, in whatever order things came, has ended in what the handler made of the very params that the client sent.  A
result is the normal form of the one that it returned, its version is the lower of the two, no less than the oldest one,
and what the client negotiates from it; an error means that the two share no version. -/
theorem initialize_agreed (hL : L.Lawful) (hR : R.Lawful) (hC : Proper C) (hA : Proper A) {ours : Int32}
    {answer : τ → InitializeParams b → τ × Option (InitializeResult b)}
    (hon : Route.on (ToAgent.initializeCall b) answer ∈ A.router) (hours : Negotiates ours answer)
    (h : Run R C A s t as l) :
    (∀ (i : Id) (p : InitializeParams b) (r : InitializeResult b), ⟨initializeAsk L i p, .ok r⟩ ∈ l.here.done →
      (∃ w : InitializeResult b,
        ⟨(initializeAsk L i p).wire, .returned (ToAgent.initializeCall b) p w⟩ ∈ l.there.given ∧ r = norm w) ∧
      r.protocolVersion = min ours p.protocolVersion ∧ 1 ≤ r.protocolVersion ∧
        negotiateVersion p.protocolVersion r.protocolVersion = .ok r.protocolVersion) ∧
    ∀ (i : Id) (p : InitializeParams b) (e : E), ⟨initializeAsk L i p, .error e⟩ ∈ l.here.done →
      ⟨(initializeAsk L i p).wire, .threw (ToAgent.initializeCall b) p⟩ ∈ l.there.given ∧
        min ours p.protocolVersion < 1 := by
  constructor
  · intro i p r hd
    obtain ⟨g, hg, hw⟩ := ended_given hL hR hC hA h hd
    rcases hw.handled hA hon with ⟨t, (w : InitializeResult b), hr, ho, rfl⟩ | ⟨t, e, -, ho, -⟩
    · obtain rfl : r = norm w := Except.ok.inj ho
      obtain ⟨hv, hle⟩ := hours.returned hr
      have hmin : min p.protocolVersion w.protocolVersion = w.protocolVersion := hv ▸ min_min_right _ _
      refine ⟨⟨w, hg, rfl⟩, hv, hle, ?_⟩
      exact (negotiateVersion_of_le (hmin.symm ▸ hle)).trans (congrArg Except.ok hmin)
    · cases ho
  · intro i p e hd
    obtain ⟨g, hg, hw⟩ := ended_given hL hR hC hA h hd
    rcases hw.handled hA hon with ⟨t, w, -, ho, -⟩ | ⟨t, e', hr, -, rfl⟩
    · cases ho
    · exact ⟨hg, hours.threw hr⟩

/-- The README's agent negotiates the version of its build. -/
theorem Usage.negotiates : Negotiates b.kProtocolVersion (Usage.onInitialize (b := b) (σ := τ)) := fun t p => by
  unfold Usage.onInitialize
  cases negotiateVersion b.kProtocolVersion p.protocolVersion <;> rfl

/-- The params of a client of version 2. -/
def newerParams : InitializeParams {} := { protocolVersion := 2 }

/-- The params of a client whose version is none. -/
def oldestParams : InitializeParams {} := { protocolVersion := 0 }

def usageTest : List (Side × Act (table reference {}) Nat) := [
  (.here, .request (ToAgent.initializeCall {}) newerParams),
  (.here, .request (ToAgent.initializeCall {}) oldestParams),
  (.there, .deliver), (.there, .deliver), (.here, .deliver), (.here, .deliver)]

def usageAgent : Host (table reference {}) Unit := answering (Usage.router reference {} Unit)

theorem usageTest_allowed : ∀ q ∈ usageTest, AllowedAlways (plain (table reference {})) testClient usageAgent q := by
  unfold usageTest
  simp only [List.forall_mem_cons]
  exact ⟨fun _ => ⟨initialize_metaOk 2, rfl⟩, fun _ => ⟨initialize_metaOk 0, rfl⟩, fun _ => trivial, fun _ => trivial,
    fun _ => trivial, fun _ => trivial, List.forall_mem_nil _⟩

/-- What the acts come to. -/
def usageAfter (as : List (Side × Act (table reference {}) Nat)) :
    Option (Link (Peer (plain (table reference {})) Client) (Peer (plain (table reference {})) Unit)) :=
  Link.runs _ testClient.router usageAgent.router as ⟨.start _ {}, .start _ ()⟩

theorem usage_run {l : Link (Peer (plain (table reference {})) Client) (Peer (plain (table reference {})) Unit)}
    (h : usageAfter usageTest = some l) : Run (plain (table reference {})) testClient usageAgent {} () usageTest l :=
  Run.runs _ .start usageTest_allowed h

/-- The one is answered with version 1, and the other with an error. -/
theorem initialize_agreed_usage : ∃ l, usageAfter usageTest = some l ∧
    l.here.done = [⟨initializeAsk reference 0 newerParams, .ok ({ protocolVersion := 1 } : InitializeResult {})⟩,
      ⟨initializeAsk reference 1 oldestParams, .error ()⟩] ∧
    ((∃ w : InitializeResult {}, ⟨(initializeAsk reference 0 newerParams).wire,
        .returned (ToAgent.initializeCall {}) newerParams w⟩ ∈ l.there.given ∧
          ({ protocolVersion := 1 } : InitializeResult {}) = norm w) ∧
      (1 : Int32) = min 1 2 ∧ (1 : Int32) ≤ 1 ∧ negotiateVersion 2 1 = .ok 1) ∧
    ⟨(initializeAsk reference 1 oldestParams).wire, .threw (ToAgent.initializeCall {}) oldestParams⟩ ∈ l.there.given ∧
        min 1 (0 : Int32) < 1 := by
  have h := initialize_agreed reference_lawful (plain_lawful _) testClient_proper
    (Usage.proper reference_lawful reference_writesText) (.head _) Usage.negotiates (usage_run rfl)
  exact ⟨_, rfl, rfl, h.1 0 newerParams { protocolVersion := 1 } (.head _),
    h.2 1 oldestParams () (.tail _ (.head _))⟩

/-! ## Permissions -/

/-- How many permissions the messages ask for. -/
def permissionsIn (ms : List (Msg (table L b) Id E)) : Nat :=
  asksOf (T := table L b) (ToClient.requestPermissionCall b) ms

/-- How many permissions a host asked for. -/
def permissionsOf (side : Side) (as : List (Side × Act (table L b) Id)) : Nat :=
  madeOf (T := table L b) (ToClient.requestPermissionCall b) side as

/-- How many requests for a permission have ended. -/
def permissionsEnded (ds : List (Done (table L b) Id E)) : Nat :=
  ds.countP (fun d => d.ask.isOf (T := table L b) (ToClient.requestPermissionCall b))

omit [DecidableEq Id] in
theorem permissionsIn_append (ms ms' : List (Msg (table L b) Id E)) :
    permissionsIn (ms ++ ms') = permissionsIn ms + permissionsIn ms' := asksOf_append _ ms ms'

omit [DecidableEq Id] in
theorem Client.react_asked {front : PermissionOption} {d d' : Desk (table L b) Id E Client} {m : Msg (table L b) Id E}
    {ms : List (Msg (table L b) Id E)} (hr : React (answering (Client.router L b front)) d m ms d') :
    d'.state.permissionsAsked = d.state.permissionsAsked + Int32.ofNat (permissionsIn [m]) := by
  have hnone : ∀ n : Int32, n = n + Int32.ofNat 0 := fun n => (Int32.add_zero n).symm
  cases hr with
  | @serve a hand v r hm hv hr =>
    obtain ⟨i, c, p⟩ := a
    rcases hm with _ | ⟨_, _ | ⟨_, hm⟩⟩
    · rfl
    · cases hm
  | @throw a hand v hm hv hr e =>
    obtain ⟨i, c, p⟩ := a
    rcases hm with _ | ⟨_, _ | ⟨_, hm⟩⟩
    · cases hr
    · cases hm
  | park hm =>
    rcases hm with _ | ⟨_, _ | ⟨_, hm⟩⟩
    cases hm
  | @turnAway a hm e =>
    have hother : ((table L b).callName a.call == "session/request_permission") = false :=
      beq_false_of_ne (fun he => hm _ (.head _) (congrArg some he.symm))
    have hzero : permissionsIn [(Msg.ask a : Msg (table L b) Id E)] = 0 :=
      List.countP_eq_zero.2 (fun x hx => by
        rw [List.mem_singleton.1 hx]
        exact Bool.eq_false_iff.1 hother)
    rw [hzero]
    exact hnone _
  | @note n v w hand hm hb =>
    rcases hm with _ | ⟨_, _ | ⟨_, hm⟩⟩
    · exact hnone _
    · cases hm
  | ignore hm => exact hnone _
  | finish hm _ => cases hm <;> exact hnone _

omit [DecidableEq Id] in
/-- **The client counts the permissions it is asked for**, as an int does. -/
theorem permissions_counted (hL : L.Lawful) (hA : Proper A) (front : PermissionOption)
    {T : Link (Party (table L b) Id E Client) (Party (table L b) Id E τ)}
    (h : Talk (answering (Client.router L b front)) A {} t as T) :
    T.here.desk.state.permissionsAsked = Int32.ofNat (permissionsIn T.here.heard) := by
  refine h.party ((Client.proper hL front).sound hL) (hA.sound hL)
    (P := fun d _ hd => d.state.permissionsAsked = Int32.ofNat (permissionsIn hd)) rfl ?_ ?_
  · intro d a m d' sp hd hcount hsp
    rw [hsp.state, hcount]
  · intro d m ms d' sp hd hcount _ hr
    rw [permissionsIn_append, Int32.ofNat_add, ← hcount]
    exact Client.react_asked hr

def permissionAsk (L : Jsonrpc) (b : Build) (i : Id) (p : RequestPermissionParams) : Ask (table L b) Id :=
  ⟨i, ToClient.requestPermissionCall b, p⟩

/-- Every permission that a host asks for can be chosen. -/
def OffersOptions (side : Side) (as : List (Side × Act (table L b) Id)) : Prop :=
  ∀ p : RequestPermissionParams, ⟨ToClient.requestPermissionCall b, p⟩ ∈ requestsOf side as → p.options ≠ []

theorem busyTest_offers : OffersOptions .there busyTest := fun p hp => by
  cases List.mem_singleton.1 hp
  exact List.cons_ne_nil _ _

/-- **A permission is one that was offered, and asked for**: whatever an agent does that always puts an option into its
requests, and in whatever order, a permission request that has ended has ended in the selection of the first option of
that very request; and the client has counted at least as many as have ended and at most as many as were made, as long as
its count does not overflow. -/
theorem permission_was_offered (hL : L.Lawful) (hR : R.Lawful) (hA : Proper A) (front : PermissionOption)
    {l : Link (Peer R Client) (Peer R τ)} (h : Run R (answering (Client.router L b front)) A {} t as l)
    (hopts : OffersOptions .there as) (hn : permissionsOf .there as < 2147483648) :
    (∀ i p o, ⟨permissionAsk L b i p, o⟩ ∈ l.there.done → ∃ first rest, p.options = first :: rest ∧
      o = .ok ({ outcome := .selected { optionId := first.optionId } } : RequestPermissionResult)) ∧
    (permissionsEnded l.there.done : Int) ≤ l.here.state.permissionsAsked.toInt ∧
      l.here.state.permissionsAsked.toInt ≤ permissionsOf .there as ∧
      (l.here.inbox = [] → l.here.state.permissionsAsked.toInt = permissionsOf .there as) := by
  have hC : Proper (answering (Client.router L b front)) := Client.proper hL front
  obtain ⟨T, hT⟩ := h.at hR (hC.sound hL) (hA.sound hL)
  obtain ⟨hended, hmade⟩ :=
    hT.talk.asked (T := table L b) (ToClient.requestPermissionCall b) (hC.sound hL) (hA.sound hL)
  have hended : permissionsEnded T.there.desk.done ≤ permissionsIn T.here.heard := hended
  have hmade : permissionsIn T.here.heard + permissionsIn T.here.unread = permissionsOf .there as := hmade
  have hcount : l.here.state.permissionsAsked.toInt = permissionsIn T.here.heard := by
    rw [hT.here.state, permissions_counted hL hA front hT.talk]
    exact Int32.toInt_ofNat_of_lt (by omega)
  rw [hcount, hT.there.done]
  refine ⟨fun i p o hd => ?_, by omega, by omega, fun hi => ?_⟩
  · have hmem : (permissionAsk L b i p).asked ∈ requestsOf .there as := by
      rw [← requestsOf_flipped]
      refine (hT.swap.talk.requests (hA.sound hL) (hC.sound hL)).mem_iff.2 (List.mem_append_left _ ?_)
      exact List.mem_map_of_mem (f := fun d => d.ask.asked) hd
    obtain ⟨first, rest, hp⟩ := List.exists_cons_of_ne_nil (hopts p hmem)
    obtain ⟨g, hg, hw⟩ := ended_given hL hR hA hC h.swap (hT.there.done ▸ hd)
    rcases hw.handled hC (.head _) with ⟨c, r, hr, rfl, -⟩ | ⟨c, e, hr, -, -⟩
    · refine ⟨first, rest, hp, ?_⟩
      cases hr
      show Except.ok (RequestPermissionResult.mk
        (.selected { optionId := (p.options.head?.getD front).optionId }) Json.object) = _
      rw [hp]
      rfl
    · cases hr
  · have hu : T.here.unread = [] := List.forall₂_nil_left_iff.1 (hi ▸ hT.here.inbox)
    rw [hu] at hmade
    exact congrArg Nat.cast hmade

/-- Two options, of which the first was chosen. -/
theorem permission_was_offered_test : ∃ l, loopbackAfter busyTest = some l ∧ permissionsEnded l.there.done = 1 ∧
    (∀ i p o, ⟨permissionAsk reference {} i p, o⟩ ∈ l.there.done → ∃ first rest, p.options = first :: rest ∧
      o = .ok ({ outcome := .selected { optionId := first.optionId } } : RequestPermissionResult)) ∧
    (permissionsEnded l.there.done : Int) ≤ l.here.state.permissionsAsked.toInt ∧
      l.here.state.permissionsAsked.toInt ≤ permissionsOf .there busyTest ∧
      (l.here.inbox = [] → l.here.state.permissionsAsked.toInt = permissionsOf .there busyTest) :=
  ⟨_, rfl, rfl, permission_was_offered reference_lawful (plain_lawful _) testAgent_proper _
    (loopback_run busyTest_allowed rfl) busyTest_offers (by decide)⟩

end Runs

end Acp
