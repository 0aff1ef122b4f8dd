import Acp.Wire.Simulation
/-!
# Loop — the loop of the loopback test

The loop is one delivery after the other (`Link.drain_eq`), and three rounds of it empty both wires (`At.settle`).  When
both are empty, an engine waits for what the other host has deferred (`At.quiet`).
-/
namespace Wire

universe u

variable {T : Table.{u}} {Id E σ τ : Type} [DecidableEq Id]

section Drain

variable {R : Rpc T Id E} (rs : List (Route T σ))

/-- What is done with a frame does not look at the wire. -/
theorem Peer.receive_inbox (p : Peer R σ) (x : List R.Frame) (f : R.Frame) :
    Peer.receive R rs { p with inbox := x } f =
      ({ (Peer.receive R rs p f).1 with inbox := x }, (Peer.receive R rs p f).2) := by
  have hcalls : ∀ (cs : List (Call Id)) (q : Peer R σ × List R.Frame),
      cs.foldl (Peer.handle R rs) ({ q.1 with inbox := x }, q.2) =
        ({ (cs.foldl (Peer.handle R rs) q).1 with inbox := x }, (cs.foldl (Peer.handle R rs) q).2) := fun cs q =>
    List.foldl_hom (fun q : Peer R σ × List R.Frame => ({ q.1 with inbox := x }, q.2)) (fun q c => by
      unfold Peer.handle
      dsimp only
      split <;> rfl)
  have hnotes : ∀ (ns : List Notification) (q : Peer R σ),
      ns.foldl (fun p n => { p with state := R.handleNote rs p.state n }) { q with inbox := x } =
        { ns.foldl (fun p n => { p with state := R.handleNote rs p.state n }) q with inbox := x } := fun ns q =>
    List.foldl_hom (fun q : Peer R σ => { q with inbox := x }) (fun _ _ => rfl)
  have hdone : ∀ (cs : List (Completed Id E)) (q : Peer R σ), cs.foldl (Peer.complete R) { q with inbox := x } =
      { cs.foldl (Peer.complete R) q with inbox := x } := fun cs q =>
    List.foldl_hom (fun q : Peer R σ => { q with inbox := x }) (fun q c => by
      unfold Peer.complete
      dsimp only
      split <;> rfl)
  unfold Peer.receive
  simp only
  rw [hcalls _ ({ p with engine := (R.step p.engine f).1 }, []), hnotes, hdone]

theorem Peer.deliver_cons (f : R.Frame) (fs : List R.Frame) (p : Peer R σ) : Peer.deliver R rs (f :: fs) p =
    ((Peer.deliver R rs fs (Peer.receive R rs p f).1).1,
      (Peer.receive R rs p f).2 ++ (Peer.deliver R rs fs (Peer.receive R rs p f).1).2) := rfl

theorem Peer.deliver_inbox : ∀ (fs : List R.Frame) (p : Peer R σ) (x : List R.Frame),
    Peer.deliver R rs fs { p with inbox := x } =
      ({ (Peer.deliver R rs fs p).1 with inbox := x }, (Peer.deliver R rs fs p).2)
  | [], _, _ => rfl
  | f :: fs, p, x => by
    rw [Peer.deliver_cons, Peer.deliver_cons, Peer.receive_inbox rs p x f,
      Peer.deliver_inbox fs (Peer.receive R rs p f).1 x]

/-- The loop over the whole wire, and what goes back put on the other. -/
def Link.drain (l : Link (Peer R σ) (Peer R τ)) : Link (Peer R σ) (Peer R τ) :=
  ⟨{ (Peer.deliver R rs l.here.inbox l.here).1 with inbox := [] },
    { l.there with inbox := l.there.inbox ++ (Peer.deliver R rs l.here.inbox l.here).2 }⟩

/-- **The loop is one delivery after the other.** -/
theorem Link.deliver_loop : ∀ (fs : List R.Frame) (p : Peer R σ) (q : Peer R τ), p.inbox = fs →
    (List.replicate fs.length Act.deliver).foldlM (Link.act R rs) ⟨p, q⟩ =
      some ⟨{ (Peer.deliver R rs fs p).1 with inbox := [] },
        { q with inbox := q.inbox ++ (Peer.deliver R rs fs p).2 }⟩
  | [], ⟨e, s, i, a, d, g, n⟩, q, h => by
    obtain rfl : i = [] := h
    simp [Peer.deliver]
  | f :: fs, p, q, h => by
    have hact : Link.act R rs ⟨p, q⟩ .deliver = some ⟨{ (Peer.receive R rs p f).1 with inbox := fs },
        { q with inbox := q.inbox ++ (Peer.receive R rs p f).2 }⟩ := by
      unfold Link.act Peer.act
      rw [show p.inbox = f :: fs from h]
      simp only [Peer.receive_inbox, Option.map_some]
    rw [List.length_cons, List.replicate_succ, List.foldlM_cons, hact]
    refine (Link.deliver_loop fs { (Peer.receive R rs p f).1 with inbox := fs } _ rfl).trans ?_
    rw [Peer.deliver_inbox, Peer.deliver_cons]
    simp only [List.append_assoc]

theorem Link.drain_eq (l : Link (Peer R σ) (Peer R τ)) :
    (List.replicate l.here.inbox.length Act.deliver).foldlM (Link.act R rs) l = some (l.drain rs) :=
  Link.deliver_loop rs l.here.inbox l.here l.there rfl

end Drain

section Settle

variable {R : Rpc T Id E} {H : Host T σ} {K : Host T τ} {s : σ} {t : τ}

theorem At.deliveries (hR : R.Lawful) (hH : H.Sound) (hK : K.Sound) : ∀ (n : Nat) {as : List (Side × Act T Id)}
    {l l' : Link (Peer R σ) (Peer R τ)} {L : Link (Party T Id E σ) (Party T Id E τ)}, At R H K s t as l L →
      L.here.unread.length = n → (List.replicate n Act.deliver).foldlM (Link.act R H.router) l = some l' →
      ∃ L' ms, At R H K s t (as ++ List.replicate n (.here, .deliver)) l' L' ∧ L'.here.unread = [] ∧
        L'.there.unread = L.there.unread ++ ms ∧ (∀ m ∈ ms, m.ask? = none) ∧
          ((∀ m ∈ L.here.unread, m.ask? = none) → ms = [])
  | 0, as, l, l', L, hat, hn, h => by
    cases h
    refine ⟨L, [], ?_, List.length_eq_zero_iff.1 hn, (List.append_nil _).symm, fun m hm => ?_, fun _ => rfl⟩
    · rw [List.replicate_zero, List.append_nil]
      exact hat
    · cases hm
  | n + 1, as, l, l', L, hat, hn, h => by
    rw [List.replicate_succ, List.foldlM_cons] at h
    obtain ⟨l₁, hact, hrest⟩ := Option.bind_eq_some_iff.1 h
    obtain ⟨hA, hB⟩ := hat.talk.accounted hH hK
    obtain ⟨L₁, hm, h1, h2⟩ := Link.act_moves hR hH hK hA hB hat.here hat.there (a := .deliver) trivial hact
    obtain ⟨m, rest, ms, hu, hu', ht', hms, hnil⟩ := hm.deliver
    have hat₁ : At R H K s t (as ++ [(.here, .deliver)]) l₁ L₁ :=
      ⟨hat.run.here .deliver trivial hact, hat.talk.here hm, h1, h2⟩
    rw [hu, List.length_cons, Nat.succ_inj] at hn
    obtain ⟨L', ms', hat', he, ht, hms', hnil'⟩ := At.deliveries hR hH hK n hat₁ (by rw [hu', hn]) hrest
    refine ⟨L', ms ++ ms', ?_, he, by rw [ht, ht', List.append_assoc], fun x hx => ?_, fun hall => ?_⟩
    · rw [List.replicate_succ, ← List.singleton_append, ← List.append_assoc]
      exact hat'
    · exact (List.mem_append.1 hx).elim (hms x) (hms' x)
    · rw [hu] at hall
      rw [hnil (hall m List.mem_cons_self), hnil' (fun x hx => hall x (List.mem_cons_of_mem _ (hu' ▸ hx)))]
      rfl

/-- The loop at the one end, at the other, and at the one again. -/
def Link.settle (rs : List (Route T σ)) (rs' : List (Route T τ)) (l : Link (Peer R σ) (Peer R τ)) :
    Link (Peer R σ) (Peer R τ) := ((l.drain rs).swap.drain rs').swap.drain rs

/-- **The loop empties the wire**: what it sends is no call, and nothing where no call was on the wire. -/
theorem At.drain (hR : R.Lawful) (hH : H.Sound) (hK : K.Sound) {as : List (Side × Act T Id)}
    {l : Link (Peer R σ) (Peer R τ)} {L : Link (Party T Id E σ) (Party T Id E τ)} (h : At R H K s t as l L) :
    ∃ ds L' ms, Delivers ds ∧ At R H K s t (as ++ ds) (l.drain H.router) L' ∧ L'.here.unread = [] ∧
      L'.there.unread = L.there.unread ++ ms ∧ (∀ m ∈ ms, m.ask? = none) ∧
        ((∀ m ∈ L.here.unread, m.ask? = none) → ms = []) := by
  have hlen : L.here.unread.length = l.here.inbox.length := h.here.inbox.length_eq.symm
  obtain ⟨L', ms, h'⟩ := h.deliveries hR hH hK _ hlen (l.drain_eq H.router)
  exact ⟨_, L', ms, .replicate _ _, h'⟩

/-- **Three loops empty both wires**, by deliveries alone. -/
theorem At.settle (hR : R.Lawful) (hH : H.Sound) (hK : K.Sound) {as : List (Side × Act T Id)}
    {l : Link (Peer R σ) (Peer R τ)} {L : Link (Party T Id E σ) (Party T Id E τ)} (h : At R H K s t as l L) :
    ∃ ds L', Delivers ds ∧ At R H K s t (as ++ ds) (l.settle H.router K.router) L' ∧
      L'.here.unread = [] ∧ L'.there.unread = [] := by
  obtain ⟨d₁, L₁, ms₁, hd₁, h₁, he₁, ht₁, -, -⟩ := h.drain hR hH hK
  obtain ⟨d₂, L₂, ms₂, hd₂, h₂, he₂, ht₂, hms₂, -⟩ := h₁.swap.drain hR hK hH
  obtain ⟨d₃, L₃, ms₃, hd₃, h₃, he₃, ht₃, -, hnil⟩ := h₂.swap.drain hR hH hK
  -- the second loop finds the first wire empty, and puts no call on it
  have hasks : ∀ m ∈ L₂.swap.here.unread, m.ask? = none := by
    intro m hm
    rw [Link.swap_here, ht₂, Link.swap_there, he₁, List.nil_append] at hm
    exact hms₂ m hm
  rw [flipped_append, flipped_flipped, List.append_assoc, List.append_assoc] at h₃
  refine ⟨d₁ ++ (flipped d₂ ++ d₃), L₃, hd₁.append (hd₂.flipped.append hd₃), h₃, he₃, ?_⟩
  rw [ht₃, hnil hasks, Link.swap_there, he₂]
  rfl

/-- The ids that a host has deferred. -/
def Peer.owes (p : Peer R σ) : Finset Id := (p.deferred.map Call.id).toFinset

/-- **When both wires are empty, what an engine waits for is what the other host has deferred.** -/
theorem At.quiet (hH : H.Sound) (hK : K.Sound) {as : List (Side × Act T Id)} {l : Link (Peer R σ) (Peer R τ)}
    {L : Link (Party T Id E σ) (Party T Id E τ)} (h : At R H K s t as l L) (hi : l.here.inbox = [])
    (hi' : l.there.inbox = []) :
    R.pending l.here.engine = l.there.owes ∧ R.pending l.there.engine = l.here.owes := by
  have hu : L.here.unread = [] := List.forall₂_nil_left_iff.1 (hi ▸ h.here.inbox)
  have hu' : L.there.unread = [] := List.forall₂_nil_left_iff.1 (hi' ▸ h.there.inbox)
  obtain ⟨h1, h2⟩ := h.talk.accounted hH hK
  have howes : ∀ {σ : Type} {H : Host T σ} {p : Peer R σ} {d us sp}, Shows R H p d us sp →
      p.owes = (d.parked.map Ask.id).toFinset := by
    intro σ H p d us sp hs
    unfold Peer.owes
    rw [hs.deferred, List.map_map]
    rfl
  constructor
  · rw [h.here.pending, howes h.there]
    exact List.toFinset_eq_of_perm _ _ ((h1.quiet hu hu').map Ask.id)
  · rw [h.there.pending, howes h.here]
    exact List.toFinset_eq_of_perm _ _ ((h2.quiet hu' hu).map Ask.id)

end Settle

end Wire
