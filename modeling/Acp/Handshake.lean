import Acp.RoundTrip
/-!
# Handshake — the initialize exchange ends in agreement

The client sends its version, the agent answers with the lower of the two, and the client reads the answer.  The version
member is always written, so neither end falls back on the default of its own build (`handshake_agrees`).
-/
namespace Acp

open Wire

/-! ## The lower version -/

theorem lower_eq_min (a c : Int32) : (if a < c then a else c) = min a c := by
  show _ = if a ≤ c then a else c
  by_cases h : a < c
  · rw [if_pos h, if_pos (Int32.le_of_lt h)]
  · by_cases hle : a ≤ c
    · rw [if_neg h, if_pos hle]
      exact Int32.le_antisymm (Int32.not_lt.1 h) hle
    · rw [if_neg h, if_neg hle]

theorem negotiateVersion_of_lt {a c : Int32} (h : min a c < 1) : ∃ e, negotiateVersion a c = .error e := by
  unfold negotiateVersion
  rw [lower_eq_min]
  exact ⟨_, if_pos h⟩

theorem negotiateVersion_of_le {a c : Int32} (h : 1 ≤ min a c) : negotiateVersion a c = .ok (min a c) := by
  unfold negotiateVersion
  rw [lower_eq_min]
  exact if_neg (Int32.not_lt.2 h)

theorem min_eq_right_of_le {a c : Int32} (h : c ≤ a) : min a c = c :=
  Int32.le_antisymm Std.min_le_right (Std.le_min_iff.2 ⟨h, Int32.le_refl c⟩)

theorem min_min_right (a c : Int32) : min c (min a c) = min a c := min_eq_right_of_le Std.min_le_right

theorem min_le_min {a a' c c' : Int32} (ha : a ≤ a') (hc : c ≤ c') : min a c ≤ min a' c' :=
  Std.le_min_iff.2 ⟨Int32.le_trans Std.min_le_left ha, Int32.le_trans Std.min_le_right hc⟩

/-- The ceiling is never below the stable version, where that is not past the draft. -/
theorem Build.kProtocolVersion_le_max {b : Build} (h : b.kProtocolVersion ≤ 2) :
    b.kProtocolVersion ≤ b.kMaxProtocolVersion := by
  unfold Build.kMaxProtocolVersion
  split
  · exact h
  · exact Int32.le_refl _

/-! ## The exchange -/

inductive HandshakeError where
  | undecodable (e : Exn)
  | incompatible (e : CapabilityError)

/-- What the two ends hold, and what the client makes of the reply. -/
structure Agreement where
  agent      : Int32
  client     : Int32
  negotiated : Except CapabilityError Int32

def InitializeParams.atVersion {b : Build} (p : InitializeParams b) (v : Int32) : InitializeParams b :=
  { p with protocolVersion := v }

def InitializeResult.atVersion {b : Build} (r : InitializeResult b) (v : Int32) : InitializeResult b :=
  { r with protocolVersion := v }

/-- The agent's handler: it answers `reply` of the params, with the version it negotiates. -/
def agentAnswers (L : Jsonrpc) {b : Build} (a : Int32) (reply : InitializeParams b → InitializeResult b) (wire : Json) :
    Except HandshakeError (InitializeResult b) :=
  match L.fromJson (InitializeParams b) wire with
  | .error e => .error (.undecodable e)
  | .ok p    => match negotiateVersion a p.protocolVersion with
    | .error e => .error (.incompatible e)
    | .ok v    => .ok ((reply p).atVersion v)

/-- The client of one build and the agent of another. -/
def handshake (L : Jsonrpc) {bc ba : Build} (p : InitializeParams bc) (a : Int32)
    (reply : InitializeParams ba → InitializeResult ba) : Except HandshakeError Agreement :=
  match agentAnswers L a reply (L.toJson p) with
  | .error e => .error e
  | .ok r    => match L.fromJson (InitializeResult bc) (L.toJson r) with
    | .error e => .error (.undecodable e)
    | .ok r'   => .ok ⟨r.protocolVersion, r'.protocolVersion, negotiateVersion p.protocolVersion r'.protocolVersion⟩

/-- One of the two ends could not read what it was sent. -/
def Undecodable (out : Except HandshakeError Agreement) : Prop := ∃ e, out = .error (.undecodable e)

/-- **The exchange ends**: in the agent's refusal, or with the lower version at both ends. -/
def Ends (a c : Int32) (out : Except HandshakeError Agreement) : Prop :=
  (min a c < 1 ∧ ∃ e, out = .error (.incompatible e)) ∨ (1 ≤ min a c ∧ out = .ok ⟨min a c, min a c, .ok (min a c)⟩)

section Exchange

variable {L : Jsonrpc} (hL : L.Lawful) (hW : L.WritesDefaults) {b b' : Build}
include hL hW

/-- The member that a defaulted field writes is read back by any field with its key and codec. -/
theorem read_written {T T' A : Type} {k : String} {m : Member T A} {m' : Member T' A} {d d' : A} {c : Codec A}
    (hc : Jsonrpc.Primitive c) {fs : List (FieldSpec T)} (hn : (fs.map FieldSpec.key).Nodup)
    (hf : .defaulted k m d c ∈ fs) (v : T) {t t' : T'}
    (h : L.read (.defaulted k m' d' c) ((L.writeAll fs v ∅).find? k) t = .ok t') : t' = m'.set t (m.get v) := by
  have hw : (L.writeAll fs v ∅).find? k = some (c.encode (m.get v)) :=
    (find?_writeAll_empty hn hf v).trans (hW k m d c v)
  rw [hw, (hL.read_defaulted k m' d' c _ t (hc.ne_null _)).ok (hc.roundTrip _)] at h
  exact (Except.ok.inj h).symm

/-- **The version a params object carries is the one that is read**, whatever the reader's default is. -/
theorem params_version (p : InitializeParams b) {q : InitializeParams b'}
    (h : L.fromJson (InitializeParams b') (L.toJson p) = .ok q) : q.protocolVersion = p.protocolVersion := by
  rw [show L.toJson p = .obj (L.writeAll (Record.fields L) p ∅) from hL.record_encode _ _ p] at h
  obtain ⟨o, ho, h0⟩ := hL.record_decode_inv h
  cases ho
  obtain ⟨t1, h1, h0⟩ := readAll_cons_inv h0
  obtain ⟨t2, h2, h0⟩ := readAll_cons_inv h0
  obtain ⟨t3, h3, h0⟩ := readAll_cons_inv h0
  obtain ⟨t4, h4, h0⟩ := readAll_cons_inv h0
  cases h0
  obtain rfl := read_written hL hW hL.int (RecordOk.keys_nodup L) (.head _) p h1
  obtain ⟨_, rfl⟩ := hL.read_defaulted_sets h2
  obtain ⟨_, rfl⟩ := hL.read_optional_sets h3
  obtain ⟨_, rfl⟩ := hL.read_meta_inv h4
  rfl

theorem result_version (r : InitializeResult b) {q : InitializeResult b'}
    (h : L.fromJson (InitializeResult b') (L.toJson r) = .ok q) : q.protocolVersion = r.protocolVersion := by
  rw [show L.toJson r = .obj (L.writeAll (Record.fields L) r ∅) from hL.record_encode _ _ r] at h
  obtain ⟨o, ho, h0⟩ := hL.record_decode_inv h
  cases ho
  obtain ⟨t1, h1, h0⟩ := readAll_cons_inv h0
  obtain ⟨t2, h2, h0⟩ := readAll_cons_inv h0
  obtain ⟨t3, h3, h0⟩ := readAll_cons_inv h0
  obtain ⟨t4, h4, h0⟩ := readAll_cons_inv h0
  obtain ⟨t5, h5, h0⟩ := readAll_cons_inv h0
  cases h0
  obtain rfl := read_written hL hW hL.int (initializeResult_nodup L b) (.head _) r h1
  obtain ⟨_, rfl⟩ := hL.read_defaulted_sets h2
  obtain ⟨_, rfl⟩ := hL.read_optional_sets h3
  obtain ⟨_, rfl⟩ := hL.read_defaulted_sets h4
  obtain ⟨_, rfl⟩ := hL.read_meta_inv h5
  rfl

/-- The same params, in another build's type. -/
def InitializeParams.rebuild (b' : Build) (p : InitializeParams b) : InitializeParams b' :=
  { protocolVersion := p.protocolVersion, clientCapabilities := p.clientCapabilities, clientInfo := p.clientInfo,
    meta_ := p.meta_ }

def InitializeResult.rebuild (b' : Build) (r : InitializeResult b) : InitializeResult b' :=
  { protocolVersion := r.protocolVersion, agentCapabilities := r.agentCapabilities, agentInfo := r.agentInfo,
    authMethods := r.authMethods, meta_ := r.meta_ }

theorem params_rebuild (b' : Build) (p : InitializeParams b) (hp : metaOk p) :
    L.toJson p = L.toJson (p.rebuild b') := by
  show (L.record _ _).encode p = (L.record _ _).encode (p.rebuild b')
  rw [hL.record_encode, hL.record_encode]
  refine congrArg Json.obj (writeAll_congr (v := p) (w := p.rebuild b') ?_ ∅)
  exact .cons ⟨rfl, hW.write_congr rfl⟩ <| .cons ⟨rfl, hW.write_congr rfl⟩ <|
    .cons ⟨rfl, hL.write_optional_congr rfl⟩ <| .cons ⟨rfl, hL.write_meta_congr rfl hp.2⟩ .nil

theorem result_rebuild (b' : Build) (r : InitializeResult b) (hr : metaOk r) :
    L.toJson r = L.toJson (r.rebuild b') := by
  show (L.record _ _).encode r = (L.record _ _).encode (r.rebuild b')
  rw [hL.record_encode, hL.record_encode]
  refine congrArg Json.obj (writeAll_congr (v := r) (w := r.rebuild b') ?_ ∅)
  exact .cons ⟨rfl, hW.write_congr rfl⟩ <| .cons ⟨rfl, hW.write_congr rfl⟩ <|
    .cons ⟨rfl, hL.write_optional_congr rfl⟩ <| .cons ⟨rfl, hW.write_congr rfl⟩ <|
    .cons ⟨rfl, hL.write_meta_congr rfl hr.2.2⟩ .nil

omit hL hW in
theorem agentAnswers_of_decode (a : Int32) (reply : InitializeParams b → InitializeResult b) {wire : Json}
    {q : InitializeParams b} (hq : L.fromJson (InitializeParams b) wire = .ok q) :
    (min a q.protocolVersion < 1 ∧ ∃ e, agentAnswers L a reply wire = .error (.incompatible e)) ∨
      (1 ≤ min a q.protocolVersion ∧
        agentAnswers L a reply wire = .ok ((reply q).atVersion (min a q.protocolVersion))) := by
  unfold agentAnswers
  rw [hq]
  by_cases hmin : min a q.protocolVersion < 1
  · obtain ⟨e, he⟩ := negotiateVersion_of_lt hmin
    refine .inl ⟨hmin, e, ?_⟩
    simp only [he]
  · have hle : 1 ≤ min a q.protocolVersion := Int32.not_lt.1 hmin
    refine .inr ⟨hle, ?_⟩
    simp only [negotiateVersion_of_le hle]

/-- **An exchange in which everything is decoded ends.** -/
theorem handshake_ends {bc ba : Build} (p : InitializeParams bc) (a : Int32)
    (reply : InitializeParams ba → InitializeResult ba) :
    Undecodable (handshake L p a reply) ∨ Ends a p.protocolVersion (handshake L p a reply) := by
  unfold handshake
  cases hq : L.fromJson (InitializeParams ba) (L.toJson p) with
  | error e =>
    refine .inl ⟨e, ?_⟩
    unfold agentAnswers
    simp only [hq]
  | ok q =>
    have hv : q.protocolVersion = p.protocolVersion := params_version hL hW p hq
    rcases agentAnswers_of_decode a reply hq with ⟨hlt, e, he⟩ | ⟨hle, hok⟩
    · rw [hv] at hlt
      exact .inr (.inl ⟨hlt, e, by rw [he]⟩)
    · rw [hv] at hle hok
      rw [hok]
      cases hr : L.fromJson (InitializeResult bc) (L.toJson ((reply q).atVersion (min a p.protocolVersion))) with
      | error e => exact .inl ⟨e, by simp only [hr]⟩
      | ok r =>
        have hrv : r.protocolVersion = min a p.protocolVersion := result_version hL hW _ hr
        have hmm : min p.protocolVersion (min a p.protocolVersion) = min a p.protocolVersion := min_min_right _ _
        have hn : negotiateVersion p.protocolVersion (min a p.protocolVersion) = .ok (min a p.protocolVersion) := by
          rw [negotiateVersion_of_le (hmm.symm ▸ hle), hmm]
        refine .inr (.inr ⟨hle, ?_⟩)
        simp only [hr, hrv, hn]
        rfl

/-- **Advertising the ceiling is safe**: with a client of no later version than the stable one, an agent that offers all
that its build may negotiate still lands on the client's. -/
theorem handshake_ceiling {bc ba : Build} (hb : ba.kProtocolVersion ≤ 2) (p : InitializeParams bc)
    (hp : 1 ≤ p.protocolVersion) (hle : p.protocolVersion ≤ ba.kProtocolVersion)
    (reply : InitializeParams ba → InitializeResult ba) :
    Undecodable (handshake L p ba.kMaxProtocolVersion reply) ∨
      handshake L p ba.kMaxProtocolVersion reply =
        .ok ⟨p.protocolVersion, p.protocolVersion, .ok p.protocolVersion⟩ := by
  have hmin : min ba.kMaxProtocolVersion p.protocolVersion = p.protocolVersion :=
    min_eq_right_of_le (Int32.le_trans hle (Build.kProtocolVersion_le_max hb))
  rcases handshake_ends hL hW p ba.kMaxProtocolVersion reply with hu | ⟨hlt, -⟩ | ⟨-, hok⟩
  · exact .inl hu
  · exact absurd hp (Int32.not_le.2 (hmin ▸ hlt))
  · rw [hmin] at hok
    exact .inr hok

/-- **When every `_meta` is an object, everything is decoded.** -/
theorem handshake_decodes {bc ba : Build} (p : InitializeParams bc) (hp : metaOk p) (a : Int32)
    (reply : InitializeParams ba → InitializeResult ba) (hreply : ∀ q, metaOk (reply q)) (e : Exn) :
    handshake L p a reply ≠ .error (.undecodable e) := by
  have hq : L.fromJson (InitializeParams ba) (L.toJson p) = .ok (p.rebuild ba) := by
    rw [params_rebuild hL hW ba p hp]
    exact (initialize_roundTrip L hL ba).1 _ hp
  have hback : ∀ r : InitializeResult ba, metaOk r → ∃ r', L.fromJson (InitializeResult bc) (L.toJson r) = .ok r' :=
    fun r hr => ⟨norm (r.rebuild bc), by
      rw [result_rebuild hL hW bc r hr]
      exact ((initialize_roundTrip L hL bc).2 (r.rebuild bc) hr).1⟩
  unfold handshake
  rcases agentAnswers_of_decode a reply hq with ⟨-, e', he⟩ | ⟨-, hok⟩
  · rw [he]
    intro h; cases h
  · obtain ⟨r', hr'⟩ := hback ((reply (p.rebuild ba)).atVersion (min a p.protocolVersion)) (hreply (p.rebuild ba))
    rw [hok]
    show (match L.fromJson (InitializeResult bc)
        (L.toJson ((reply (p.rebuild ba)).atVersion (min a p.protocolVersion))) with
      | .error e => Except.error (HandshakeError.undecodable e)
      | .ok r'   => .ok _) ≠ _
    rw [hr']
    intro h; cases h

end Exchange

/-- **The handshake ends in agreement**, whatever the payloads hold and whichever builds the two ends are: the agent
refuses when the lower version is below the oldest one, and else both ends hold the lower version, which the client's
own negotiation returns.  Raising either version never lowers what is agreed, nor does it end in a refusal.  Only a
`_meta` that is not an object can make a payload unreadable. -/
theorem handshake_agrees (L : Jsonrpc) (hL : L.Lawful) (hW : L.WritesDefaults) {bc ba : Build} (p : InitializeParams bc)
    (a : Int32) (reply : InitializeParams ba → InitializeResult ba) :
    (Undecodable (handshake L p a reply) ∨ Ends a p.protocolVersion (handshake L p a reply)) ∧
      (∀ c' a', p.protocolVersion ≤ c' → a ≤ a' → ∀ g, handshake L p a reply = .ok g →
        Undecodable (handshake L (p.atVersion c') a' reply) ∨
          ∃ g', handshake L (p.atVersion c') a' reply = .ok g' ∧ g.agent ≤ g'.agent ∧ g.client ≤ g'.client) ∧
      (metaOk p → (∀ q, metaOk (reply q)) → ∀ c' a', ¬ Undecodable (handshake L (p.atVersion c') a' reply)) := by
  refine ⟨handshake_ends hL hW p a reply, fun c' a' hc ha g hg => ?_, fun hp hreply c' a' h => ?_⟩
  · have hle := min_le_min ha hc
    rcases handshake_ends hL hW p a reply with ⟨e, he⟩ | ⟨-, e, he⟩ | ⟨h1, hok⟩
    · rw [he] at hg; cases hg
    · rw [he] at hg; cases hg
    · rw [hok] at hg
      cases hg
      rcases handshake_ends hL hW (p.atVersion c') a' reply with hu | ⟨hlt, -⟩ | ⟨-, hok'⟩
      · exact .inl hu
      · exact absurd (Int32.le_trans h1 hle) (Int32.not_le.2 hlt)
      · exact .inr ⟨_, hok', hle, hle⟩
  · obtain ⟨e, he⟩ := h
    exact handshake_decodes hL hW (p.atVersion c') hp a' reply hreply e he

/-- A client of the first version and an agent of a build whose default is the second. -/
theorem handshake_agrees_builds :
    ¬ Undecodable (handshake reference ({ protocolVersion := 1 } : InitializeParams {}) 2
        (fun _ : InitializeParams { kProtocolVersion := 2 } => {})) ∧
      Ends 2 1 (handshake reference ({ protocolVersion := 1 } : InitializeParams {}) 2
        (fun _ : InitializeParams { kProtocolVersion := 2 } => {})) := by
  have h := handshake_agrees reference reference_lawful reference_writesDefaults
    ({ protocolVersion := 1 } : InitializeParams {}) 2 (fun _ : InitializeParams { kProtocolVersion := 2 } => {})
  have hu := h.2.2 ⟨⟨rfl, rfl⟩, rfl⟩ (fun _ => by simp [metaOk, Json.object]) 1 2
  exact ⟨hu, h.1.resolve_left hu⟩

end Acp
