import Acp.Exchange
import Acp.Wire.Plain
/-!
# Loopback — the agent and the client of the loopback test (`tests/protocol_loopback.cpp`)

The two hosts of the test, as routers: the agent answers initialize and session/new and defers session/prompt, and the
client answers session/request_permission and collects session/update.  Beside them the agent of the README, whose
handler of initialize throws where no version is shared.  All are hosts of the protocol (`Agent.proper`,
`Client.proper`, `Usage.proper`), and the test itself is a run of two of them (`loopback_run`).
-/
namespace Acp

open Wire

/-! ## The calls and the note of the test -/

theorem initialize_mem (b : Build) : initializeType b ∈ callTypes b := by
  simp [callTypes]

theorem sessionNew_mem (b : Build) : sessionNewType ∈ callTypes b := by
  simp [callTypes]

theorem sessionPrompt_mem (b : Build) : sessionPromptType ∈ callTypes b := by
  simp [callTypes]

theorem logout_mem (b : Build) : logoutType ∈ callTypes b := by
  simp [callTypes]

theorem requestPermission_mem (b : Build) : requestPermissionType ∈ callTypes b := by
  simp [callTypes]

theorem sessionUpdate_mem : sessionUpdateType ∈ noteTypes := by
  simp [noteTypes]

def ToAgent.initializeCall (b : Build) : { c : CallType // c ∈ callTypes b } := ⟨initializeType b, initialize_mem b⟩

def ToAgent.sessionNewCall (b : Build) : { c : CallType // c ∈ callTypes b } := ⟨sessionNewType, sessionNew_mem b⟩

def ToAgent.sessionPromptCall (b : Build) : { c : CallType // c ∈ callTypes b } :=
  ⟨sessionPromptType, sessionPrompt_mem b⟩

def ToAgent.logoutCall (b : Build) : { c : CallType // c ∈ callTypes b } := ⟨logoutType, logout_mem b⟩

def ToClient.requestPermissionCall (b : Build) : { c : CallType // c ∈ callTypes b } :=
  ⟨requestPermissionType, requestPermission_mem b⟩

def ToClient.sessionUpdateNote : { n : NoteType // n ∈ noteTypes } := ⟨sessionUpdateType, sessionUpdate_mem⟩

/-! ## The hosts -/

/-- The agent's state, of which a handler uses the count alone. -/
structure Agent where
  sessions : Int32 := 0

namespace Agent

def onInitialize {b : Build} (a : Agent) (p : InitializeParams b) : Agent × InitializeResult b :=
  (a, { protocolVersion := p.protocolVersion })

def onSessionNew (a : Agent) (_ : NewSessionParams) : Agent × NewSessionResult :=
  let a := { a with sessions := a.sessions + 1 }
  (a, { sessionId := ⟨"s" ++ toString a.sessions⟩ })

def router (L : Jsonrpc) (b : Build) : List (Route (table L b) Agent) := [
  .on (ToAgent.initializeCall b) (returning onInitialize), .on (ToAgent.sessionNewCall b) (returning onSessionNew),
  .defer (ToAgent.sessionPromptCall b)]

end Agent

namespace Usage

/-- The agent's state is its user's; the handlers of the README do not look at it. -/
def onInitialize {b : Build} {σ : Type} (a : σ) (p : InitializeParams b) : σ × Option (InitializeResult b) :=
  match negotiateVersion b.kProtocolVersion p.protocolVersion with
  | .ok v    => (a, some { protocolVersion := v })
  | .error _ => (a, none)

def router (L : Jsonrpc) (b : Build) (σ : Type) : List (Route (table L b) σ) := [
  .on (ToAgent.initializeCall b) onInitialize, .defer (ToAgent.sessionPromptCall b)]

end Usage

structure Client where
  updates          : List SessionUpdateMsg := []
  permissionsAsked : Int32 := 0

namespace Client

/-- `front` of an empty list is undefined; it is taken to be any option.  No result rests on it. -/
def onRequestPermission (front : PermissionOption) (c : Client) (p : RequestPermissionParams) :
    Client × RequestPermissionResult :=
  ({ c with permissionsAsked := c.permissionsAsked + 1 },
    { outcome := .selected { optionId := (p.options.head?.getD front).optionId } })

def onSessionUpdate (c : Client) (m : SessionUpdateMsg) : Client := { c with updates := c.updates ++ [m] }

def router (L : Jsonrpc) (b : Build) (front : PermissionOption) : List (Route (table L b) Client) := [
  .on (ToClient.requestPermissionCall b) (returning (onRequestPermission front)),
  .note ToClient.sessionUpdateNote onSessionUpdate]

end Client

/-! ## They are hosts of the protocol -/

section Hosts

variable {L : Jsonrpc} {b : Build} {σ : Type} {rs : List (Route (table L b) σ)}

theorem Agent.proper (hL : L.Lawful) (hW : L.WritesText) : Proper (answering (Agent.router L b)) := by
  have hcalls : List.Nodup ["initialize", "session/new", "session/prompt"] := by decide
  have hnone : ∀ {α : Type} {P : α → Prop}, ∀ x ∈ (none : Option α), P x := fun _ hx => by cases hx
  refine answering_proper hcalls .nil ?_
  intro c h hm s v _ r hr
  rcases hm with _ | ⟨_, _ | ⟨_, _ | ⟨_, hm⟩⟩⟩
  · cases hr
    exact ⟨⟨rfl, List.forall_mem_nil _, rfl⟩, isText_initializeResult hL hW b _⟩
  · cases hr
    exact ⟨⟨hnone, hnone, rfl⟩, isText_newSessionResult hL _⟩
  · cases hm

theorem Usage.proper (hL : L.Lawful) (hW : L.WritesText) : Proper (answering (Usage.router L b σ)) := by
  have hcalls : List.Nodup ["initialize", "session/prompt"] := by decide
  refine answering_proper hcalls .nil ?_
  intro c h hm s v _ r hr
  rcases hm with _ | ⟨_, _ | ⟨_, hm⟩⟩
  · unfold Usage.onInitialize at hr
    split at hr
    · cases hr
      exact ⟨⟨rfl, List.forall_mem_nil _, rfl⟩, isText_initializeResult hL hW b _⟩
    · cases hr
  · cases hm

theorem Client.proper (hL : L.Lawful) (front : PermissionOption) : Proper (answering (Client.router L b front)) := by
  refine answering_proper (List.nodup_singleton "session/request_permission") (List.nodup_singleton "session/update") ?_
  intro c h hm s v _ r hr
  rcases hm with _ | ⟨_, _ | ⟨_, hm⟩⟩
  · cases hr
    exact ⟨⟨rfl, rfl⟩, isText_selected hL _⟩
  · cases hm

/-- **The client collects the updates.** -/
theorem Client.collects (front : PermissionOption) :
    (answering (Client.router L b front)).Collects ToClient.sessionUpdateNote Client.updates where
  routed := ⟨_, .tail _ (.head _)⟩
  calls c h hm s v := by
    rcases hm with _ | ⟨_, _ | ⟨_, hm⟩⟩
    · rfl
    · cases hm
  notes h hm s v := by
    rcases hm with _ | ⟨_, _ | ⟨_, hm⟩⟩
    · rfl
    · cases hm
  others n' h hn hm s v := by
    rcases hm with _ | ⟨_, _ | ⟨_, hm⟩⟩
    · exact absurd rfl hn
    · cases hm

end Hosts

/-! ## The test -/

def testClient : Host (table reference {}) Client := answering (Client.router reference {} {})

def testAgent : Host (table reference {}) Agent := answering (Agent.router reference {})

theorem testClient_proper : Proper testClient := Client.proper reference_lawful {}

theorem testAgent_proper : Proper testAgent := Agent.proper reference_lawful reference_writesText

/-- What the two hosts of the test do, over an engine whose ids count from 0. -/
def loopbackTest : List (Side × Act (table reference {}) Nat) := [
  (.here, .request (ToAgent.initializeCall {}) ({ protocolVersion := 1 } : InitializeParams {})),
  (.there, .deliver), (.here, .deliver),
  (.here, .request (ToAgent.sessionNewCall {}) ({ cwd := "/tmp" } : NewSessionParams)),
  (.there, .deliver), (.here, .deliver),
  (.here, .request (ToAgent.sessionPromptCall {}) ({ sessionId := ⟨"s1"⟩ } : PromptParams)),
  (.there, .deliver),
  (.there, .notify ToClient.sessionUpdateNote
    ({ sessionId := ⟨"s1"⟩, update := .agentMessageChunk { content := .text { text := "hello" } } } : SessionUpdateMsg)),
  (.there, .request (ToClient.requestPermissionCall {}) ({ sessionId := ⟨"s1"⟩, options := [
    { optionId := "allow_once", name := "Allow", kind := .allowOnce }] } : RequestPermissionParams)),
  (.here, .deliver), (.here, .deliver), (.there, .deliver),
  (.there, .reply (2 : Nat) (ToAgent.sessionPromptCall {}) ({ stopReason := .endTurn } : PromptResult)),
  (.here, .deliver)]

/-- Two sessions; a turn with two updates and a permission to be chosen from two; a turn that the agent refuses; and a
call that it does not route. -/
def busyTest : List (Side × Act (table reference {}) Nat) := [
  (.here, .request (ToAgent.sessionNewCall {}) ({ cwd := "/a" } : NewSessionParams)),
  (.here, .request (ToAgent.sessionNewCall {}) ({ cwd := "/b" } : NewSessionParams)),
  (.here, .request (ToAgent.sessionPromptCall {}) ({ sessionId := ⟨"s1"⟩ } : PromptParams)),
  (.here, .request (ToAgent.sessionPromptCall {}) ({ sessionId := ⟨"s2"⟩ } : PromptParams)),
  (.here, .request (ToAgent.logoutCall {}) ()),
  (.there, .deliver), (.there, .deliver), (.there, .deliver), (.there, .deliver), (.there, .deliver),
  (.there, .notify ToClient.sessionUpdateNote
    ({ sessionId := ⟨"s1"⟩, update := .agentMessageChunk { content := .text { text := "hello" } } } : SessionUpdateMsg)),
  (.there, .request (ToClient.requestPermissionCall {}) ({ sessionId := ⟨"s1"⟩, options := [
    { optionId := "no", name := "Reject", kind := .rejectOnce },
    { optionId := "yes", name := "Allow", kind := .allowOnce }] } : RequestPermissionParams)),
  (.there, .refuse (3 : Nat)),
  (.there, .notify ToClient.sessionUpdateNote
    ({ sessionId := ⟨"s1"⟩, update := .agentMessageChunk { content := .text { text := "bye" } } } : SessionUpdateMsg)),
  (.there, .reply (2 : Nat) (ToAgent.sessionPromptCall {}) ({ stopReason := .endTurn } : PromptResult)),
  (.here, .deliver), (.here, .deliver), (.here, .deliver), (.here, .deliver), (.here, .deliver), (.here, .deliver),
  (.here, .deliver), (.here, .deliver), (.there, .deliver)]

/-- What the acts come to. -/
def loopbackAfter (as : List (Side × Act (table reference {}) Nat)) :
    Option (Link (Peer (plain (table reference {})) Client) (Peer (plain (table reference {})) Agent)) :=
  Link.runs _ testClient.router testAgent.router as ⟨.start _ {}, .start _ {}⟩

/-- The two hosts may do it at any time. -/
def MayDo : Side × Act (table reference {}) Nat → Prop :=
  AllowedAlways (plain (table reference {})) testClient testAgent

theorem initialize_metaOk (v : Int32) :
    (ToAgent.initializeCall {}).1.paramsOk ({ protocolVersion := v } : InitializeParams {}) := by
  show metaOk (InitializeParams.mk _ _ _ _)
  simp [metaOk, Json.object]

theorem chunk_sends (t : String) : BodySend (L := reference) (b := {}) ToClient.sessionUpdateNote
    ({ sessionId := ⟨"s1"⟩, update := .agentMessageChunk { content := .text { text := t } } } : SessionUpdateMsg) := by
  refine ⟨?_, rfl⟩
  show metaOk (SessionUpdateMsg.mk _ _ _)
  simp [metaOk, Json.object]

theorem loopbackTest_allowed : ∀ q ∈ loopbackTest, MayDo q := by
  unfold loopbackTest
  simp only [List.forall_mem_cons]
  refine ⟨fun _ => ⟨initialize_metaOk 1, rfl⟩, fun _ => trivial, fun _ => trivial, fun _ => ⟨rfl, rfl⟩, fun _ => trivial,
    fun _ => trivial, fun _ => ⟨⟨List.forall_mem_nil _, rfl⟩, rfl⟩, fun _ => trivial, fun _ => chunk_sends "hello",
    fun _ => ⟨?_, rfl⟩, fun _ => trivial, fun _ => trivial, fun _ => trivial, fun _ _ _ _ _ _ => ⟨rfl, rfl⟩,
    fun _ => trivial, List.forall_mem_nil _⟩
  show metaOk (RequestPermissionParams.mk _ _ _ _)
  simp [metaOk, Json.object]

theorem busyTest_allowed : ∀ q ∈ busyTest, MayDo q := by
  unfold busyTest
  simp only [List.forall_mem_cons]
  refine ⟨fun _ => ⟨rfl, rfl⟩, fun _ => ⟨rfl, rfl⟩, fun _ => ⟨⟨List.forall_mem_nil _, rfl⟩, rfl⟩,
    fun _ => ⟨⟨List.forall_mem_nil _, rfl⟩, rfl⟩, fun _ => ⟨trivial, rfl⟩, fun _ => trivial, fun _ => trivial,
    fun _ => trivial, fun _ => trivial, fun _ => trivial, fun _ => chunk_sends "hello", fun _ => ⟨?_, rfl⟩,
    fun _ => trivial, fun _ => chunk_sends "bye", fun _ _ _ _ _ _ => ⟨rfl, rfl⟩, fun _ => trivial, fun _ => trivial,
    fun _ => trivial, fun _ => trivial, fun _ => trivial, fun _ => trivial, fun _ => trivial, fun _ => trivial,
    fun _ => trivial, List.forall_mem_nil _⟩
  show metaOk (RequestPermissionParams.mk _ _ _ _)
  simp [metaOk, Json.object]

theorem loopback_run {as : List (Side × Act (table reference {}) Nat)}
    {l : Link (Peer (plain (table reference {})) Client) (Peer (plain (table reference {})) Agent)}
    (has : ∀ q ∈ as, MayDo q) (h : loopbackAfter as = some l) :
    Run (plain (table reference {})) testClient testAgent {} {} as l :=
  Run.runs _ .start has h

/-- What the test checks: three calls of the client's and one of the agent's have ended, and nothing waits. -/
example : (loopbackAfter loopbackTest).map (fun l => (l.here.done.length, l.there.done.length, l.here.state.updates.length,
    l.here.state.permissionsAsked, l.here.engine.pending, l.there.engine.pending)) = some (3, 1, 1, 1, ∅, ∅) := rfl

end Acp
