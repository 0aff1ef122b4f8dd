import Acp.Methods
/-!
# Protocol — every method, declared once (`protocol.hpp`)

A method is its name and the types of its params and result; a note has params only.
-/
namespace Acp

open Wire

structure Method : Type 1 where
  name   : String
  Params : Type
  Result : Type
  [paramsCodec : CodecOf Params]
  [resultCodec : CodecOf Result]

structure Note : Type 1 where
  name   : String
  Params : Type
  [paramsCodec : CodecOf Params]

/-! ## The client calls these on the agent -/

namespace ToAgent

def Initialize (b : Build) : Method   := ⟨"initialize", InitializeParams b, InitializeResult b⟩
def Authenticate : Method     := ⟨"authenticate", AuthenticateParams, Unit⟩
def Logout : Method           := ⟨"logout", Unit, Unit⟩
def SessionNew : Method       := ⟨"session/new", NewSessionParams, NewSessionResult⟩
def SessionLoad : Method      := ⟨"session/load", LoadSessionParams, LoadSessionResult⟩
def SessionResume : Method    := ⟨"session/resume", ResumeSessionParams, ResumeSessionResult⟩
def SessionFork : Method      := ⟨"session/fork", ForkSessionParams, NewSessionResult⟩
def SessionClose : Method     := ⟨"session/close", CloseSessionParams, Unit⟩
def SessionDelete : Method    := ⟨"session/delete", DeleteSessionParams, Unit⟩
def SessionList : Method      := ⟨"session/list", ListSessionsParams, ListSessionsResult⟩
def SessionPrompt : Method    := ⟨"session/prompt", PromptParams, PromptResult⟩
def SessionSetMode : Method   := ⟨"session/set_mode", SetModeParams, Unit⟩
def SessionSetConfig : Method := ⟨"session/set_config_option", SetConfigOptionParams, SetConfigOptionResult⟩
def SessionCancel : Note      := ⟨"session/cancel", CancelParams⟩

end ToAgent

/-! ## The agent calls these on the client -/

namespace ToClient

def SessionUpdate : Note         := ⟨"session/update", SessionUpdateMsg⟩
def RequestPermission : Method   := ⟨"session/request_permission", RequestPermissionParams, RequestPermissionResult⟩
def FsReadTextFile : Method      := ⟨"fs/read_text_file", ReadTextFileParams, ReadTextFileResult⟩
def FsWriteTextFile : Method     := ⟨"fs/write_text_file", WriteTextFileParams, Unit⟩
def TerminalCreate : Method      := ⟨"terminal/create", CreateTerminalParams, CreateTerminalResult⟩
def TerminalOutput : Method      := ⟨"terminal/output", TerminalOutputParams, TerminalOutputResult⟩
def TerminalWaitForExit : Method := ⟨"terminal/wait_for_exit", TerminalWaitForExitParams, TerminalWaitForExitResult⟩
def TerminalKill : Method        := ⟨"terminal/kill", TerminalKillParams, Unit⟩
def TerminalRelease : Method     := ⟨"terminal/release", TerminalReleaseParams, Unit⟩
def ElicitationCreate : Method   := ⟨"elicitation/create", Json, Json⟩

end ToClient

/-- Either direction. -/
def CancelRequest : Note := ⟨"$/cancel_request", CancelRequestParams⟩

def methods (b : Build) : List Method := [
  ToAgent.Initialize b, ToAgent.Authenticate, ToAgent.Logout, ToAgent.SessionNew, ToAgent.SessionLoad,
  ToAgent.SessionResume, ToAgent.SessionFork, ToAgent.SessionClose, ToAgent.SessionDelete, ToAgent.SessionList,
  ToAgent.SessionPrompt, ToAgent.SessionSetMode, ToAgent.SessionSetConfig, ToClient.RequestPermission,
  ToClient.FsReadTextFile, ToClient.FsWriteTextFile, ToClient.TerminalCreate, ToClient.TerminalOutput,
  ToClient.TerminalWaitForExit, ToClient.TerminalKill, ToClient.TerminalRelease, ToClient.ElicitationCreate]

def notes : List Note := [ToAgent.SessionCancel, ToClient.SessionUpdate, CancelRequest]

end Acp
