import Acp.Reference
import Acp.Protocol
import Acp.Wire.Retract
import Acp.Wire.Runs
import Acp.Records
import Acp.Conforms
import Acp.ContentOk
import Acp.SessionOk
import Acp.CapsOk
import Acp.MessagesOk
import Acp.RoundTrip
import Acp.Escape
import Acp.Faultless
import Acp.MetaRelay
import Acp.Consent
import Acp.Handshake
import Acp.Wire.Path
import Acp.Unknown
import Acp.Tidy
import Acp.Dispatch
import Acp.Flatten
import Acp.Evidence
import Acp.SetOption
import Acp.ToolViews
import Acp.Verbatim
import Acp.Wire.Plain
import Acp.Exchange
import Acp.Wire.Exchange
import Acp.Loopback
import Acp.Conversation
import Acp.Patch
import Acp.WellFormed
import Acp.Idle
