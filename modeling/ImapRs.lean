import ImapRs.Core.Ast
import ImapRs.Incremental.Cursor
import ImapRs.Incremental.Laws
import ImapRs.Incremental.Assembled
import ImapRs.Core.Parser
import ImapRs.Core.Tokens
import ImapRs.Core.Productions
import ImapRs.Core.Framing
import ImapRs.Incremental.Fence
import ImapRs.Core.Stalls
import ImapRs.Core.Payload
import ImapRs.Client.Error
import ImapRs.Client.ReadLoop
import ImapRs.Client.Dispatcher
import ImapRs.Client.Steps
import ImapRs.Client.Routing
import ImapRs.Client.Conservation
import ImapRs.Client.Teardown
import ImapRs.Client.Attribution
import ImapRs.Client.Wire
import ImapRs.Client.Search
import ImapRs.Client.SearchGrammar
import ImapRs.Core.Items
import ImapRs.Core.Checked
import ImapRs.Core.NoPanic
import ImapRs.Client.Capabilities
import ImapRs.Tls.FrameReader
import ImapRs.Tls.Starttls
import ImapRs.Client.Session
import ImapRs.Transition.Fallible
import ImapRs.Client.CommandLines
import ImapRs.Client.Refresh
import ImapRs.Client.Exchange
import ImapRs.Client.Idle
import ImapRs.Client.Completeness
import ImapRs.Core.ReadBack
import ImapRs.Core.RoundTrip
import ImapRs.Core.Canonical
import ImapRs.Client.Characters
import ImapRs.Client.Flags
import ImapRs.Client.Quoting
import ImapRs.Client.Base64
import ImapRs.Incremental.Accepts
import ImapRs.Core.Accepted
import ImapRs.Client.FetchResult
import ImapRs.Client.FetchBody
import ImapRs.Client.SequenceSet
import ImapRs.Core.RawLine
import ImapRs.Incremental.Stops
import ImapRs.Core.Trailing
import ImapRs.Incremental.Rejects
import ImapRs.Core.StatusItems
import ImapRs.Brackets.Dyck
import ImapRs.Client.FetchItems
import ImapRs.Storage.Buffer
import ImapRs.Client.SecretBuffers
import ImapRs.Brackets.Depth
import ImapRs.Incremental.PrefixCode
import ImapRs.Incremental.Raises
import ImapRs.Core.BalancedValue
import ImapRs.Format.Debug
import ImapRs.Client.DebugOutput
import ImapRs.Text.Words
import ImapRs.Client.CapabilityText
import ImapRs.Text.Fields
import ImapRs.Client.CommandReader
import ImapRs.Client.Courses
import ImapRs.Client.Transcript
import ImapRs.Client.ServerState
import ImapRs.Client.Warrants
import ImapRs.Client.Bounds
import ImapRs.Client.Settling
import ImapRs.Core.Language
import ImapRs.Tls.Connect
import ImapRs.Incremental.Blames
import ImapRs.Core.Blame
import ImapRs.Client.ErrorText
import ImapRs.Client.Beside
import ImapRs.Client.Histories
import ImapRs.Client.OnTheWire
