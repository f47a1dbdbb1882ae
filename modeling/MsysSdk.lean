import MsysSdk.Runs.Transition
import MsysSdk.Python.JsonText
import MsysSdk.Waiters.Table
import MsysSdk.Waiters.Log
import MsysSdk.Framing.Lines
import MsysSdk.Client.Routing
import MsysSdk.Client.Termination
import MsysSdk.Client.Recv
import MsysSdk.Channel.Replies
import MsysSdk.Channel.Exit
import MsysSdk.Channel.Announce
import MsysSdk.Channel.Routing
import MsysSdk.Bridge.Inbound
import MsysSdk.Bridge.Violation
import MsysSdk.Bridge.Draining
import MsysSdk.Mipc.RoundTrip
import MsysSdk.Mipc.Delivery
import MsysSdk.Mipc.Agreement
import MsysSdk.I18n.Rendering
import MsysSdk.I18n.Resolution
import MsysSdk.I18n.Lookup
import MsysSdk.Client.Disposal
import MsysSdk.Wire.Acceptance
import MsysSdk.Client.PublicLine
import MsysSdk.Bridge.ChildStream
import MsysSdk.Client.Cause
import MsysSdk.InputMethod.Closing
import MsysSdk.Manifest.Overwrite
import MsysSdk.Identity.Agreement
import MsysSdk.I18n.CDenotation
import MsysSdk.Channel.PublicLine
import MsysSdk.I18n.Printing
import MsysSdk.I18n.Package
import MsysSdk.Text.Replace
import MsysSdk.I18n.Recovery
import MsysSdk.Python.JsonHooks
import MsysSdk.I18n.Candidates
import MsysSdk.I18n.Environment
import MsysSdk.I18n.CRetry
import MsysSdk.Mipc.Finding
import MsysSdk.Mipc.Decoding
import MsysSdk.Mipc.Strings
import MsysSdk.Mipc.Dispatch
import MsysSdk.Mipc.Integers
import MsysSdk.Mipc.Hello
import MsysSdk.I18n.Respelling
import MsysSdk.Manifest.Failures
import MsysSdk.Identity.Usable
import MsysSdk.Mipc.CursorFields
import MsysSdk.Wire.Messages
import MsysSdk.Wire.Quoting
import MsysSdk.Wire.Reading
import MsysSdk.Python.JsonPrefix
import MsysSdk.Wire.Decoding
import MsysSdk.Component.Model
import MsysSdk.Component.Packets
import MsysSdk.Component.Run
import MsysSdk.Component.Calls
import MsysSdk.Client.Events
import MsysSdk.Client.EventLoop
import MsysSdk.Wire.Serving
import MsysSdk.Framing.Exchange
import MsysSdk.Channel.Public
import MsysSdk.Runs.Simulation
import MsysSdk.Coalescing.Slot
import MsysSdk.Coalescing.Crew
import MsysSdk.TouchApp.Model
import MsysSdk.TouchApp.Steps
import MsysSdk.TouchApp.Requests
import MsysSdk.TouchApp.Worker
import MsysSdk.TouchApp.FocusCheck
import MsysSdk.TouchApp.Driving
import MsysSdk.TouchApp.Closing
import MsysSdk.TouchApp.Wishes
import MsysSdk.TouchApp.Polling
import MsysSdk.I18n.Compiled
import MsysSdk.Python.JsonIndent
import MsysSdk.Manifest.File
import MsysSdk.I18n.CHeaderFile
import MsysSdk.Channel.Handling
import MsysSdk.Wire.Navigation
import MsysSdk.Client.PublicCall
import MsysSdk.Channel.Answering
