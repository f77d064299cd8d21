import AcpCore.Trace.Crash
import AcpCore.Replay.RoundTrip
import AcpCore.Replay.Tolerance
import AcpCore.Replay.Extension
import AcpCore.Replay.Turns
import AcpCore.Replay.HashPaths
import AcpCore.Proxy.Causality
import AcpCore.Proxy.Replayed
import AcpCore.Proxy.Prompt
import AcpCore.Proxy.Reproduced
import AcpCore.Agent.Proxied
import AcpCore.Cli.Inspect
import AcpCore.Proxy.WellFormed
import AcpCore.Proxy.Reporting
import AcpCore.Proxy.Shutdown
import AcpCore.Wire.Inverse
import AcpCore.Wire.Conformance
import AcpCore.Wire.Spelling
import AcpCore.Wire.Classification
import AcpCore.Wire.Framing
import AcpCore.Wire.Splitter
import AcpCore.Trace.Leftover
import AcpCore.Trace.Lookup
import AcpCore.Trace.Torn
import AcpCore.Replay.Tamper
import AcpCore.Replay.Refusal
import AcpCore.Diverge.Distance
import AcpCore.Diverge.Parting
import AcpCore.Diverge.Dot
