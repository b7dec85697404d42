import Diagd.Lib.Account
import Diagd.Lib.Arrivals
import Diagd.Lib.Cyclic
import Diagd.Lib.GoNet
import Diagd.Lib.GoSlice
import Diagd.Lib.GoStd
import Diagd.Lib.GoText
import Diagd.Lib.Ownership
import Diagd.Lib.Pacing
import Diagd.Lib.Patches
import Diagd.Lib.Resumption
import Diagd.Lib.Retention
import Diagd.Lib.RingBuffer
import Diagd.Lib.SharedSlice
import Diagd.Lib.TimedLoop
import Diagd.Lib.Transition
import Diagd.Lib.Windows
import Diagd.Udpst.Rates
import Diagd.Udpst.Protocol
import Diagd.Udpst.Codec
import Diagd.Udpst.Auth
import Diagd.Udpst.Algo
import Diagd.Udpst.Session
import Diagd.Udpst.Nominal
import Diagd.Udpst.Server
import Diagd.Udpst.Accounting
import Diagd.Udpst.Upstream
import Diagd.Udpst.Downstream
import Diagd.Udpst.Course
import Diagd.Udpst.Handler
import Diagd.Udpst.Activation
import Diagd.Udpst.System
import Diagd.Udpst.Lineage
import Diagd.Udpst.Ledger
import Diagd.Udpst.Admission
import Diagd.Udpst.Secrecy
import Diagd.Udpst.RateSearch
import Diagd.Udpst.Exactness
import Diagd.Udpst.Conservation
import Diagd.Udpst.TestDuration
import Diagd.Udpst.Idle
import Diagd.Udpst.Feedback
import Diagd.Udpst.RoundTrip
import Diagd.Udpst.Signing
import Diagd.Udpst.Shutdown
import Diagd.Udpst.Sending
import Diagd.Udpst.Numbering
import Diagd.Udpst.Policing
import Diagd.Udpst.Decisions
import Diagd.Udpst.Search
import Diagd.Udpst.Retries
import Diagd.Udpst.Samples
import Diagd.Udpst.Delay
import Diagd.Udpst.DelayStats
import Diagd.Udpst.Totals
import Diagd.Udpst.Suppression
import Diagd.Udpst.StatusStream
import Diagd.Udpst.SendLoop
import Diagd.Udpst.Goroutines
import Diagd.Udpst.LoadStream
import Diagd.Udpst.Echo
import Diagd.Udpst.WindDown
import Diagd.Udpst.LoadBound
import Diagd.Udpst.OfferedLoad
import Diagd.Udpst.Steering
import Diagd.Udpst.Ports
import Diagd.Udpst.Allocation
import Diagd.Udpst.Exchange
import Diagd.Tr143.Live
import Diagd.Tr143.Polling
import Diagd.Tr143.Request
import Diagd.Tr143.SizeNames
import Diagd.Tr143.Http
import Diagd.Tr143.Slots
import Diagd.Tr143.Observation
import Diagd.Tr143.Delivery
import Diagd.Tr143.Echo
import Diagd.Tr143.EchoCounters
import Diagd.Cmd.Ops
