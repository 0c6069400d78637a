import LibNetToy.Base.SpaceRequests
import LibNetToy.Base.BufferGrowth
import LibNetToy.Base.PrependReserve
import LibNetToy.Base.IntegerRoundTrip
import LibNetToy.Base.LineExtraction
import LibNetToy.Base.TimerIterators
import LibNetToy.Base.TimerClock
import LibNetToy.Base.EventLoopThread
import LibNetToy.Base.LoopAssignment
import LibNetToy.Net.InTurn
import LibNetToy.Net.OutputStream
import LibNetToy.Net.InputStream
import LibNetToy.Net.CloseOnce
import LibNetToy.Net.StrandedOutput
import LibNetToy.Net.GracefulShutdown
import LibNetToy.Net.Reconnection
import LibNetToy.Net.Disconnecting
import LibNetToy.Net.OneConnection
import LibNetToy.Net.ConnectionMap
import LibNetToy.Net.ClientDestruction
import LibNetToy.Net.ConnectionNames
import LibNetToy.Net.StartAgain
import LibNetToy.Net.ReadRoom
import LibNetToy.Net.StopRead
import LibNetToy.Net.InFlight
import LibNetToy.Net.BroughtDown
import LibNetToy.Net.Backoff
import LibNetToy.Net.Link
import LibNetToy.Net.Discarding
import LibNetToy.Net.ReportOrder
import LibNetToy.Net.Journal
import LibNetToy.Net.Network
import LibNetToy.Net.Tidy
