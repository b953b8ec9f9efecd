import WSlyh.Http.Assembly
import WSlyh.Http.Body
import WSlyh.Http.FullResponse
import WSlyh.Http.Incremental
import WSlyh.Http.PartialWrite
import WSlyh.Http.Reading
import WSlyh.Http.Completeness
import WSlyh.Http.Isolation
import WSlyh.Http.RequestLine
import WSlyh.Http.RoundTrip
import WSlyh.Http.Session
import WSlyh.Http.Service
import WSlyh.Http.Grammar
import WSlyh.Lib.Circular
import WSlyh.Lib.Transition
import WSlyh.Log.Capacity
import WSlyh.Log.Clock
import WSlyh.Log.Contiguity
import WSlyh.Log.Crash
import WSlyh.Log.Dropping
import WSlyh.Log.FileDates
import WSlyh.Log.Growth
import WSlyh.Log.Leftover
import WSlyh.Log.LogLine
import WSlyh.Log.NoLoss
import WSlyh.Log.Processes
import WSlyh.Log.Aliasing
import WSlyh.Log.Rotation
import WSlyh.Log.Drain
import WSlyh.Log.Restart
import WSlyh.Log.Saturation
import WSlyh.Pool.Order
import WSlyh.Pool.Wakeup
import WSlyh.Timer.Adjusting
import WSlyh.Timer.Firing
import WSlyh.Timer.Runs
import WSlyh.Server.Bounds
import WSlyh.Server.Eviction
import WSlyh.Server.Signals
import WSlyh.Server.Shutdown
import WSlyh.Pool.Station
import WSlyh.Server.Station
import WSlyh.Server.Hosting
