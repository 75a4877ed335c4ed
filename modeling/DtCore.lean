import DtCore.Log.RtLog.Barrier
import DtCore.Log.RtLog.Sessions
import DtCore.DAQ.Publisher.Stream
import DtCore.DAQ.Publisher.Cancel
import DtCore.DAQ.Service.Removal
import DtCore.DAQ.Publisher.Server
import DtCore.Log.FileSink.Tail
import DtCore.Utils.Conf.Unmentioned
import DtCore.Log.ColorSink.Stream
import DtCore.DAQ.Mcap.Hole
import DtCore.DAQ.Mcap.FailedRotation
import DtCore.DAQ.Manager.Broadcast
import DtCore.Log.RtTui.Rows
import DtCore.Log.RtTui.Sink
import DtCore.Log.RtTui.Groups
import DtCore.Log.RtTui.Layouts
import DtCore.Log.RtTui.Scroll
import DtCore.Log.RtTui.Height
import DtCore.Log.RtTui.Output
import DtCore.Log.RtTui.Graphic
import DtCore.Log.RtTui.Keys
import DtCore.Log.RtLog.Levels
import DtCore.Log.RtLog.Threshold
import DtCore.Log.RtLog.Pattern
import DtCore.Log.RtLog.Statement
import DtCore.Log.RtLog.Manipulators
import DtCore.Log.RtLog.ContStream
import DtCore.Log.RtLog.Arrays
import DtCore.Log.RtLog.Integers
import DtCore.DAQ.Subscriber.Stream
import DtCore.Log.LogQueue.Overflow
import DtCore.Log.LogQueue.Monitor
import DtCore.Thread.Bounds
import DtCore.Thread.Release
import DtCore.Utils.Conf.Accessors
import DtCore.Utils.Conf.NoOverride
import DtCore.Utils.Conf.Ordinary
import DtCore.Utils.Watchdog
import DtCore.DAQ.Mcap.Schema
import DtCore.DAQ.Mcap.WriteLoop
import DtCore.Log.FileSink.Returns
import DtCore.Utils.Paths
import DtCore.Utils.Directories
import DtCore.Utils.Terminal
import DtCore.Utils.GnuPlot
import DtCore.Log.RtLog.Directories
import DtCore.Log.RtLog.LifeCycle
import DtCore.Log.RtLog.TuiLifetime
import DtCore.Log.RtLog.Buffers
import DtCore.Log.FileSink.Faults
import DtCore.Log.RtTui.InRange
import DtCore.Utils.Numbering
import DtCore.Log.RtLog.Raw
import DtCore.Utils.SpinLock
import DtCore.DAQ.Subscriber.StopReturns
import DtCore.DAQ.Subscriber.Gapless
import DtCore.Log.FileSink.Restarts
import DtCore.DAQ.Service.Listener.Listening
import DtCore.DAQ.Service.Listener.Answers
import DtCore.DAQ.Service.Listener.Returns
