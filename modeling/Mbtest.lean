import Mbtest.ModbusServer.Requests
import Mbtest.ModbusServer.Snapshot
import Mbtest.Wire.RoundTrip
import Mbtest.Wire.Session
import Mbtest.Wire.Exchange
import Mbtest.Lifecycle.Handlers
import Mbtest.Lifecycle.Shutdown
import Mbtest.Lifecycle.Registration
import Mbtest.Lifecycle.Handles
import Mbtest.Lifecycle.Flags
import Mbtest.Lifecycle.Targets
import Mbtest.Lifecycle.Signals
import Mbtest.Lifecycle.Descriptors
import Mbtest.TcpConnection.ReadErrors
import Mbtest.Client.CutStream
import Mbtest.Client.Buffer
import Mbtest.Client.InputLoop
import Mbtest.Client.LoopThread
import Mbtest.Wire.ReadCommand
import Mbtest.TcpConnection.WriteErrors
import Mbtest.ModbusConnection.Select
import Mbtest.ThreadDeleter.HandOver
import Mbtest.CodeMachina.Orders
import Mbtest.CodeMachina.Wakeups
import Mbtest.CodeMachina.Workers
import Mbtest.Lifecycle.Places
import Mbtest.Lifecycle.Closing
import Mbtest.ThreadDeleter.Refinement
import Mbtest.Wire.Console
import Mbtest.Wire.Clients
import Mbtest.Wire.Waiting
