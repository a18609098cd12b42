import UtpGo.CongestionBounds
import UtpGo.CongestionEstimate
import UtpGo.ConnAnswers
import UtpGo.ConnClose
import UtpGo.ConnEcho
import UtpGo.ConnFin
import UtpGo.ConnForward
import UtpGo.ConnLoop
import UtpGo.ConnReads
import UtpGo.ConnReport
import UtpGo.ConnShortWrites
import UtpGo.ConnSizes
import UtpGo.ConnSyn
import UtpGo.ConnTimers
import UtpGo.ConnTransmit
import UtpGo.ConnWindow
import UtpGo.ConnWire
import UtpGo.DelayHeap
import UtpGo.DelaySetRuns
import UtpGo.PacketGrammar
import UtpGo.Pair
import UtpGo.RecvBufferRuns
import UtpGo.SentPacketsCharges
import UtpGo.SentPacketsFlight
import UtpGo.SentPacketsRuns
import UtpGo.SocketCalls
import UtpGo.SocketRoute
import UtpGo.SocketTable
import UtpGo.WheelLock
import UtpGo.PairTimers
import UtpGo.ConnReturns
import UtpGo.ConnRecovery
import UtpGo.PairRecovery
import UtpGo.PairStall
import UtpGo.ConnWakes
import UtpGo.PairWire
import UtpGo.SocketStreams
import UtpGo.SocketWaiting
import UtpGo.ConnCleanClose
