import OpenPosix.Semaphores.PhilosopherResults
import OpenPosix.Semaphores.BoundedBufferResults
import OpenPosix.Semaphores.ReaderWriterResults
import OpenPosix.Semaphores.SleepingBarberResults
import OpenPosix.Verdicts.ExecuteScript
import OpenPosix.Signals.Results
import OpenPosix.Verdicts.AioRequests
import OpenPosix.Verdicts.SignalOrder
import OpenPosix.MessageQueues.SendReceiveResults
import OpenPosix.MessageQueues.TimedSendResults
import OpenPosix.Semaphores.ProcessLock
import OpenPosix.CondVars.WakeupResults
import OpenPosix.CondVars.DestroyResults
import OpenPosix.Mutexes.ElectionResults
import OpenPosix.CondVars.CancelResults
import OpenPosix.Mutexes.PhasesResults
import OpenPosix.CondVars.ClockTestResults
import OpenPosix.Mutexes.StressResults
import OpenPosix.Threads.MeasurePower
import OpenPosix.CondVars.ReleaseResults
import OpenPosix.Threads.CreateLatency
import OpenPosix.Threads.SelfResults
import OpenPosix.Signals.HandlerResults
import OpenPosix.Mutexes.ScaleResults
import OpenPosix.CondVars.PingPongResults
import OpenPosix.CondVars.SharedParity
import OpenPosix.Signals.ShutdownResults
import OpenPosix.SharedMemory.CreateResults
import OpenPosix.Verdicts.SleepInputs
import OpenPosix.Threads.ForkExits
import OpenPosix.Threads.PiTestArrays
import OpenPosix.Verdicts.ExecuteDuration
import OpenPosix.CondVars.ClockExits
import OpenPosix.CondVars.KillAllResults
import OpenPosix.Semaphores.OpenCloseResults
import OpenPosix.Mutexes.PhasesEnd
import OpenPosix.Threads.MeasureList
import OpenPosix.CondVars.ReleaseTimes
import OpenPosix.Mutexes.InitTests
import OpenPosix.Mutexes.StressControl
