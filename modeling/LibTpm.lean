import LibTpm.BusDiscipline
import LibTpm.TransportErrors
import LibTpm.LocalityPages
import LibTpm.SpiAccess
import LibTpm.PcrBanks
import LibTpm.ResponseSizes
import LibTpm.AcceptedSizes
import LibTpm.AccessBounds
import LibTpm.BurstFlow
import LibTpm.StatusTruth
import LibTpm.TimeoutBounds
import LibTpm.FifoProtocol
import LibTpm.IterReads
import LibTpm.CommandCalls
import LibTpm.CapQueries
import LibTpm.CapFormat
import LibTpm.CapLimits
import LibTpm.CallOutputs
import LibTpm.DeclaredBytes
import LibTpm.CapVisits
import LibTpm.AlgLookup
import LibTpm.ReceiveRuns
import LibTpm.ReceiveBounds
import LibTpm.ReceiveBursts
import LibTpm.DeviceExchanges
import LibTpm.MeasuredBoot
import LibTpm.WireRefinement
import LibTpm.LocalityExclusion
import LibTpm.AllocationLedger
import LibTpm.HostOrder
import LibTpm.CallBounds
import LibTpm.ClockBounds
import LibTpm.TransportBounds
