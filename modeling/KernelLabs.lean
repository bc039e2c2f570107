import KernelLabs.IrqDriverClients
import KernelLabs.IrqDriverOwnership
import KernelLabs.DeferredProcesses
import KernelLabs.DeferredStatements
import KernelLabs.DeferredInterleavings
import KernelLabs.DeferredModes
import KernelLabs.DeferredCancel
import KernelLabs.DeferredRequests
import KernelLabs.CharDeviceFailure
import KernelLabs.NameListUnload
import KernelLabs.NameListAdds
import KernelLabs.NameListPreview
import KernelLabs.NameListReports
import KernelLabs.PidList
import KernelLabs.LinkedList
import KernelLabs.CharDeviceRoundTrip
import KernelLabs.CharDeviceLoading
import KernelLabs.KthreadUnload
import KernelLabs.Timer
import KernelLabs.IrqDriverLoading
import KernelLabs.NameListLoading
import KernelLabs.NameListDecoding
import KernelLabs.MymmapMapping
import KernelLabs.MymmapDisclosure
import KernelLabs.MymmapPublication
import KernelLabs.MymmapLoading
import KernelLabs.MymmapOffset
import KernelLabs.MymmapRead
import KernelLabs.PrimeKmod
import KernelLabs.IrqDriverHistory
import KernelLabs.CharDeviceBuffer
import KernelLabs.CharDeviceArray
import KernelLabs.DeferredDeadline
import KernelLabs.DeferredMonitorRequests
import KernelLabs.DeferredLoading
import KernelLabs.DeferredReferences
import KernelLabs.ThreadSamplesUnload
import KernelLabs.SharedPages
import KernelLabs.MymmapSharing
import KernelLabs.UserPrograms
import KernelLabs.CharDeviceTests
import KernelLabs.IrqDriverHandlers
import KernelLabs.IrqDriverStatements
import KernelLabs.IrqDriverUnlocked
import KernelLabs.NameListReaders
import KernelLabs.DeferredUnloadEnds
import KernelLabs.KthreadUnloadEnds
import KernelLabs.DeferredCycles
