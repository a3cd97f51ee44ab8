import EbpfPlayground.CoRe.Provenance
import EbpfPlayground.CoRe.Triggers
import EbpfPlayground.CoRe.Capacity
import EbpfPlayground.CoRe.Isolation
import EbpfPlayground.CoRe.Authorisation
import EbpfPlayground.HostProcessId.NumToHexStr
import EbpfPlayground.HostProcessId.Encap
import EbpfPlayground.Bcc.Watcher
import EbpfPlayground.Bcc.MapKey
import EbpfPlayground.Bcc.SnoopTrace
import EbpfPlayground.Bcc.History
import EbpfPlayground.Foundation.StrategicMerge
import EbpfPlayground.CoRe.PatchScript
import EbpfPlayground.Bcc.Removal
import EbpfPlayground.Bcc.Survival
import EbpfPlayground.CoRe.EventLoop
import EbpfPlayground.CoRe.Relist
import EbpfPlayground.Foundation.Metering
import EbpfPlayground.NetStats.Attach
import EbpfPlayground.NetStats.AttachScript
import EbpfPlayground.NetStats.Hook
import EbpfPlayground.CoRe.Lineage
import EbpfPlayground.CoRe.PodInfo
import EbpfPlayground.Rewrite.Watchers
import EbpfPlayground.CoRe.Cluster
import EbpfPlayground.CoRe.Delivery
import EbpfPlayground.CoRe.Target
import EbpfPlayground.Bcc.Message
import EbpfPlayground.CoRe.HelperText
import EbpfPlayground.CoRe.PatchArguments
import EbpfPlayground.HostProcessId.Identity
import EbpfPlayground.HostProcessId.WireIdentity
import EbpfPlayground.NetStats.Agreement
import EbpfPlayground.NetStats.AttachFailure
import EbpfPlayground.CoRe.PodStream
import EbpfPlayground.Kube.Controller
import EbpfPlayground.Kube.Finalizer
import EbpfPlayground.LibbpfCargo.Section
import EbpfPlayground.LibbpfCargo.Unnamed
import EbpfPlayground.LibbpfCargo.Defaults
import EbpfPlayground.LibbpfCargo.PodExecEvent
