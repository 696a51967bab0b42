import Yolobox.Lib.Transition
import Yolobox.Lib.Script
import Yolobox.Text
import Yolobox.Unlock.Probe
import Yolobox.Unlock.PowerOff
import Yolobox.Unlock.UnlockRuns
import Yolobox.Luks.Migrate
import Yolobox.Luks.Resumable
import Yolobox.Lib.Utf8
import Yolobox.Libvirt.CidataCache
import Yolobox.Broker.CredentialRuns
import Yolobox.Broker.SocketRuns
import Yolobox.Broker.ReplacingRuns
import Yolobox.Lima.Mirror
import Yolobox.Egress.Policy
import Yolobox.Egress.LanAllow
import Yolobox.Egress.StatusLine
import Yolobox.Egress.HostTable
import Yolobox.Proc.AtomicWrite
import Yolobox.Cp.FetchSafe
import Yolobox.Cp.MergeOverlay
import Yolobox.Cp.ControlDropped
import Yolobox.Cp.DownloadSafe
import Yolobox.Luks.Bash
import Yolobox.Luks.AskRuns
import Yolobox.Unlock.ProbeText
import Yolobox.Broker.Expiration
import Yolobox.Vm.DestroyRuns
import Yolobox.Vm.Filled
import Yolobox.Libvirt.DiskVolumeRuns
import Yolobox.Broker.ConnectionRuns
import Yolobox.Libvirt.PortRuns
import Yolobox.Libvirt.AllocatePort
import Yolobox.Libvirt.Resize
import Yolobox.Libvirt.StopRuns
import Yolobox.Cp.Records
import Yolobox.Cp.Operands
import Yolobox.LandingDir
import Yolobox.Ssh.HostBlocks
import Yolobox.Ssh.KnownHosts
import Yolobox.Agent.Replies
import Yolobox.Broker.CappedReader
import Yolobox.Machine
import Yolobox.Remembered
import Yolobox.Aws.Allowlist
import Yolobox.Gc.DeepRemovals
