import AuthorityKernel.Capability.Canonical
import AuthorityKernel.Capability.RevocationRestart
import AuthorityKernel.Audit.Tamper
import AuthorityKernel.Audit.Crash
import AuthorityKernel.Policy.Binding
import AuthorityKernel.Policy.Versions
import AuthorityKernel.Policy.Verdict
import AuthorityKernel.Dispatch.Family
import AuthorityKernel.Dispatch.Outbound
import AuthorityKernel.Dispatch.Syscall
import AuthorityKernel.Dispatch.Commitment
import AuthorityKernel.Dispatch.Taint
import AuthorityKernel.Net.Outflow
import AuthorityKernel.Net.Mediation
import AuthorityKernel.State.Anchor
import AuthorityKernel.Dispatch.Metering
import AuthorityKernel.Approval
import AuthorityKernel.Proxy.Strings
import AuthorityKernel.Wasm.HostFiles
import AuthorityKernel.Wasm.HostTcp
import AuthorityKernel.Wasm.HostSecrets
import AuthorityKernel.Wasm.Numbers
import AuthorityKernel.Memory.UserSpace
import AuthorityKernel.Memory.Ceiling
import AuthorityKernel.Memory.Handlers
import AuthorityKernel.Memory.Bitmaps
import AuthorityKernel.Sanitize.Path
import AuthorityKernel.Sanitize.Escape
import AuthorityKernel.Fs.Cycles
import AuthorityKernel.Fs.Linear
