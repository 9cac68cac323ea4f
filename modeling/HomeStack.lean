import HomeStack.Blocks
import HomeStack.Lifecycle
import HomeStack.Lib.Sha256
import HomeStack.OrphanScan
import HomeStack.EnsureKeys
import HomeStack.Admission
import HomeStack.Vendor
import HomeStack.VendorRuns
import HomeStack.Tasks
import HomeStack.WorkspaceDestroy
import HomeStack.DestroyReview
import HomeStack.DestroyRuns
import HomeStack.LeaseCalls
import HomeStack.Lib.Pool
import HomeStack.LeaseRuns
import HomeStack.LeaseExclusion
import HomeStack.ConfigStore
import HomeStack.SetupBuild
import HomeStack.Capabilities
import HomeStack.InstallSteps
import HomeStack.InstallGrants
import HomeStack.AgentRuntimePins
import HomeStack.HostKeys
import HomeStack.AddKey
import HomeStack.RefreshPending
import HomeStack.AddKeyRuns
import HomeStack.InstallAcl
import HomeStack.TreeDigest
import HomeStack.TreeStream
import HomeStack.ServiceInstance
import HomeStack.SetupTurns
import HomeStack.SetupRollback
import HomeStack.SetupReports
import HomeStack.ShellConverge
import HomeStack.SetupNames
import HomeStack.DocumentMerge
import HomeStack.UsageBlocks
import HomeStack.UsageActivity
import HomeStack.ServiceInputs
import HomeStack.ManifestSound
import HomeStack.DeploySound
import HomeStack.GuestResponse
import HomeStack.AgentCollect
import HomeStack.KeyStorage
import HomeStack.Snippets
import HomeStack.AgentExport
import HomeStack.Accounts
import HomeStack.AccountsViews
import HomeStack.AccountsInvariant
import HomeStack.AccountsRuns
import HomeStack.AccountsSafety
import HomeStack.AccountsEdit
import HomeStack.Lib.Session
import HomeStack.TemplateImage
import HomeStack.PrivateFile
import HomeStack.TlsStore
import HomeStack.PutTls
import HomeStack.Lib.Search
import HomeStack.Exchange
import HomeStack.Lib.Tally
import HomeStack.Backfill
import HomeStack.Lib.Embed
import HomeStack.Migrate
import HomeStack.Address
import HomeStack.Lib.F64
import HomeStack.ServiceSpace
import HomeStack.Lib.ByteSplit
import HomeStack.UsageWindows
import HomeStack.AddressHosts
import HomeStack.HomeSize
import HomeStack.Lib.Decimal
import HomeStack.Versions
import HomeStack.TaskLogs
import HomeStack.Lib.Runs
import HomeStack.GuestLayout
import HomeStack.WalkChain
import HomeStack.GuestDisk
import HomeStack.QueryCache
import HomeStack.Removal
import HomeStack.ServiceEnvironment
import HomeStack.ServiceLifecycle
import HomeStack.ServiceLifecycleRuns
