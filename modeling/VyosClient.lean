import VyosClient.PathStore
import VyosClient.ConfigTrees
import VyosClient.Configure
import VyosClient.Mask
import VyosClient.Masking
import VyosClient.PendingChanges
import VyosClient.Rehydration
import VyosClient.Runs
import VyosClient.SessionStore
import VyosClient.CommitCycle
import VyosClient.FormDiff
import VyosClient.ServiceSsh
import VyosClient.FirewallParse
import VyosClient.FirewallRuleForm
import VyosClient.RuleEditing
import VyosClient.SubtreeReplay
import VyosClient.RuleRewrite
import VyosClient.RuleReorder
import VyosClient.ConfigHandlers
import VyosClient.MaskedReorder
import VyosClient.FirewallQueue
import VyosClient.QueueComposition
import VyosClient.SetCommandView
import VyosClient.SetCommandSecrecy
import VyosClient.SessionRaces
import VyosClient.ExpiryNotice
import VyosClient.CartEffect
import VyosClient.PendingEnable
import VyosClient.AccelPpp
import VyosClient.AccelPppForm
import VyosClient.AccelPppEnable
import VyosClient.ConfirmWindow
import VyosClient.WireCommit
import VyosClient.UnsavedCommit
import VyosClient.SessionCookies
import VyosClient.AbsentLeaves
import VyosClient.HaVrrp
import VyosClient.FormDeletions
import VyosClient.Tables
import VyosClient.LoginAccounting
import VyosClient.LoginBackoff
import VyosClient.RollingWindow
import VyosClient.Base64
import VyosClient.SessionRenewal
import VyosClient.ImageReference
import VyosClient.ImageTag
import VyosClient.ImageUpdate
import VyosClient.RegistryClient
import VyosClient.RegistryConfinement
import VyosClient.Borders
import VyosClient.LimiterMemory
import VyosClient.LogMerge
import VyosClient.ReleaseCache
import VyosClient.LogView
import VyosClient.MaskingAgreement
import VyosClient.EnableClick
import VyosClient.MaskTree
import VyosClient.FormTables
import VyosClient.RuleReadback
import VyosClient.RouteMapForm
import VyosClient.RouteMapReadback
import VyosClient.DynamicDns
import VyosClient.OspfArea
import VyosClient.TreeKeys
import VyosClient.OspfInterface
import VyosClient.VrrpAuthentication
import VyosClient.WanLimit
import VyosClient.AccelPppReadback
import VyosClient.LoginRefund
import VyosClient.NewestTag
import VyosClient.ReleaseOrder
import VyosClient.UserVerifier
import VyosClient.FileBrowserPath
import VyosClient.ShowFile
import VyosClient.ListingRoundTrip
import VyosClient.TabulateTable
import VyosClient.ClaimsJson
import VyosClient.UsableSession
import VyosClient.IpText
import VyosClient.SourceKey
import VyosClient.StaticMappings
import VyosClient.MaskedOperations
import VyosClient.ConfigApi
import VyosClient.TreeEditor
import VyosClient.RedirectPolicy
import VyosClient.ServerRoutes
import VyosClient.SettingsPages
import VyosClient.LogHandlers
import VyosClient.LogsPage
import VyosClient.SelfUpgrade
import VyosClient.DhcpPools
import VyosClient.LoginProtocol
