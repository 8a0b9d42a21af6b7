import MqBridgeApp.Lib.Text
import MqBridgeApp.Lib.Blanking
import MqBridgeApp.Lib.Json
import MqBridgeApp.Lib.JsonText
import MqBridgeApp.Lib.Steps
import MqBridgeApp.Lib.Fallible
import MqBridgeApp.Lib.Channel
import MqBridgeApp.Lib.Serde
import MqBridgeApp.Endpoint.Model
import MqBridgeApp.Endpoint.Tree
import MqBridgeApp.Config.Model
import MqBridgeApp.Config.Encrypted
import MqBridgeApp.Copy.Credentials
import MqBridgeApp.Copy.Redaction
import MqBridgeApp.Copy.UriErrors
import MqBridgeApp.Copy.EndpointUri
import MqBridgeApp.Copy.Rejection
import MqBridgeApp.Copy.LoggedSecrets
import MqBridgeApp.Config.Secrets
import MqBridgeApp.Config.SecretLeaks
import MqBridgeApp.Config.Migrate
import MqBridgeApp.Config.Save
import MqBridgeApp.Ui.App
import MqBridgeApp.Lib.JsonAgree
import MqBridgeApp.Ui.UpdateAtomicity
import MqBridgeApp.Config.ConsumerValue
import MqBridgeApp.Ui.RouteSync
import MqBridgeApp.Ui.Interleaving
import MqBridgeApp.Ui.LiveRoutes
import MqBridgeApp.Ui.Messages
import MqBridgeApp.Copy.Identity
import MqBridgeApp.Copy.IdentityOrder
import MqBridgeApp.Copy.IdentityRotation
import MqBridgeApp.Config.RemovedSecrets
import MqBridgeApp.Config.RemovedPlaces
import MqBridgeApp.Config.Overlay
import MqBridgeApp.Config.EntityIds
import MqBridgeApp.Ui.ConsumerKeys
import MqBridgeApp.Ui.PublisherLookup
import MqBridgeApp.Config.RouteMigration
import MqBridgeApp.Lib.Layout
import MqBridgeApp.Config.RouteOrder
import MqBridgeApp.Ui.Recovery
import MqBridgeApp.Mcp.Incarnations
import MqBridgeApp.Mcp.RouteServer
import MqBridgeApp.Mcp.Reports
import MqBridgeApp.Config.Document
import MqBridgeApp.Config.Load
import MqBridgeApp.Config.Alike
import MqBridgeApp.Config.ReadBack
import MqBridgeApp.Config.Sealing
import MqBridgeApp.Config.RoundTrip
import MqBridgeApp.Config.Placeholders
import MqBridgeApp.Registry.Status
import MqBridgeApp.Registry.Sanitizing
import MqBridgeApp.Registry.Directory
import MqBridgeApp.Registry.Leases
import MqBridgeApp.Registry.LeaseMap
import MqBridgeApp.Registry.ListRace
import MqBridgeApp.Registry.Release
import MqBridgeApp.Metrics.RouteMetrics
import MqBridgeApp.Metrics.Forgetting
import MqBridgeApp.Metrics.Capture
import MqBridgeApp.Desktop.Keyring
import MqBridgeApp.Config.ReferencedKeys
import MqBridgeApp.Lib.JavaScript
import MqBridgeApp.Workspace.DirtyState
import MqBridgeApp.Workspace.SectionSave
import MqBridgeApp.Workspace.WorkspaceSave
import MqBridgeApp.Workspace.Entities
import MqBridgeApp.Workspace.PublisherSession
import MqBridgeApp.Workspace.Drafts
import MqBridgeApp.Workspace.MessageStorage
import MqBridgeApp.Workspace.RouteDoc
import MqBridgeApp.Workspace.Import
import MqBridgeApp.Workspace.ImportReferences
import MqBridgeApp.Ui.Requests
import MqBridgeApp.Lib.Shell
import MqBridgeApp.Config.InlineCommand
import MqBridgeApp.Workspace.StoredJson
import MqBridgeApp.Lib.Insertion
import MqBridgeApp.Copy.SourceMiddlewares
import MqBridgeApp.Copy.Resume
import MqBridgeApp.Copy.IdentityUpgrade
import MqBridgeApp.Copy.IdentitySeparation
import MqBridgeApp.Lib.Lines
import MqBridgeApp.Config.EnvFile
import MqBridgeApp.Copy.Branches
import MqBridgeApp.Copy.QueryParams
import MqBridgeApp.Copy.Agreement
import MqBridgeApp.Copy.SchemeAliases
import MqBridgeApp.Lib.PercentEncoding
import MqBridgeApp.Copy.Expansion
import MqBridgeApp.Config.BareRoutes
import MqBridgeApp.Ui.CollectorKey
import MqBridgeApp.Ui.RuntimeStatus
import MqBridgeApp.Ui.AssetKey
import MqBridgeApp.Metrics.Smoothing
import MqBridgeApp.Workspace.ConsumerMessages
import MqBridgeApp.Workspace.PublisherRequest
import MqBridgeApp.Workspace.HistoryReadBack
import MqBridgeApp.Workspace.PublisherPanel
import MqBridgeApp.Workspace.InFlightHistory
import MqBridgeApp.Workspace.ShownRequest
import MqBridgeApp.Workspace.UneditedSave
import MqBridgeApp.Workspace.RequestUrl
import MqBridgeApp.Ui.HttpGroups
import MqBridgeApp.Lib.FormUrlEncoded
import MqBridgeApp.Copy.UriDepth
import MqBridgeApp.Lib.Properties
import MqBridgeApp.Endpoint.Shape
import MqBridgeApp.Ui.EndpointDefaults
import MqBridgeApp.Ui.KindDefaults
import MqBridgeApp.Ui.EndpointMeaning
import MqBridgeApp.Workspace.PresetMigration
import MqBridgeApp.Workspace.PublisherReferences
import MqBridgeApp.Workspace.CurlCommand
import MqBridgeApp.Lib.Utf16
import MqBridgeApp.Lib.JsonPlaces
import MqBridgeApp.Ui.SaveError
import MqBridgeApp.Ui.DeprecatedFields
import MqBridgeApp.Lib.JsonPointer
import MqBridgeApp.Workspace.AsyncApi
import MqBridgeApp.Copy.CopyReport
import MqBridgeApp.Desktop.ConfigKey
import MqBridgeApp.Mcp.Install
import MqBridgeApp.Ui.StatusPoller
import MqBridgeApp.Ui.Dialogs
import MqBridgeApp.Lib.Grouping
import MqBridgeApp.Ui.SidebarTree
import MqBridgeApp.Mcp.Publishing
import MqBridgeApp.Lib.JsonParts
import MqBridgeApp.Ui.SaveExplained
