import PluginBridge.Bridge
import PluginBridge.Call.Css
import PluginBridge.Listing.Flat
import PluginBridge.Listing.Settings
import PluginBridge.Listing.Wire
import PluginBridge.Main
import PluginBridge.Peer.Scripted
import PluginBridge.Proofs.Dispatch.Echo
import PluginBridge.Proofs.Flat.Placement
import PluginBridge.Proofs.Protocol.FunctionIds
import PluginBridge.Proofs.Protocol.Handshake
import PluginBridge.Proofs.Region.Ownership
import PluginBridge.Proofs.Wire.Codec
import PluginBridge.Stream.Link
import PluginBridge.Proofs.Protocol.Silence
import PluginBridge.Proofs.Dispatch.Course
import PluginBridge.Proofs.Dispatch.Delivery
import PluginBridge.Proofs.Dispatch.Lending
import PluginBridge.Proofs.Dispatch.Release
import PluginBridge.Proofs.Dispatch.Guarding
import PluginBridge.Proofs.Dispatch.Preloading
import PluginBridge.Proofs.Protocol.Docket
import PluginBridge.Proofs.Protocol.Mailbox
import PluginBridge.Proofs.Protocol.Interleaving
import PluginBridge.Proofs.Stream.Routing
import PluginBridge.Proofs.Dispatch.Degrading
import PluginBridge.Proofs.Dispatch.Caching
import PluginBridge.Proofs.Dispatch.OwnAnswers
import PluginBridge.Proofs.Protocol.Confinement
import PluginBridge.Proofs.Protocol.Outlasting
import PluginBridge.Proofs.Region.Bytewise
import PluginBridge.Proofs.Call.WireRebuilding
import PluginBridge.Proofs.Peer.Echo
import PluginBridge.Proofs.Dispatch.Channels
import PluginBridge.Proofs.Scope.Shadowing
import PluginBridge.Proofs.Scope.Pipelines
import PluginBridge.Proofs.Flat.Acceptance
import PluginBridge.Proofs.Flat.SelfDescription
import PluginBridge.Proofs.Bytes.Advancing
import PluginBridge.Proofs.Protocol.Clearing
import PluginBridge.Proofs.Stream.BrokenLines
import PluginBridge.Proofs.Call.Batch
import PluginBridge.Proofs.Call.Structural
import PluginBridge.Proofs.Call.Extensions
import PluginBridge.Proofs.Dispatch.Carrying
import PluginBridge.Proofs.Wire.Canonical
import PluginBridge.Proofs.Protocol.Packing
import PluginBridge.Proofs.Flat.Structure
import PluginBridge.Proofs.Stream.Channel
import PluginBridge.Proofs.Scope.Keys
import PluginBridge.Proofs.Protocol.Truncation
import PluginBridge.Proofs.Dispatch.RegionReply
import PluginBridge.Proofs.Dispatch.Asking
import PluginBridge.Proofs.Protocol.Sections
import PluginBridge.Proofs.Flat.WalkOrder
