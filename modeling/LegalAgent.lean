import LegalAgent.Library.Generator
import LegalAgent.Properties.Status
import LegalAgent.Properties.TurnShape
import LegalAgent.Properties.VersionNotice
import LegalAgent.Properties.TerminalEvents
import LegalAgent.Properties.ToolCells
import LegalAgent.Properties.Heartbeats
import LegalAgent.Store.Deletion
import LegalAgent.Store.Settings
import LegalAgent.Api.BodyLimit
import LegalAgent.Text.Authority
import LegalAgent.Client.Delivery
import LegalAgent.Client.Wire
import LegalAgent.Law.Currency
import LegalAgent.Law.Delegation
import LegalAgent.Law.Points
import LegalAgent.Law.Select
import LegalAgent.Properties.CancelledTurns
import LegalAgent.Properties.Citations
import LegalAgent.Properties.Forgery
import LegalAgent.Properties.Surgery
import LegalAgent.Properties.Interrupts
import LegalAgent.Properties.Polling
import LegalAgent.Properties.ThreadDeletion
import LegalAgent.Properties.Bricks
import LegalAgent.Properties.Reconnection
import LegalAgent.Properties.LiveStream
import LegalAgent.Properties.Approvals
import LegalAgent.Properties.LiveTranscript
import LegalAgent.Properties.EventNumbers
import LegalAgent.Properties.Orphans
import LegalAgent.Properties.AnnouncedRows
import LegalAgent.Properties.AppendOnly
import LegalAgent.Properties.LogRetention
import LegalAgent.Properties.OrphanCheckpoints
import LegalAgent.Properties.LastingCitations
import LegalAgent.Law.Overlap
import LegalAgent.Law.InForce
import LegalAgent.Law.Versions
import LegalAgent.Law.JoinKeys
import LegalAgent.Law.Windows
import LegalAgent.Law.Identity
import LegalAgent.Law.Expansion
import LegalAgent.Law.Embedding
import LegalAgent.Agent.Config
import LegalAgent.Agent.Calculator
