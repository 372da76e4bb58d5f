import JmapBridge.Property.OneRoom
import JmapBridge.Property.OneMessage
import JmapBridge.Property.Cursor
import JmapBridge.Property.Resending
import JmapBridge.Property.UndoWindow
import JmapBridge.Property.EnqueuedOnce
import JmapBridge.Property.Acknowledged
import JmapBridge.Property.PositionalWalk
import JmapBridge.Property.InitialSync
import JmapBridge.Property.History
import JmapBridge.Property.LockRelease
import JmapBridge.Property.MailboxSync
import JmapBridge.Property.Walker
import JmapBridge.Property.ThreadRooms
import JmapBridge.Property.LatestEmail
import JmapBridge.Property.ReadEcho
import JmapBridge.Property.Debounce
import JmapBridge.Property.PushGaps
import JmapBridge.Property.OneLoop
import JmapBridge.Property.SessionFinal
import JmapBridge.Property.PuppetToken
import JmapBridge.Property.PublicDial
import JmapBridge.Property.OwnMail
import JmapBridge.Property.Twins
import JmapBridge.Property.EditAuthor
import JmapBridge.Property.OwnRows
import JmapBridge.Property.EditedText
import JmapBridge.Property.ReplyThread
import JmapBridge.Property.MarkUnread
import JmapBridge.Property.UserMessages
import JmapBridge.Property.ReadGate
import JmapBridge.Property.WindowAnchor
import JmapBridge.Property.HeldMarker
import JmapBridge.Property.Scanners
import JmapBridge.Property.BreakNormal
import JmapBridge.Property.PruneDepth
import JmapBridge.Property.ReplyQuotes
import JmapBridge.Property.TagAttr
import JmapBridge.Property.SubjectNormal
import JmapBridge.Property.PlainNormal
import JmapBridge.Property.QuoteRound
import JmapBridge.Property.ImageTags
import JmapBridge.Property.QuotedParent
import JmapBridge.Property.SizeClamp
import JmapBridge.Property.PublicAddr
import JmapBridge.Property.GhostNames
import JmapBridge.Property.BatchAnswer
import JmapBridge.Model.Download
import JmapBridge.Property.DownloadUrl
import JmapBridge.Property.VisibleText
import JmapBridge.Property.CleanText
import JmapBridge.Effect.Buffered
import JmapBridge.Model.Credentials
import JmapBridge.Model.Permissions
import JmapBridge.Property.AtRest
import JmapBridge.Property.PermissionSpecs
import JmapBridge.Property.Startup
import JmapBridge.Property.ThreadTriple
import JmapBridge.Property.TableText
import JmapBridge.Property.RequestLists
import JmapBridge.Property.ReplyFlow
import JmapBridge.Property.ChatBodies
import JmapBridge.Property.ThreadMoves
import JmapBridge.Property.ThreadAtomic
import JmapBridge.Property.ThreadPartition
import JmapBridge.Property.RetrySchedule
import JmapBridge.Property.LoginDialog
import JmapBridge.Property.Deeds
import JmapBridge.Property.Mandates
import JmapBridge.Property.Correspondents
import JmapBridge.Property.ShownMail
import JmapBridge.Property.TokenOwner
