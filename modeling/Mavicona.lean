import Mavicona.Common.Bytes
import Mavicona.Common.ByteFile
import Mavicona.Common.Stdio
import Mavicona.Common.Extent
import Mavicona.Common.OrderedMap
import Mavicona.Common.ChainedHash
import Mavicona.Common.LinkedList
import Mavicona.Common.CircularMap
import Mavicona.Common.Crc
import Mavicona.Common.Run
import Mavicona.Common.Stutter
import Mavicona.Common.Scanner
import Mavicona.Common.Wire
import Mavicona.Common.NamedTree
import Mavicona.Common.Numeral
import Mavicona.Common.Path
import Mavicona.Common.Disk
import Mavicona.Cynder.Filepage
import Mavicona.Cynder.PageLayout
import Mavicona.Cynder.PageInvariant
import Mavicona.Cynder.PageRuns
import Mavicona.Cynder.PageAliases
import Mavicona.Cynder.PageCalls
import Mavicona.Cynder.PageExtents
import Mavicona.Cynder.PageLimits
import Mavicona.Cynder.PageNumbers
import Mavicona.Cynder.PageReopen
import Mavicona.Cynder.Filebase
import Mavicona.Cynder.FilebasePages
import Mavicona.Cynder.FilebaseRestart
import Mavicona.Cynder.Message
import Mavicona.Cynder.Master
import Mavicona.Cynder.Cluster
import Mavicona.Cynder.MasterLoop
import Mavicona.Cynder.Engine
import Mavicona.Cynder.Worker
import Mavicona.Cynder.Codec
import Mavicona.Cynder.WorkerFacts
import Mavicona.Cynder.WorkerStore
import Mavicona.Cynder.WorkerView
import Mavicona.Cynder.WorkerRefinement
import Mavicona.Cynder.RefusedWrites
import Mavicona.Cynder.QuidSpelling
import Mavicona.Cynder.SearchIndex
import Mavicona.Cynder.SearchLoop
import Mavicona.Cynder.SearchResults
import Mavicona.Chella.Wal
import Mavicona.Chella.Recovery
import Mavicona.Chella.Execute
import Mavicona.Chella.LocalEnv
import Mavicona.Chella.Sha1
import Mavicona.Chella.WriteAhead
import Mavicona.Chella.Restarts
import Mavicona.Chella.JobHome
import Mavicona.Chella.Exclusion
import Mavicona.Chella.Message
import Mavicona.Chella.Master
import Mavicona.Chella.JobIds
import Mavicona.Chella.Subjobs
import Mavicona.Chella.JobTree
import Mavicona.Pitch.Task
import Mavicona.Pitch.Queue
import Mavicona.Pitch.QueueRecovery
import Mavicona.Pitch.Provision
import Mavicona.Quid.Text
import Mavicona.Quid.Create
import Mavicona.Cynder.HashRing
import Mavicona.Cynder.RingPoints
import Mavicona.Quid.Grammar
import Mavicona.Quid.Parse
import Mavicona.Scrape.Dispatch
import Mavicona.Scrape.Ini
import Mavicona.Scrape.IniCalls
import Mavicona.Scrape.Commit
import Mavicona.Extract.Actions
import Mavicona.Extract.Ruler
import Mavicona.Extract.MimeTypes
import Mavicona.Extract.Detect
import Mavicona.Common.Blocks
import Mavicona.Common.Sha1
import Mavicona.Common.Lines
import Mavicona.Extract.Url
import Mavicona.Extract.PlainText
import Mavicona.Extract.PngHandler
import Mavicona.Extract.Extractor
import Mavicona.Common.Multimap
import Mavicona.Extract.ConfigFile
import Mavicona.Extract.Grammar
import Mavicona.Extract.RuleFile
import Mavicona.Par.HashTables
import Mavicona.Par.Header
import Mavicona.Par.Lists
import Mavicona.Par.LongNames
import Mavicona.Par.Names
import Mavicona.Par.Reader
import Mavicona.Par.Pointers
import Mavicona.Par.Extract
import Mavicona.Par.Containment
import Mavicona.Par.Sizes
import Mavicona.Par.Tree
import Mavicona.Par.Writer
import Mavicona.Par.Encoding
import Mavicona.Par.Archive
import Mavicona.Par.RoundTrip
import Mavicona.Packer.Package
import Mavicona.Packer.Listing
import Mavicona.Packer.Entries
import Mavicona.Packer.Unpack
import Mavicona.Packer.Verify
import Mavicona.Packer.Sha1
import Mavicona.Orchestrate.Uri
import Mavicona.Mumux.Slots
import Mavicona.Common.Socket
import Mavicona.Mumux.Request
import Mavicona.Mumux.Query
import Mavicona.Mumux.HeaderSection
import Mavicona.Mumux.Connection
import Mavicona.Mumux.Frames
import Mavicona.Mumux.Output
import Mavicona.Mumux.Push
import Mavicona.Mumux.Respond
import Mavicona.Mumux.Input
import Mavicona.Mumux.Chunked
import Mavicona.Mumux.Update
import Mavicona.Mumux.Calls
import Mavicona.Mumux.Blind
import Mavicona.Mumux.Twins
import Mavicona.Mumux.Rounds
import Mavicona.Mumux.Brief
import Mavicona.Mumux.Payload
import Mavicona.Mumux.Hangup
import Mavicona.Mumux.Upgrade
import Mavicona.Common.Base64
import Mavicona.Mumux.Sha
import Mavicona.Mumux.Sessions
import Mavicona.Mumux.Segments
import Mavicona.Mumux.Accept
import Mavicona.Redis.Pool
import Mavicona.Pipeline
import Mavicona.Storage
