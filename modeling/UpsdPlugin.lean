import UpsdPlugin.Lib.OrderedDict
import UpsdPlugin.Lib.Past
import UpsdPlugin.Lib.Scripted
import UpsdPlugin.Lib.Decimal
import UpsdPlugin.Lib.Binary64
import UpsdPlugin.Lib.RoundingError
import UpsdPlugin.Lib.MarkSweep
import UpsdPlugin.Lib.Loop
import UpsdPlugin.Lib.Heap
import UpsdPlugin.Lib.LinkedList
import UpsdPlugin.Charts
import UpsdPlugin.Protocol
import UpsdPlugin.Status
import UpsdPlugin.StatusArms
import UpsdPlugin.StatusWords
import UpsdPlugin.StatusSentences
import UpsdPlugin.UnknownWords
import UpsdPlugin.Number
import UpsdPlugin.Rounding
import UpsdPlugin.CommandLine
import UpsdPlugin.World
import UpsdPlugin.Plugin
import UpsdPlugin.Main
import UpsdPlugin.Script
import UpsdPlugin.Refine
import UpsdPlugin.Lockstep
import UpsdPlugin.Bodies
import UpsdPlugin.Steps
import UpsdPlugin.Moves
import UpsdPlugin.Blocks
import UpsdPlugin.Output
import UpsdPlugin.Registration
import UpsdPlugin.Conversion
import UpsdPlugin.Declarations
import UpsdPlugin.PowerQueries
import UpsdPlugin.LoadUsage
import UpsdPlugin.Cycles
import UpsdPlugin.Frames
import UpsdPlugin.OneFrame
import UpsdPlugin.Roster
import UpsdPlugin.Lifecycle
import UpsdPlugin.SameReplies
import UpsdPlugin.Alignment
import UpsdPlugin.Renaming
import UpsdPlugin.Provenance
import UpsdPlugin.ChartIds
import UpsdPlugin.SetLines
import UpsdPlugin.Scale
import UpsdPlugin.Splitter
import UpsdPlugin.Fields
import UpsdPlugin.Reading
import UpsdPlugin.Dictionary.Code
import UpsdPlugin.Dictionary.Items
import UpsdPlugin.Dictionary.Index
import UpsdPlugin.Dictionary.Store
import UpsdPlugin.Dictionary.Traversal
import UpsdPlugin.Dictionary.Session
import UpsdPlugin.Dictionary.Refinement
import UpsdPlugin.Dictionary.Lifetime
import UpsdPlugin.Dictionary.Calls
import UpsdPlugin.Dictionary.UpsVars
import UpsdPlugin.Dictionary.Backs
import UpsdPlugin.Dictionary.Stored
import UpsdPlugin.Lib.Framing
import UpsdPlugin.Netdata.Reader
import UpsdPlugin.Netdata.Process
import UpsdPlugin.Netdata.Handover
import UpsdPlugin.Netdata.Lines
import UpsdPlugin.Netdata.Delivery
