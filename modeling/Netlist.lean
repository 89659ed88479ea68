import Netlist.Element
import Netlist.Diagram
import Netlist.Code
import Netlist.Diagram.Containment
import Netlist.FieldKey
import Netlist.Library.Catalog
import Netlist.Connections
import Netlist.Xml.Malformed
import Netlist.Xml.Name
import Netlist.Xml.Tree
import Netlist.Xml.Reader
import Netlist.Document
import Netlist.Failure
import Netlist.Network
import Netlist.Topology
import Netlist.Topology.Buckets
import Netlist.Topology.Domains
import Netlist.Topology.Extraction
import Netlist.PortMap
import Netlist.Reconciliation
import Netlist.Compilation
import Netlist.Data.Layout
import Netlist.Library.Record
import Netlist.Settings
import Netlist.Network.Value
import Netlist.Assembly.Duplicates
import Netlist.Drawing
import Netlist.Identity
import Netlist.Assembly.Import
import Netlist.Assembly
import Netlist.Build
import Netlist.Toml.Quote
import Netlist.Toml.Reader
import Netlist.Toml.Writer
import Netlist.CommandLine
import Netlist.CommandLine.LogLevel
import Netlist.Files.Folder
import Netlist.CommandLine.Report
import Netlist.Main
import Netlist.Toml.Tree
import Netlist.Proofs.Compilation.PortMaps
import Netlist.Proofs.PortMap.Duplicates
import Netlist.Proofs.Assembly.SuperPorts
import Netlist.Proofs.Assembly.Findings
import Netlist.Proofs.Assembly.Names
import Netlist.Proofs.Assembly.Linking
import Netlist.Proofs.Assembly.Rebinding
import Netlist.Proofs.Assembly.Leftovers
import Netlist.Proofs.Compilation.Again
import Netlist.Proofs.Assembly.Carrying
import Netlist.Proofs.Assembly.Reproducing
import Netlist.Proofs.Assembly.Marks
import Netlist.Proofs.Assembly.Copyable
import Netlist.Proofs.Assembly.Frame
import Netlist.Proofs.PortMap.Sockets
import Netlist.Proofs.Diagram.Enclosure
import Netlist.Proofs.Topology.WellFormed
import Netlist.Proofs.Diagram.Labels
import Netlist.Proofs.Topology.Ranking
import Netlist.Proofs.Assembly.Matching
import Netlist.Proofs.Assembly.Rerun
import Netlist.Proofs.Compilation.Switching
import Netlist.Proofs.Assembly.Sparing
import Netlist.Proofs.Assembly.Halting
import Netlist.Diagram.Arena
import Netlist.Proofs.Diagram.Arena
import Netlist.Proofs.Document.Order
import Netlist.Rounds
import Netlist.Proofs.Strict.Rounds
import Netlist.Proofs.Strict.Containment
import Netlist.Proofs.Compilation.Joints
import Netlist.Proofs.Compilation.Connections
import Netlist.Proofs.Build.Places
import Netlist.Proofs.Compilation.Confined
import Netlist.Proofs.Assembly.Direction
import Netlist.Proofs.Assembly.Namesakes
import Netlist.Proofs.Assembly.Nested
import Netlist.Proofs.Reconciliation.Matching
import Netlist.Proofs.Library.Families
import Netlist.Proofs.Assembly.Counting
import Netlist.Proofs.Assembly.Standins
import Netlist.Proofs.Strict.Subtrees
import Netlist.Proofs.Topology.Partition
import Netlist.Proofs.PortMap.Targets
import Netlist.Library.Registry
import Netlist.Proofs.Library.Registry
import Netlist.Proofs.FieldKey
import Netlist.Proofs.Document.Positions
