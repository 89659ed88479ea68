import Netlist.Code
import Netlist.Diagram

/-!
# Violations of the rules for networks

Compilation stops at the first rule that a drawing breaks. A `Violation` says
which rule that is and names the elements involved; its wording, code, label
and advice are functions of it. A `Fault` is a violation, or a look at a slot
that holds no element.
-/

namespace Netlist

/-- The structural rules of networks and super-networks that a drawing can break. -/
inductive TopologyIssue where
  | noNetwork
  | severalNetworks (count : Nat)
  | noNumberedNodes
  | noLinks
  | noPorts
  | mixedNodes
  | mixedLinks
  | missingMaster (link : Locator)
  | wrongLinkDomain (links nodes : Domain)
  | nodeLabelNotInteger (label : String)
  | numberUsedTwice (number : Int) (first : Locator)
  | unknownNumber (label : String)
  | portLabelNotNumber (label : String)
  | portOutside (number size : Nat) (link : Locator)
  | nodeLabelNotNumber (label : String)
  | noSuperNetwork
  | severalSuperNetworks (count : Nat)
  | fieldNotNumber (key : String) (owner : Locator) (text : String)
  | negativeField (key : String) (owner : Locator) (value : Int)
  | strayInterface (interface : Locator)
  | repeatedIdentity (identity : DuplicateIdentity)
deriving DecidableEq, Repr

/-- The wording of a structural rule. -/
def TopologyIssue.message : TopologyIssue → String
  | .noNetwork => "no network container found"
  | .severalNetworks count => s!"found {count} network containers, expected one"
  | .noNumberedNodes => "network has no numbered nodes"
  | .noLinks => "network has no links"
  | .noPorts => "network has no ports"
  | .mixedNodes => "network mixes Basic and Fluid nodes"
  | .mixedLinks => "network mixes Basic and Fluid links"
  | .missingMaster link => "link " ++ link.render ++ " has no shape-library master"
  | .wrongLinkDomain links nodes => links.name ++ " links cannot connect " ++ nodes.name ++ " nodes"
  | .nodeLabelNotInteger label => "node label `" ++ label ++ "` is not an integer"
  | .numberUsedTwice number first =>
    s!"node number {number} is used twice (also by " ++ first.render ++ ")"
  | .unknownNumber label => "`" ++ label ++ "` does not name a numbered node"
  | .portLabelNotNumber label => "port label `" ++ label ++ "` is not a port number"
  | .portOutside number size link =>
    s!"port {number} is outside the {size} ports of link " ++ link.render
  | .nodeLabelNotNumber label => "node label `" ++ label ++ "` is not a node number"
  | .noSuperNetwork => "no super-network container found"
  | .severalSuperNetworks count => s!"found {count} super-network containers, expected one"
  | .fieldNotNumber key owner text =>
    "`" ++ key ++ "` of " ++ owner.render ++ " is not a number: `" ++ text ++ "`"
  | .negativeField key owner value =>
    "`" ++ key ++ "` of " ++ owner.render ++ s!" is negative: `{value}`"
  | .strayInterface interface =>
    "interface " ++ interface.render ++ " is not inside a sub-network instance"
  | .repeatedIdentity identity => identity.message

/-- How the node counts of two joined interfaces, or of a record and its
instance, fail to agree. -/
inductive CountMismatch where
  | nodes (own : Nat) (other : Locator) (others : Nat)
  | recorded (count : Nat) (placed : Nat) (subnet : String)
deriving DecidableEq, Repr

/-- The wording of a count mismatch. -/
def CountMismatch.message : CountMismatch → String
  | .nodes own other others => s!"has {own} nodes but " ++ other.render ++ s!" has {others}"
  | .recorded count placed subnet =>
    s!"recorded node count {count} differs from the {placed} nodes of instance `" ++ subnet ++ "`"

/-- The keys that one interface of a joined pair exposes. -/
structure ExposedKeys where
  interface : Locator
  keys : List String
deriving DecidableEq, Repr

/-- The interface and its keys in brackets. -/
def ExposedKeys.render (e : ExposedKeys) : String :=
  e.interface.render ++ " has [" ++ String.intercalate ", " e.keys ++ "]"

/-- A rule that a drawing breaks. -/
inductive Violation where
  | cyclicContainment (element : Locator)
  | topology (element : Option Locator) (issue : TopologyIssue)
  | missingRequiredPort (link : Locator) (port : Nat)
  | duplicatePort (link port : Locator) (number : Nat)
  | danglingPort (link port : Locator)
  | nodeCountMismatch (interface : Locator) (detail : CountMismatch)
  | keyMismatch (connector : Locator) (source target : ExposedKeys)
  | ambiguousBinding (interface : Locator) (key : String)
  | nestedSuperNetwork (subnet : Locator) (drawing : String)
  | missingDrawing (subnet : Locator) (drawing : String)
deriving DecidableEq, Repr

namespace Violation

/-- The wording of a violation. -/
def message : Violation → String
  | .cyclicContainment element => "containment of " ++ element.render ++ " loops back on itself"
  | .topology _ issue => issue.message
  | .missingRequiredPort link port =>
    "link " ++ link.render ++ s!" is missing required port {port}"
  | .duplicatePort link _ number => "link " ++ link.render ++ s!" has more than one port {number}"
  | .danglingPort link port =>
    "port " ++ port.render ++ " of link " ++ link.render ++ " does not end at a node"
  | .nodeCountMismatch interface detail =>
    "interface " ++ interface.render ++ ": " ++ detail.message
  | .keyMismatch connector source target =>
    "interfaces joined by " ++ connector.render ++ " expose different keys: " ++ source.render ++
      ", " ++ target.render
  | .ambiguousBinding interface key =>
    "key `" ++ key ++ "` of interface " ++ interface.render ++
      " is bound to more than one non-Ground node"
  | .nestedSuperNetwork subnet drawing =>
    "sub-network drawing `" ++ drawing ++ "` of " ++ subnet.render ++ " is itself a super-network"
  | .missingDrawing subnet drawing =>
    "sub-network drawing `" ++ drawing ++ "` of " ++ subnet.render ++ " was not found"

/-- The code of a violation. -/
def code : Violation → Code
  | .cyclicContainment _ => .cyclicContainment
  | .topology _ _ => .invalidTopology
  | .missingRequiredPort _ _ => .missingRequiredPort
  | .duplicatePort _ _ _ => .duplicatePort
  | .danglingPort _ _ => .danglingPort
  | .nodeCountMismatch _ _ => .nodeCountMismatch
  | .keyMismatch _ _ _ => .keyMismatch
  | .ambiguousBinding _ _ => .ambiguousBinding
  | .nestedSuperNetwork _ _ => .nestedSuperNetwork
  | .missingDrawing _ _ => .missingDrawing

/-- The element a violation points at. -/
def element? : Violation → Option Locator
  | .cyclicContainment element => some element
  | .topology element _ => element
  | .missingRequiredPort link _ => some link
  | .duplicatePort _ port _ => some port
  | .danglingPort _ port => some port
  | .nodeCountMismatch interface _ => some interface
  | .keyMismatch connector _ _ => some connector
  | .ambiguousBinding interface _ => some interface
  | .nestedSuperNetwork subnet _ => some subnet
  | .missingDrawing subnet _ => some subnet

/-- The label put beside the element in a report. -/
def label : Violation → String
  | .cyclicContainment _ => "part of a containment cycle"
  | .topology _ _ => "here"
  | .missingRequiredPort _ _ => "link declared here"
  | .duplicatePort _ _ _ => "second port with this number"
  | .danglingPort _ _ => "port edge"
  | .nodeCountMismatch _ _ => "interface"
  | .keyMismatch _ _ _ => "connector"
  | .ambiguousBinding _ _ => "interface"
  | .nestedSuperNetwork _ _ => "sub-network instance"
  | .missingDrawing _ _ => "sub-network instance"

/-- What to do about a violation. -/
def help? : Violation → Option String
  | .cyclicContainment _ =>
    some "an element cannot be placed inside one of its own descendants"
  | .topology _ _ => none
  | .missingRequiredPort _ _ =>
    some "draw a port edge labelled with the missing number from the link to a node"
  | .duplicatePort _ _ _ => some "each port number may be used once per link inside the network"
  | .danglingPort _ _ =>
    some "connect the other end of the port to a node, reference or ground"
  | .nodeCountMismatch _ _ =>
    some "re-import the sub-networks so their interface records are current"
  | .keyMismatch _ _ _ => some "connected interfaces must expose the same set of keys"
  | .ambiguousBinding _ _ =>
    some "make the copy on the side that owns the link port a Ground node"
  | .nestedSuperNetwork _ _ => some "super-networks can only be assembled from sub-networks"
  | .missingDrawing _ _ => some "check the `drawing` field of the instance"

end Violation

/-- What stops a stage: a broken rule, or a slot without the element it should hold. -/
inductive Fault where
  | violation (violation : Violation)
  | absent (slot : Slot)
deriving DecidableEq, Repr

namespace Fault

/-- A broken structural rule, pointing at an element. -/
def topology (element : Option Locator) (issue : TopologyIssue) : Fault :=
  .violation (.topology element issue)

/-- The wording of a fault. -/
def message : Fault → String
  | .violation v => v.message
  | .absent slot => "element " ++ slot.render ++ " does not exist"

end Fault

/-- The element in a slot that should hold one. -/
def Diagram.fetch (d : Diagram) (i : Slot) : Except Fault Element :=
  match d.get? i with
  | some e => .ok e
  | none => .error (.absent i)

end Netlist
