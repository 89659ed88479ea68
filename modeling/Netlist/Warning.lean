import Netlist.Element

/-!
# Warnings

What a user should know about a drawing that compiles all the same.
-/

namespace Netlist

/-- A warning, with what it is about. -/
inductive Warning where
  | missingMaster (element : Locator)
  | emptySubnet (subnet : Locator)
  | interfaceGone (label : String)
  | superPortsOrphaned (count : Nat)
  | looseConnector (connector : Locator)
  | noCatalog
  | orphansDiscarded (count : Nat)
deriving DecidableEq, Repr

namespace Warning

/-- The wording of a warning. -/
def message : Warning → String
  | .missingMaster _ => "No master record, skipping reconciliation"
  | .emptySubnet _ => "Instance has no embedded content and no drawing"
  | .interfaceGone _ => "Interface disappeared from the sub-network, connector left unbound"
  | .superPortsOrphaned _ => "Discarded orphaned super-ports"
  | .looseConnector _ => "Connector does not join two interfaces, skipping"
  | .noCatalog => "No shape library configured, every link and spotter will lack a master"
  | .orphansDiscarded _ => "Orphaned super-ports were discarded"

/-- The details of a warning by name. -/
def details : Warning → List (String × String)
  | .missingMaster element => [("element", element.render)]
  | .emptySubnet subnet => [("instance", subnet.render)]
  | .interfaceGone label => [("interface", label)]
  | .superPortsOrphaned count => [("count", toString count)]
  | .looseConnector connector => [("connector", connector.render)]
  | .noCatalog => []
  | .orphansDiscarded count => [("count", toString count)]

end Warning

end Netlist
