import Netlist.Data.Layout
import Netlist.Library.Catalog

/-!
# Masters in data files

A shape library is a list of records, one for each master. Only the family and
the subtype must be given.
-/

namespace Netlist

open Netlist.Data (Layout Reader)

/-- The members of a master record. -/
def Master.layout : Layout Master where
  name := "struct MasterRecord"
  members := [
    .required "type" (.variant [("Link", .link), ("Spotter", .spotter)])
      fun m kind => { m with kind := kind },
    .required "subtype" .text fun m subtype => { m with subtype := subtype },
    .optional "class" (.optional .text) fun m name => { m with className := name },
    .optional "variant" (.optional .text) fun m variant => { m with variant := variant },
    .optional "domain" (.optional (.variant [("basic", .basic), ("fluid", .fluid)]))
      fun m domain => { m with domain := domain },
    .optional "ports" .count fun m ports => { m with ports := ports },
    .optional "required-ports" (.list .count) fun m ports => { m with required := ports },
    .optional "variable-ports" .boolean fun m isVariable => { m with isVariable := isVariable },
    .optional "plug-ports" (.list .count) fun m ports => { m with plugs := ports },
    .optional "fields" .texts fun m pairs => { m with fields := Fields.ofList pairs }]

/-- Reads a master. -/
def Master.read : Reader Master := Master.layout.read { kind := .link, subtype := "" }

/-- Why a value is no catalog. -/
inductive CatalogFault where
  | mismatch (mismatch : Data.Mismatch)
  | duplicate (master : DuplicateMaster)

/-- The wording of a catalog fault in a file of some format. -/
def CatalogFault.message (format : Data.Format) : CatalogFault → String
  | .mismatch m => m.message format
  | .duplicate master => master.message

namespace Catalog

/-- The catalog of masters that were read. -/
def ofMasters (masters : List Master) : Except CatalogFault Catalog :=
  (ofList masters).mapError .duplicate

/-- Reads a catalog from a list of masters. -/
def readList (format : Data.Format) (v : Data.Value) : Except CatalogFault Catalog :=
  ((Reader.list Master.read format v).mapError .mismatch).bind ofMasters

/-- The members of a library file. -/
def layout : Layout (List Master) where
  name := "struct CatalogFile"
  members := [.optional "master" (.list Master.read) fun _ masters => masters]

/-- Reads a catalog from the contents of a library file. -/
def read (format : Data.Format) (v : Data.Value) : Except CatalogFault Catalog :=
  ((layout.read [] format v).mapError .mismatch).bind ofMasters

end Catalog

end Netlist
