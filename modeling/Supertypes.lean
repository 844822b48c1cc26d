import Supertypes.CommandLine.LogSettings
import Supertypes.Main
import Supertypes.Proofs.AnyOrigins
import Supertypes.Proofs.Bookkeeping
import Supertypes.Proofs.Commuting
import Supertypes.Proofs.DeclarationOrder
import Supertypes.Proofs.Environments
import Supertypes.Proofs.GuardRuns
import Supertypes.Proofs.HashConsing
import Supertypes.Proofs.Histories
import Supertypes.Proofs.LastSlots
import Supertypes.Proofs.LocalEdits
import Supertypes.Proofs.ParameterNames
import Supertypes.Proofs.ParseErrors
import Supertypes.Proofs.PathLists
import Supertypes.Proofs.RaisedLimit
import Supertypes.Proofs.RecursionMarks
import Supertypes.Proofs.ReservedWords
import Supertypes.Proofs.RoundTrip
import Supertypes.Proofs.ShapeEdges
import Supertypes.Proofs.Shapes
import Supertypes.Proofs.SymbolTables
import Supertypes.Proofs.TupleBases
import Supertypes.Proofs.TwoHops
import Supertypes.Proofs.TwoSubstitutions
import Supertypes.Proofs.TypeTrees
import Supertypes.Proofs.UnionNormalForm
import Supertypes.Proofs.Walks
import Supertypes.Symbols
