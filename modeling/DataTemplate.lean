import DataTemplate.Command.Desk
import DataTemplate.Main
import DataTemplate.Proofs.SessionLaws
import DataTemplate.Proofs.Placement
import DataTemplate.Proofs.Registry
import DataTemplate.Proofs.Policies
import DataTemplate.Proofs.RoundTrip
import DataTemplate.Proofs.Fidelity
import DataTemplate.Proofs.Tiling
import DataTemplate.Proofs.HostCalls
import DataTemplate.Proofs.GivenUpKeys
import DataTemplate.Proofs.Quoting
import DataTemplate.Proofs.Spellings
import DataTemplate.Proofs.Code
import DataTemplate.Proofs.ReadBack
import DataTemplate.Proofs.ProblemOrder
import DataTemplate.Proofs.SlotRecovery
import DataTemplate.Proofs.MissingComma
import DataTemplate.Proofs.Consistency
import DataTemplate.Proofs.LooseReading
import DataTemplate.Proofs.OnePass
import DataTemplate.Proofs.Layouts
import DataTemplate.Proofs.Loops
import DataTemplate.Proofs.PropertyLoop
import DataTemplate.Proofs.NumberLiterals
import DataTemplate.Proofs.HostOrder
import DataTemplate.Proofs.Observation
import DataTemplate.Proofs.BareReading
import DataTemplate.Proofs.FreshPlaces
import DataTemplate.Proofs.HostFreedom
import DataTemplate.Proofs.TextContent
import DataTemplate.Proofs.Agreement
import DataTemplate.Proofs.LeafOrder
import DataTemplate.Proofs.Courses
import DataTemplate.Proofs.SlotCounts
import DataTemplate.Proofs.ItemLists
import DataTemplate.Proofs.JsonLiterals
import DataTemplate.Proofs.PropertyParts
import DataTemplate.Proofs.TrailingCommas
import DataTemplate.Proofs.LeadSearch
import DataTemplate.Proofs.BracketRuns
import DataTemplate.Proofs.DelimiterSearch
import DataTemplate.Proofs.Escapes
import DataTemplate.Proofs.NumberGrammar
import DataTemplate.Proofs.ExpressionBounds
import DataTemplate.Proofs.CursorWork
import DataTemplate.Proofs.Rollback
import DataTemplate.Proofs.LineColumns
import DataTemplate.Proofs.RadixValues
import DataTemplate.Proofs.OneLine
import DataTemplate.Proofs.IdentifierNames
import DataTemplate.Proofs.FileEffects
