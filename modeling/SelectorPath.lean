import SelectorPath.Json.Reader
import SelectorPath.Main
import SelectorPath.Proofs.Query.Meaning
import SelectorPath.Proofs.Query.Negation
import SelectorPath.Proofs.SelectorList
import SelectorPath.Proofs.Query.Composition
import SelectorPath.Proofs.Block
import SelectorPath.Proofs.Selector.Combination
import SelectorPath.Proofs.Query.Limit
import SelectorPath.Proofs.Console
import SelectorPath.Proofs.Live
import SelectorPath.Proofs.Command.Report
import SelectorPath.Proofs.Formula
import SelectorPath.Proofs.Query.Position
import SelectorPath.Proofs.Query.Attribute
import SelectorPath.Proofs.Query.Order
import SelectorPath.Proofs.Block.Grammar
import SelectorPath.Proofs.Token.Cut
import SelectorPath.Proofs.Selector.Fault
import SelectorPath.Proofs.Selector.Oddity
import SelectorPath.Proofs.Selector.Universal
import SelectorPath.Proofs.XPath.Quotation
