import FunctionCatalog.Demo
import FunctionCatalog.Main
import FunctionCatalog.Proofs.Aggregate.MemberOrder
import FunctionCatalog.Proofs.Aggregate.Nesting
import FunctionCatalog.Proofs.Alias.Agreement
import FunctionCatalog.Proofs.Alias.Joining
import FunctionCatalog.Proofs.Alias.Merge
import FunctionCatalog.Proofs.Alias.Order
import FunctionCatalog.Proofs.Alias.Positions
import FunctionCatalog.Proofs.Alias.Refusal
import FunctionCatalog.Proofs.Alias.RoundTrip
import FunctionCatalog.Proofs.Alias.Serialization
import FunctionCatalog.Proofs.Encoding.Aliases
import FunctionCatalog.Proofs.Encoding.Infos
import FunctionCatalog.Proofs.Encoding.Selectors
import FunctionCatalog.Proofs.ItemSet.Comparison
import FunctionCatalog.Proofs.ItemSet.FiniteMap
import FunctionCatalog.Proofs.ItemSet.Invariant
import FunctionCatalog.Proofs.ItemSet.Slices
import FunctionCatalog.Proofs.Name.Scanning
import FunctionCatalog.Proofs.Provider.Advertising
import FunctionCatalog.Proofs.Provider.Composition
import FunctionCatalog.Proofs.Provider.Duplicates
import FunctionCatalog.Proofs.Provider.LetterCase
import FunctionCatalog.Proofs.Provider.Matching
import FunctionCatalog.Proofs.Provider.Materializations
import FunctionCatalog.Proofs.Provider.Merged
import FunctionCatalog.Proofs.Provider.Neutral
import FunctionCatalog.Proofs.Provider.Originals
import FunctionCatalog.Proofs.Provider.Renamed
import FunctionCatalog.Proofs.Selector.Lossless
import FunctionCatalog.Proofs.Selector.PostOrder
import FunctionCatalog.Proofs.Selector.Recognition
