import IndexedSearch.Search.Basic
import IndexedSearch.Proofs.Request.Meaning
import IndexedSearch.Proofs.Request.Placeholders
import IndexedSearch.Proofs.Request.ReadBack
import IndexedSearch.Proofs.Request.Text
import IndexedSearch.Proofs.Search.Resuming
import IndexedSearch.Proofs.Search.Sending
import IndexedSearch.Proofs.Search.Found
import IndexedSearch.Proofs.Store.Chain
import IndexedSearch.Proofs.Store.Ending
import IndexedSearch.Proofs.Filter.Levels
import IndexedSearch.Proofs.Filter.Serialized
import IndexedSearch.Proofs.Filter.Paths
import IndexedSearch.Proofs.Wire.Documents
import IndexedSearch.Proofs.Request.Joining
import IndexedSearch.Proofs.Request.Rearranged
import IndexedSearch.Proofs.Request.Growing
import IndexedSearch.Proofs.Request.Independence
import IndexedSearch.Proofs.Request.Refusing
import IndexedSearch.Proofs.Filter.Passing
import IndexedSearch.Proofs.Store.Comparing
import IndexedSearch.Proofs.Store.Failing
import IndexedSearch.Proofs.Request.Writing
import IndexedSearch.Proofs.Request.Written
import IndexedSearch.Proofs.NameMap
import IndexedSearch.Proofs.Catalog.Keys
import IndexedSearch.Proofs.Output.Required
import IndexedSearch.Proofs.Search.Partial
import IndexedSearch.Proofs.Catalog.Building
import IndexedSearch.Proofs.Catalog.Serialized
import IndexedSearch.Proofs.Output.Tolerance
import IndexedSearch.Proofs.Store.Serialized
import IndexedSearch.Proofs.Index.Separate
import IndexedSearch.Proofs.Request.Once
import IndexedSearch.Proofs.Request.Projecting
import IndexedSearch.Proofs.Search.Settings
import IndexedSearch.Proofs.Filter.Related
import IndexedSearch.Proofs.Index.Atoms
import IndexedSearch.Proofs.Request.Respelling
import IndexedSearch.Proofs.Number.Integers
import IndexedSearch.Proofs.Wire.Integers
