import ParqDB.Browser.SearchResults
import ParqDB.Browser.SparedSearches
import ParqDB.Browser.StrictJsonTexts
import ParqDB.Cache.Books
import ParqDB.Cache.CanonicalPages
import ParqDB.Cache.MetadataRecency
import ParqDB.Cache.SingleFlight
import ParqDB.Ivf.IndexedColumns
import ParqDB.Ivf.VectorTransform
import ParqDB.Kernels.RoundTrip
import ParqDB.Kernels.RowDistances
import ParqDB.Kmeans.GeneratorStates
import ParqDB.Kmeans.HierarchicalTraining
import ParqDB.Kmeans.Reservoir
import ParqDB.Kmeans.SparseSampling
import ParqDB.Navigation.HeapRuns
import ParqDB.Navigation.Links
import ParqDB.Navigation.ScratchHistory
import ParqDB.Parquet.DirectReads
import ParqDB.Publish.FailedPublish
import ParqDB.Publish.SourceRows
import ParqDB.Query.IndexOnlySearches
import ParqDB.Query.LvqCodeSpans
import ParqDB.Query.SharedTopK
import ParqDB.Server.ObjectSources
import ParqDB.Server.TableListings
import ParqDB.Server.TableReferences
import ParqDB.Session.LeaseKeys
import ParqDB.Session.RefreshAdmission
import ParqDB.Session.RefreshDocuments
import ParqDB.Session.SearchRuns
import ParqDB.Session.StatusRuns
import ParqDB.Storage.Confinement
import ParqDB.Storage.ManagedLocations
import ParqDB.Transport.Chunking
import ParqDB.Transport.LimitedDecoding
