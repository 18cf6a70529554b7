import TvMazeScraper.Lib.Machine
import TvMazeScraper.Dotnet
import TvMazeScraper.Lib.Batching
import TvMazeScraper.Lib.KeyedStore
import TvMazeScraper.Lib.Paging
import TvMazeScraper.Models
import TvMazeScraper.Database
import TvMazeScraper.ElasticTvMaze.LoadData
import TvMazeScraper.ElasticTvMaze.FindMissingUrls
import TvMazeScraper.Consumer
import TvMazeScraper.Cycles
import TvMazeScraper.Drain
import TvMazeScraper.Sync
import TvMazeScraper.Blocking
import TvMazeScraper.Retention
import TvMazeScraper.CastIndex
import TvMazeScraper.Unprocessed
import TvMazeScraper.BackgroundJob
import TvMazeScraper.Interleaving
import TvMazeScraper.HandOff
import TvMazeScraper.Duplicates
import TvMazeScraper.Reenqueue
import TvMazeScraper.Accounting
import TvMazeScraper.ElasticTvMaze.Search
import TvMazeScraper.FetchOutcomes
import TvMazeScraper.Serving
import TvMazeScraper.IndexReads
import TvMazeScraper.Pages
import TvMazeScraper.ElasticTvMaze.DeserializeToDictionary
import TvMazeScraper.LockedCycles
import TvMazeScraper.SerialCycles
import TvMazeScraper.SaveChanges
import TvMazeScraper.BulkFate
import TvMazeScraper.Provenance
import TvMazeScraper.Nightly
import TvMazeScraper.EndToEnd
import TvMazeScraper.Conservation
import TvMazeScraper.Crashes
import TvMazeScraper.Scheduling
import TvMazeScraper.Application
import TvMazeScraper.Ticks
import TvMazeScraper.ElasticTvMaze.RecursionDepth
import TvMazeScraper.Throughput
