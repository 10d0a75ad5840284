import CopcConverter.Chunking.ChunkFiles
import CopcConverter.Chunking.CountPoints
import CopcConverter.Foundations.PageBytes
import CopcConverter.Octree.CoincidentPoints
import CopcConverter.Octree.Depths
import CopcConverter.Octree.FitScale
import CopcConverter.Octree.GridResolution
import CopcConverter.Octree.Int32NodeMap
import CopcConverter.Octree.Interference
import CopcConverter.Octree.KeyRefinement
import CopcConverter.Octree.MortonOrder
import CopcConverter.Octree.NodeSizes
import CopcConverter.Pipeline.Conversion
import CopcConverter.Storage.NodeStore
import CopcConverter.Tools.HttpSource
import CopcConverter.Validate.EpsgCode
import CopcConverter.Validate.SchemaDiff
import CopcConverter.Validate.StatsUnion
import CopcConverter.Writer.Chunks
import CopcConverter.Writer.Evlrs
import CopcConverter.Writer.HeaderBounds
import CopcConverter.Writer.HierarchyPages
import CopcConverter.Writer.PointRecords
import CopcConverter.Writer.TimeQuery
import CopcConverter.Writer.TimeRanges
import CopcConverter.Writer.Vlrs
