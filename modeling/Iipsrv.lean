import Iipsrv.Lib.Lru
import Iipsrv.Lib.Linked
import Iipsrv.Lib.Print
import Iipsrv.Lib.Buffer
import Iipsrv.Lib.Loop
import Iipsrv.Lib.Raster
import Iipsrv.Lib.Plane
import Iipsrv.Lib.Fill
import Iipsrv.Lib.InPlace
import Iipsrv.Lib.Mixture
import Iipsrv.Lib.Split
import Iipsrv.Lib.Word
import Iipsrv.Lib.Rounding
import Iipsrv.Lib.Single
import Iipsrv.Lib.Double
import Iipsrv.Lib.Signed
import Iipsrv.Lib.Effects
import Iipsrv.Lib.Triple
import Iipsrv.Lib.Str
import Iipsrv.Lib.Slots
import Iipsrv.Lib.Steps
import Iipsrv.Lib.While
import Iipsrv.Lib.Json
import Iipsrv.Lib.Blocks
import Iipsrv.RawTile
import Iipsrv.Cache.Model
import Iipsrv.Cache.Invariant
import Iipsrv.Cache.Refine
import Iipsrv.JPEGDestination
import Iipsrv.JPEGMarkers
import Iipsrv.PNGDestination
import Iipsrv.TileManager.Model
import Iipsrv.TileManager.Steps
import Iipsrv.TileManager.Cached
import Iipsrv.TileManager.Provenance
import Iipsrv.TileManager.Layers
import Iipsrv.TileManager.Region
import Iipsrv.TileManager.Grid
import Iipsrv.TileManager.Level
import Iipsrv.TileManager.Compositing
import Iipsrv.View.Model
import Iipsrv.View.Level
import Iipsrv.View.Single
import Iipsrv.View.Choice
import Iipsrv.CVT
import Iipsrv.CVT.OutputSize
import Iipsrv.TileManager.Allocation
import Iipsrv.IIIF.Model
import Iipsrv.IIIF.Viewport
import Iipsrv.IIIF.Limit
import Iipsrv.IIIF.Shortcut
import Iipsrv.IIIF.Crop
import Iipsrv.JTL.Model
import Iipsrv.JTL.Raw
import Iipsrv.Image.Model
import Iipsrv.Image.Levels
import Iipsrv.Image.Partition
import Iipsrv.Image.Pyramid
import Iipsrv.Image.Virtual
import Iipsrv.Image.Colours
import Iipsrv.Image.Reload
import Iipsrv.Image.Object
import Iipsrv.FIF.Model
import Iipsrv.FIF.Histories
import Iipsrv.FIF.Freshness
import Iipsrv.Address.Model
import Iipsrv.Address.Subscripts
import Iipsrv.Address.Grid
import Iipsrv.Address.Rectangle
import Iipsrv.Address.DeepZoom
import Iipsrv.JTL.HalfTurn
import Iipsrv.DeepZoomExt.Model
import Iipsrv.DeepZoomExt.RoundTrip
import Iipsrv.Server.Strings
import Iipsrv.Server.Session
import Iipsrv.Server.Manager
import Iipsrv.Server.Output
import Iipsrv.Server.Commands
import Iipsrv.Server.Opening
import Iipsrv.Server.Main
import Iipsrv.Server.Writer
import Iipsrv.Server.NullImage
import Iipsrv.Server.Response
import Iipsrv.Server.Errors
import Iipsrv.Server.HalfSent
import Iipsrv.Server.Transparency
import Iipsrv.Server.Paths
import Iipsrv.Server.Announced
import Iipsrv.Server.Assembly
import Iipsrv.Server.Conditional
import Iipsrv.Server.TwoCopies
import Iipsrv.Server.Zoomify
import Iipsrv.Server.Profile
import Iipsrv.Server.RawPixels
import Iipsrv.Server.Spectra
import Iipsrv.TileManager.Buffers
import Iipsrv.Transform.Model
import Iipsrv.Transform.Headers
import Iipsrv.Transform.Encodable
import Iipsrv.CVT.Strips
import Iipsrv.Transform.Ranges
import Iipsrv.Transform.Canvas
import Iipsrv.Transform.Turns
import Iipsrv.Transform.Samples
import Iipsrv.Image.SampleRange
import Iipsrv.Transform.Nearest
import Iipsrv.Transform.Threshold
import Iipsrv.Transform.Equalize
import Iipsrv.Transform.Flatten
import Iipsrv.Transform.Twist
import Iipsrv.Transform.Bilinear
import Iipsrv.Watermark
import Iipsrv.Utils
import Iipsrv.Server.Tokens
import Iipsrv.Server.Decoding
import Iipsrv.Server.Parameters
import Iipsrv.Server.URIMap
import Iipsrv.Server.ImageCache
import Iipsrv.Server.Invariant
import Iipsrv.Server.Runs
import Iipsrv.Server.Subscripts
import Iipsrv.Server.Zip
