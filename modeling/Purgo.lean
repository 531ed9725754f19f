import Purgo.Lib.Exec
import Purgo.Lib.Lexing
import Purgo.Lib.Bytes
import Purgo.Lib.Text
import Purgo.Lib.Simulation
import Purgo.Lib.Threaded
import Purgo.Lib.Memory
import Purgo.Lib.Json
import Purgo.Lib.Files
import Purgo.Domain
import Purgo.ReportJson
import Purgo.Png
import Purgo.PngContainer
import Purgo.PngRerun
import Purgo.Jpeg
import Purgo.JpegScan
import Purgo.JpegMarkers
import Purgo.JpegProgress
import Purgo.JpegRerun
import Purgo.Pdf
import Purgo.PdfGraph
import Purgo.PdfSanitize
import Purgo.PdfFilter
import Purgo.PdfDepth
import Purgo.PdfActions
import Purgo.PdfEmbedded
import Purgo.Ooxml
import Purgo.OoxmlRels
import Purgo.OoxmlRebuild
import Purgo.OoxmlTargets
import Purgo.Wire
import Purgo.WireCodec
import Purgo.WireSound
import Purgo.PngWire
import Purgo.Guest
import Purgo.GuestBuffers
import Purgo.Sandbox
import Purgo.SandboxHost
import Purgo.SandboxPng
import Purgo.GuestRuns
import Purgo.Service
import Purgo.Verdict
import Purgo.OoxmlForest
import Purgo.Adapters
import Purgo.Cli
import Purgo.CliWrites
import Purgo.CliFailures
import Purgo.Contract
import Purgo.PdfRebuild
import Purgo.OoxmlRerun
import Purgo.JpegFill
import Purgo.Rerun
import Purgo.Accounting
import Purgo.Http
import Purgo.Invocations
import Purgo.Frontends
import Purgo.Arguments
import Purgo.Resubmit
import Purgo.SandboxService
import Purgo.PdfAlike
import Purgo.Concealment
