import Fhttp.Hpack.SizeChange
import Fhttp.Http2.HeaderWork
import Fhttp.Http2.RequestBlock
import Fhttp.Http2.CookieCrumbs
import Fhttp.Http2.ClientSettings
import Fhttp.Http2.StreamTable
import Fhttp.Http2.ConnPool
import Fhttp.Http2.ResponseTrailers
import Fhttp.Http2.PipeRuns
import Fhttp.Http2.DataBuffer
import Fhttp.Http2.PriorityAdjust
import Fhttp.Http2.PriorityBytes
import Fhttp.Http2.PriorityDelivery
import Fhttp.Http2.ServerLaws
import Fhttp.Http.ServeMux
import Fhttp.Http.TransferFraming
import Fhttp.Http.BodyReader
import Fhttp.Http.Redirect
