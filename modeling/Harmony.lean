import Harmony.EventStream
import Harmony.RouteSearch
import Harmony.HttpRouter
import Harmony.LexicalPath
import Harmony.StaticFiles
import Harmony.RouteParams
import Harmony.HttpRequest
import Harmony.RequestData
import Harmony.DbPipeline
import Harmony.HttpSession
import Harmony.DbDelivery
import Harmony.DbWatcher
import Harmony.DataStream
import Harmony.ResponseBody
import Harmony.EventDeferral
import Harmony.SessionWrite
import Harmony.StreamSerials
import Harmony.DbPrepared
import Harmony.StaticCache
import Harmony.EventEncoding
import Harmony.Json
import Harmony.JsonSpelling
import Harmony.QuotedString
import Harmony.JsonWriter
import Harmony.ToJson
import Harmony.Base64
import Harmony.RequestHeaders
import Harmony.Cookie
import Harmony.EventDispatcher
import Harmony.FileRead
import Harmony.FileReuse
import Harmony.RequestCookie
import Harmony.FileLifetime
import Harmony.RequestParams
import Harmony.RequestPath
import Harmony.Revalidation
import Harmony.BufferQueue
import Harmony.DbResult
import Harmony.ResponseHeaders
import Harmony.FieldLookup
import Harmony.FieldRefs
import Harmony.FileRemoval
import Harmony.ReadTimer
import Harmony.DbArrival
import Harmony.DealtConnections
import Harmony.SessionLoop
import Harmony.DbConnection
import Harmony.EventSource
import Harmony.FieldMemory
import Harmony.MimeTypes
import Harmony.StreamTimeout
import Harmony.StaticSite
import Harmony.NotifyMemory
