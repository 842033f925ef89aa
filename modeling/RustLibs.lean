import RustLibs.Runtime.Buffers
import RustLibs.Metrics.ReadPointer
import RustLibs.Encoding.Utf8Encoder
import RustLibs.Encoding.Utf8Decoder
import RustLibs.Encoding.TextDecoder
import RustLibs.Encoding.ScalarValues
import RustLibs.Encoding.WellFormed
import RustLibs.Encoding.Utf16
import RustLibs.Encoding.Recovery
import RustLibs.Metrics.Bindings
import RustLibs.Metrics.Text
import RustLibs.Metrics.Dispatch
import RustLibs.Metrics.Library
import RustLibs.QuickJs.MemoizeLazy
