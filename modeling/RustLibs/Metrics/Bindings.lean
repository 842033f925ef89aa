import RustLibs.Metrics.ReadPointer
import RustLibs.Encoding.WellFormed

/-!
# The metrics bindings

`bindings.ts` as deno_bindgen generated it: the text codec, the symbols that
`Deno.dlopen` opens with their parameter and result types, and one wrapper
per symbol. A wrapper encodes its text arguments and passes each buffer with
its byte length; a `"buffer"` result is read with `readPointer` and decoded.
The native library and `JSON.parse` are the bindings' collaborators and stay
parameters.
-/

namespace RustLibs.Metrics

open Buffers Encoding

/-! ### The codec -/

/-- An argument of `encode`, `string | Uint8Array`. -/
inductive StringOrBytes where
  | string (v : String)
  | bytes (v : List Byte)

def encode : StringOrBytes → List Byte
  | .bytes v => v
  | .string v => TextEncoder.encode v

def decode (v : List Byte) : String := (TextDecoder.mk false).decode v

@[simp] theorem encode_bytes (v : List Byte) : encode (.bytes v) = v := rfl

theorem decode_encode_string (v : String) :
    decode (encode (.string v)) = if v.data.head? = some '\uFEFF' then ⟨v.data.tail⟩ else v := by
  have h := TextDecoder.decode_encode ⟨false⟩ v.data
  simp only [true_and] at h
  simp only [decode, encode, h]
  split <;> rfl

theorem encode_string_injective : Function.Injective (fun v => encode (.string v)) := by
  intro ⟨v⟩ ⟨w⟩ h
  calc (⟨v⟩ : String)
      = (TextDecoder.mk true).decode (encode (.string ⟨v⟩)) := by
        simpa using (TextDecoder.decode_encode ⟨true⟩ v).symm
    _ = (TextDecoder.mk true).decode (encode (.string ⟨w⟩)) := congrArg _ h
    _ = ⟨w⟩ := by simpa using TextDecoder.decode_encode ⟨true⟩ w

theorem decode_encode_text :
    Function.Injective (fun v => encode (.string v)) ∧
    ∀ v : String, decode (encode (.string v)) =
      if v.data.head? = some '\uFEFF' then ⟨v.data.tail⟩ else v :=
  ⟨encode_string_injective, decode_encode_string⟩

theorem decode_encode_leading_bom : decode (encode (.string "\uFEFF")) ≠ "\uFEFF" := by
  decide

/-- When `decode` puts no U+FFFD in its result, encoding that result gives
the bytes back, less a leading byte order mark: decoding lost nothing else. -/
theorem encode_decode (v : List Byte) (h : '\uFFFD' ∉ (decode v).data) :
    encode (.string (decode v)) = if v.take 3 = [0xEF, 0xBB, 0xBF] then v.drop 3 else v := by
  simpa using TextDecoder.encode_decode_of_no_replacement ⟨false⟩ v h

theorem encode_decode_bom :
    '\uFFFD' ∉ (decode [0xEF, 0xBB, 0xBF, 0x68, 0x69]).data ∧
      encode (.string (decode [0xEF, 0xBB, 0xBF, 0x68, 0x69])) = [0x68, 0x69] :=
  ⟨by decide, by rw [encode_decode [0xEF, 0xBB, 0xBF, 0x68, 0x69] (by decide)]; decide⟩

/-! ### The symbols and their arguments -/

/-- The native types of the symbols' parameters and results. -/
inductive NativeType where
  | buffer | usize | u32 | u8 | u64 | i64 | f32
  deriving DecidableEq, Repr

/-- A symbol's entry in the `Deno.dlopen` call. -/
structure ForeignFunction where
  parameters : List NativeType
  result : NativeType
  nonblocking : Bool
  deriving DecidableEq, Repr

def symbols : List (String × ForeignFunction) :=
  [("get_cert", ⟨[.buffer, .usize, .u32, .u8], .buffer, true⟩),
   ("get_cpu_stime", ⟨[.u32], .u64, false⟩),
   ("get_cpu_usage", ⟨[.u32], .f32, false⟩),
   ("get_cpu_utime", ⟨[.u32], .u64, false⟩),
   ("get_max_children", ⟨[], .i64, false⟩),
   ("get_memory", ⟨[.u32], .u64, false⟩),
   ("get_process_info", ⟨[.u32], .buffer, false⟩),
   ("get_process_time", ⟨[.u32], .buffer, false⟩),
   ("get_run_time", ⟨[.u32], .u64, false⟩),
   ("get_start_time", ⟨[.u32], .u64, false⟩),
   ("get_virtual_memory", ⟨[.u32], .u64, false⟩),
   ("verify_signature", ⟨[.buffer, .usize, .buffer, .usize, .buffer, .usize], .buffer, true⟩)]

/-- An argument as a wrapper passes it. -/
inductive NativeValue where
  | buffer (bytes : List Byte)
  | usize (n : Nat)
  | u32 (n : UInt32)
  | u8 (n : UInt8)
  deriving DecidableEq, Repr

def NativeValue.type : NativeValue → NativeType
  | .buffer _ => .buffer
  | .usize _ => .usize
  | .u32 _ => .u32
  | .u8 _ => .u8

/-- What a call of a symbol hands back: a pointer for a `"buffer"` result, a
number for the others, and for a nonblocking symbol a promise, with the
payload its native function computes and the address it frames it at
(`Metrics.Dispatch` follows the promise). -/
inductive NativeResult (Number : Type) where
  | pointer (view : UnsafePointerView)
  | number (value : Number)
  | promise (payload : List Byte) (address : Nat)

/-- The native library, symbol by symbol: the numbers it returns, the memory
a returned pointer points into, and what a nonblocking symbol computes and
where it writes it. -/
structure Library (Number : Type) where
  number : String × List NativeValue → Number
  buffer : String × List NativeValue → UnsafePointerView
  deferred : String × List NativeValue → List Byte × Nat

/-- `library.symbols[name](...arguments)`: Deno looks the symbol up, checks
the arguments against its declared parameters (`none` is the `TypeError` of a
mismatch or of a missing symbol) and converts the native result by the
declared result type and mode. -/
def Library.call {Number : Type} (lib : Library Number) (name : String)
    (arguments : List NativeValue) : Option (NativeResult Number) :=
  match symbols.lookup name with
  | some fn =>
    if arguments.map NativeValue.type = fn.parameters then
      some (if fn.nonblocking then .promise (lib.deferred (name, arguments)).1 (lib.deferred (name, arguments)).2
        else if fn.result = .buffer then .pointer (lib.buffer (name, arguments))
        else .number (lib.number (name, arguments)))
    else none
  | none => none

/-! ### The wrappers -/

/-- A call of one of the module's exported functions, with its arguments. -/
inductive Export where
  | getCert (a0 : String) (a1 : UInt32) (a2 : UInt8)
  | getCpuStime (a0 : UInt32)
  | getCpuUsage (a0 : UInt32)
  | getCpuUtime (a0 : UInt32)
  | getMaxChildren
  | getMemory (a0 : UInt32)
  | getProcessInfo (a0 : UInt32)
  | getProcessTime (a0 : UInt32)
  | getRunTime (a0 : UInt32)
  | getStartTime (a0 : UInt32)
  | getVirtualMemory (a0 : UInt32)
  | verifySignature (a0 : String) (a1 a2 : List Byte)

/-- The symbol an exported function calls, and the arguments it passes. -/
def Export.nativeCall : Export → String × List NativeValue
  | .getCert a0 a1 a2 =>
    let a0_buf := encode (.string a0)
    ("get_cert", [.buffer a0_buf, .usize a0_buf.length, .u32 a1, .u8 a2])
  | .getCpuStime a0 => ("get_cpu_stime", [.u32 a0])
  | .getCpuUsage a0 => ("get_cpu_usage", [.u32 a0])
  | .getCpuUtime a0 => ("get_cpu_utime", [.u32 a0])
  | .getMaxChildren => ("get_max_children", [])
  | .getMemory a0 => ("get_memory", [.u32 a0])
  | .getProcessInfo a0 => ("get_process_info", [.u32 a0])
  | .getProcessTime a0 => ("get_process_time", [.u32 a0])
  | .getRunTime a0 => ("get_run_time", [.u32 a0])
  | .getStartTime a0 => ("get_start_time", [.u32 a0])
  | .getVirtualMemory a0 => ("get_virtual_memory", [.u32 a0])
  | .verifySignature a0 a1 a2 =>
    let a0_buf := encode (.string a0)
    let a1_buf := encode (.bytes a1)
    let a2_buf := encode (.bytes a2)
    ("verify_signature", [.buffer a0_buf, .usize a0_buf.length, .buffer a1_buf,
      .usize a1_buf.length, .buffer a2_buf, .usize a2_buf.length])

section Wrappers

variable {Number Json : Type} (lib : Library Number) (parse : String → Option Json)

/-- `const rawResult = symbols.name(...)`, the call every wrapper makes. -/
def Library.callExport (e : Export) : Option (NativeResult Number) :=
  lib.call e.nativeCall.1 e.nativeCall.2

/-! The numeric wrappers return `rawResult` as it is. -/

def getCpuStime (a0 : UInt32) : Option (NativeResult Number) := lib.callExport (.getCpuStime a0)
def getCpuUsage (a0 : UInt32) : Option (NativeResult Number) := lib.callExport (.getCpuUsage a0)
def getCpuUtime (a0 : UInt32) : Option (NativeResult Number) := lib.callExport (.getCpuUtime a0)
def getMaxChildren : Option (NativeResult Number) := lib.callExport .getMaxChildren
def getMemory (a0 : UInt32) : Option (NativeResult Number) := lib.callExport (.getMemory a0)
def getRunTime (a0 : UInt32) : Option (NativeResult Number) := lib.callExport (.getRunTime a0)
def getStartTime (a0 : UInt32) : Option (NativeResult Number) := lib.callExport (.getStartTime a0)
def getVirtualMemory (a0 : UInt32) : Option (NativeResult Number) :=
  lib.callExport (.getVirtualMemory a0)

/-- `JSON.parse(decode(readPointer(rawResult)))`; `none` is a throw: a result
that is no pointer, a faulting read, or a `SyntaxError`. -/
def parseResult (result : Option (NativeResult Number)) : Option Json :=
  match result with
  | some (.pointer view) => (readPointer view).bind fun r => parse (decode r)
  | _ => none

def getProcessInfo (a0 : UInt32) : Option Json := parseResult parse (lib.callExport (.getProcessInfo a0))

def getProcessTime (a0 : UInt32) : Option Json := parseResult parse (lib.callExport (.getProcessTime a0))

/-- The reactions the deferred wrappers chain after `rawResult.then(readPointer)`. -/
def getCertThen (r : List Byte) : Option Json := parse (decode r)

def verifySignatureThen (r : List Byte) : Option String := some (decode r)

/-- `view` starts with the framed UTF-8 encoding of `text`, a text with no
leading U+FEFF whose encoding has fewer than `2 ^ 32` bytes. -/
def FramesText (view : UnsafePointerView) (text : String) : Prop :=
  (encode (.string text)).length < 2 ^ 32 ∧ text.data.head? ≠ some '\uFEFF' ∧
    ∃ rest, view = ⟨toUint32BE (encode (.string text)).length ++ encode (.string text) ++ rest⟩

theorem parseResult_pointer {view : UnsafePointerView} {text : String} (h : FramesText view text) :
    parseResult parse (some (.pointer view) : Option (NativeResult Number)) = parse text := by
  obtain ⟨hLength, hBOM, rest, rfl⟩ := h
  simp only [parseResult]
  rw [readPointer_toUint32BE _ _ hLength]
  simp [decode_encode_string, hBOM]

/-- Each of `get_process_info` and `get_process_time` hands `JSON.parse`
exactly the text its native function framed. -/
theorem getProcess_of_framed (a0 : UInt32) (info time : String) :
    (FramesText (lib.buffer (Export.getProcessInfo a0).nativeCall) info →
      getProcessInfo lib parse a0 = parse info) ∧
    (FramesText (lib.buffer (Export.getProcessTime a0).nativeCall) time →
      getProcessTime lib parse a0 = parse time) :=
  ⟨fun h => parseResult_pointer parse h, fun h => parseResult_pointer parse h⟩

end Wrappers

def processLibrary : Library Nat :=
  ⟨fun _ => 0, fun call => if call.1 = "get_process_info" then ⟨toUint32BE 2 ++ [0x7B, 0x7D]⟩
    else ⟨toUint32BE 2 ++ [0x5B, 0x5D]⟩, fun _ => ([], 0)⟩

theorem getProcess_of_framed_documents :
    (FramesText (processLibrary.buffer (Export.getProcessInfo 7).nativeCall) "{}" ∧
      FramesText (processLibrary.buffer (Export.getProcessTime 7).nativeCall) "[]") ∧
    getProcessInfo processLibrary some 7 = some "{}" ∧ getProcessTime processLibrary some 7 = some "[]" := by
  have hInfo : FramesText (processLibrary.buffer (Export.getProcessInfo 7).nativeCall) "{}" :=
    ⟨by decide, by decide, [], rfl⟩
  have hTime : FramesText (processLibrary.buffer (Export.getProcessTime 7).nativeCall) "[]" :=
    ⟨by decide, by decide, [], rfl⟩
  exact ⟨⟨hInfo, hTime⟩, (getProcess_of_framed processLibrary some 7 "{}" "[]").1 hInfo,
    (getProcess_of_framed processLibrary some 7 "{}" "[]").2 hTime⟩

end RustLibs.Metrics
