import DeLatency.Converter.Value

/-!
# Producers

Three programs send events to the collector, each in its own framing.  The coroutine
patches send a small payload inside the metadata frame and a large one in a frame of its
own, the worker patches always send an empty second frame, and the tracer sends one frame.

What is sent is modelled for a process whose gate is open and whose socket has room.
-/

namespace DeLatency

/-- `make_metadata`. -/
def makeMetadata (source : String) (eventType : PyStr) (extra : List (PyStr × PyValue)) :
    List (PyStr × PyValue) :=
  ("source", .str source) :: ("event_type", .str eventType) :: ("schema_version", .int 1) ::
    if extra = [] then [] else [("extra", .dict extra)]

/-- `meta['payload'] = payload`. -/
def withPayload (metadata payload : List (PyStr × PyValue)) : List (PyStr × PyValue) :=
  metadata ++ [(("payload" : PyStr), .dict payload)]

/-- The metadata of `TraceSender.emit`. -/
def traceSenderMetadata (source : String) (eventType : PyStr) (timestampNs : ℤ)
    (payload : List (PyStr × PyValue)) : List (PyStr × PyValue) :=
  [("source", .str source), ("event_type", .str eventType), ("timestamp_ns", .int timestampNs),
    ("payload", .dict payload)]

variable (lib : JsonLib)

/-- Whether `send_event` sends a payload inside the metadata. -/
def fitsMetadata (payload : List (PyStr × PyValue)) : Bool :=
  (lib.dumps .dumps (.dict payload)).length < 1500

/-- `send_event` on a dictionary; `none` is an event that is dropped. -/
def sendEvent (source : String) (eventType : PyStr) (payload extra : List (PyStr × PyValue)) :
    Option (List ByteArray) :=
  let metadata := makeMetadata source eventType extra
  if fitsMetadata lib payload then
    some [encodeUtf8 (lib.dumps .sendJson (.dict (withPayload metadata payload)))]
  else if (PyValue.dict payload).loneSurrogate then
    -- the payload of the second frame cannot be encoded, and the patch drops what raises
    none
  else
    some [encodeUtf8 (lib.dumps .dumpsCompact (.dict metadata)),
      encodeUtf8 (lib.dumps .dumpsUnicode (.dict payload))]

/-- `TraceSender.emit`. -/
def traceSenderEmit (eventType : PyStr) (payload : List (PyStr × PyValue)) (source : String)
    (timestampNs : ℤ) : List ByteArray :=
  [encodeUtf8 (lib.dumps .dumps (.dict (traceSenderMetadata source eventType timestampNs payload))),
    encodeUtf8 []]

/-- The message of `send_record_payload`. -/
def sendTracerRecord (eventType : PyStr) (payload : List (PyStr × PyValue)) : List ByteArray :=
  [encodeUtf8 (lib.dumps .jsonC (.dict (withPayload (makeMetadata "CUPTI" eventType []) payload)))]

end DeLatency
