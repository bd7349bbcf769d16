import JobSystem.Lib.Text

/-!
# Health checks

The cache server, the broker and the coordinator's event loop answer a received piece that looks like
an HTTP request, wherever in the stream it stands, and close the connection.

* `httpReply`, `IsHttp`.
-/

namespace JobSystem

open PyText

/-- `b"HTTP/1.1 200 OK…OK"`. -/
def httpReply : Str :=
  ("HTTP/1.1 200 OK\r\nContent-Length: 2\r\nContent-Type: text/plain\r\n" ++
    "Connection: close\r\n\r\nOK").toList

/-- `chunk.startswith(b"GET ") or chunk.startswith(b"HEAD ")`. -/
def IsHttp (chunk : Bytes) : Prop :=
  encodeUtf8 ['G', 'E', 'T', ' '] <+: chunk ∨ encodeUtf8 ['H', 'E', 'A', 'D', ' '] <+: chunk

instance (chunk : Bytes) : Decidable (IsHttp chunk) := inferInstanceAs (Decidable (_ ∨ _))

end JobSystem
