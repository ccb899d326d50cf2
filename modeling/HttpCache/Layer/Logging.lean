import HttpCache.Entry.Replay
import HttpCache.Pipeline

/-!
# HttpCache.Layer.Logging

The layer that reports each request once its answer is known. It changes nothing.
-/

namespace HttpCache
namespace Layer

def defaultAppName : String := "web-service"

def servedEvent (app : String) (r : Request) (response : Response) : Event :=
  .served app r.method r.path ((r.headers.get? "host").getD "") response.status
    (response.headers.contains Entry.markerHeader)

def logging {σ : Type} (app : String) : Layer σ := fun c =>
  pure <| .forward c fun response => do
    .report (servedEvent app c.request response)
    pure response

end Layer
end HttpCache
