import GoAnalyze.Spec.Handlers

/-! The headers that Starlette builds for a streamed response. -/

namespace GoAnalyze

/-- The `Content-Type` of `Response.init_headers`: text gets the charset of the response,
unless it names one. -/
def contentTypeHeader (P : Platform) (mediaType : String) : String :=
  if "text/".toList <+: mediaType.toList ∧
      !occursIn "charset=".toList (P.lower mediaType.toList) then mediaType ++ "; charset=utf-8"
  else mediaType

/-- The headers of the response: those that the handler gives, and the content type. -/
def StreamingResponse.rawHeaders (P : Platform) (response : StreamingResponse) :
    List (String × String) :=
  [("content-disposition", response.contentDisposition),
    ("content-type", contentTypeHeader P response.mediaType)]

end GoAnalyze
