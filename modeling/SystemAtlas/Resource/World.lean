import SystemAtlas.Resource.Files

/-! # The world of a run

What a run can reach besides its arguments: the files, and for each URL what a request would bring.
-/

namespace SystemAtlas.Resource

/-- What a request for a URL brings. -/
inductive Response where
  /-- No answer came, for the given reason. -/
  | refused (reason : Text)
  /-- The request broke off in another way than by a refusal, as for a host with an empty label. -/
  | failed (reason : Text)
  | answered (status : Int) (body : Text)
  deriving DecidableEq, Inhabited

/-- The files and the network as one run finds them. -/
structure World where
  files : Files := {}
  request : Text → Response := fun _ => .refused "no route"

end SystemAtlas.Resource
