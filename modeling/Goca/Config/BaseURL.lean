import Goca.Go.Url

/-!
# Package config: the base URL

`NormalizeBaseURL`, which `Validate` and `goca setup` put `server.base_url` through.
-/

set_option autoImplicit false

namespace Goca.Config

open Go.Url (Authority URL)

/-- What `NormalizeBaseURL` asks of the parsed URL. -/
def checkBaseURL (trimmed : String) (u : URL) : Except Go.Error Unit :=
  if u.scheme ≠ "http" ∧ u.scheme ≠ "https" then
    if u.scheme = "" ∨ u.opaquePart ≠ "" then
      .error (.new ("is missing a scheme; write it in full, e.g. \"https://" ++ trimmed ++ "\""))
    else .error (.new ("has scheme " ++ Go.quote u.scheme ++ "; only http and https are supported"))
  else if u.host = [] then .error (.new "is missing a host")
  else if u.rawQuery ≠ "" ∨ u.fragment ≠ [] then
    .error (.new "must not carry a query string or fragment")
  else .ok ()

/-- `NormalizeBaseURL` validates server.base_url and returns it without trailing slashes. -/
def normalizeBaseURL [Authority] (s : String) : Except Go.Error String :=
  let trimmed := Go.trimRight (Go.trimSpace s) "/"
  if trimmed = "" then .error (.new "must not be empty")
  else
    match Go.Url.parse trimmed with
    | .error err => .error (.wrap "is not a valid URL: " err "")
    | .ok u => (checkBaseURL trimmed u).map fun _ => trimmed

end Goca.Config
