import SolarDrive.Http.Request
import SolarDrive.Auth.Jwt

/-!
# The authentication middleware

`isWhitelisted` works on the whole path, by equality with the static pages and
by prefix; `authenticate` verifies the bearer token of every other request.
-/

namespace SolarDrive.Auth

open Lib Http

/-- The pages of the web client. -/
def staticPages : List Bytes :=
  [ascii "/", ascii "/index.html", ascii "/app.js", ascii "/style.css", ascii "/favicon.ico",
    ascii "/login.html", ascii "/auth.js", ascii "/session.js", ascii "/receive.html",
    ascii "/receive.js", ascii "/icons.js", ascii "/metrics.html", ascii "/metrics.js",
    ascii "/share.html", ascii "/share.js"]

/-- The public API prefixes. -/
def apiWhitelist : List Bytes :=
  [ascii "/api/v1/health", ascii "/api/v1/auth/register", ascii "/api/v1/auth/login",
    ascii "/metrics"]

/-- `path.compare(0, prefix.size(), prefix) == 0`. -/
def startsWith (path pre : Bytes) : Bool := path.take pre.length == pre

def isWhitelisted (path : Bytes) : Bool :=
  staticPages.contains path || apiWhitelist.any (startsWith path) ||
    (3 < path.length && startsWith path (ascii "/s/"))

structure AuthResult where
  authenticated : Bool := false
  userId : Bytes := []
  username : Bytes := []
  errorMsg : Bytes := []
deriving DecidableEq, Repr

def authenticate (J : JwtUtil) (now : Int) (req : HttpRequest) : AuthResult :=
  if isWhitelisted req.path then { authenticated := true }
  else
    let authHeader := req.getHeader (ascii "Authorization")
    if authHeader.isEmpty then { errorMsg := ascii "Missing Authorization header" }
    else
      match extractToken authHeader with
      | none =>
          { errorMsg := ascii "Invalid Authorization format, expected: Bearer <token>" }
      | some token =>
          match J.verify now token with
          | none => { errorMsg := ascii "Invalid or expired token" }
          | some claims =>
              { authenticated := true, userId := claims.userId, username := claims.username }

theorem startsWith_iff {path pre : Bytes} : startsWith path pre = true ↔ pre <+: path := by
  rw [startsWith, beq_iff_eq, List.prefix_iff_eq_take, eq_comm]

/-- The ways a path gets on the whitelist. -/
theorem isWhitelisted_cases {path : Bytes} (h : isWhitelisted path = true) :
    path ∈ staticPages ∨ (∃ pre ∈ apiWhitelist, pre <+: path) ∨ ascii "/s/" <+: path := by
  simp only [isWhitelisted, Bool.or_eq_true, Bool.and_eq_true, List.any_eq_true,
    startsWith_iff] at h
  rcases h with (h | h) | h
  · exact .inl (List.elem_iff.mp h)
  · exact .inr (.inl h)
  · exact .inr (.inr h.2)

/-- A request off the whitelist gets through on a verified token, whose claims
it carries on. -/
theorem authenticate_cases {J : JwtUtil} {now : Int} {req : HttpRequest}
    (hw : isWhitelisted req.path = false) (h : (authenticate J now req).authenticated = true) :
    ∃ token claims, extractToken (req.getHeader (ascii "Authorization")) = some token ∧
      J.verify now token = some claims ∧ (authenticate J now req).userId = claims.userId ∧
      (authenticate J now req).username = claims.username := by
  unfold authenticate at h ⊢
  simp only [hw, Bool.false_eq_true, if_false] at h ⊢
  split at h
  · cases h
  · rename_i hempty
    cases ht : extractToken (req.getHeader (ascii "Authorization")) with
    | none => rw [ht] at h; cases h
    | some token =>
        cases hv : J.verify now token with
        | none => rw [ht] at h; simp only [hv] at h; cases h
        | some claims => exact ⟨token, claims, rfl, hv, by simp [hempty, hv], by simp [hempty, hv]⟩

end SolarDrive.Auth
