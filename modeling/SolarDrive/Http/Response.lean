import SolarDrive.Lib.Json

/-!
# Responses

The response object a handler fills and its text on the wire. `headers_` is an
`unordered_map`: a list of pairs with distinct keys whose order carries no
meaning, so `serialize` takes the order in which the map happens to be walked.
-/

namespace SolarDrive.Http

open Lib

structure HttpResponse where
  statusCode : Int := 200
  statusText : Bytes := ascii "OK"
  headers : List (Bytes × Bytes) := []
  body : Bytes := []
  closeConnection : Bool := true
deriving DecidableEq, Repr

namespace HttpResponse

variable (r : HttpResponse)

def setStatus (code : Int) (text : Bytes) : HttpResponse :=
  { r with statusCode := code, statusText := text }

def setHeader (key val : Bytes) : HttpResponse := { r with headers := setKey key val r.headers }

def setBody (body : Bytes) : HttpResponse :=
  { r with body, headers := setKey (ascii "Content-Length") (decimal body.length) r.headers }

def setJson (json : Bytes) : HttpResponse :=
  (r.setBody json).setHeader (ascii "Content-Type") (ascii "application/json; charset=utf-8")

def setBinary (data mime : Bytes) : HttpResponse :=
  { r with
    body := data
    headers := setKey (ascii "Content-Length") (decimal data.length)
      (setKey (ascii "Content-Type") mime r.headers) }

/-- `{"error": msg}`. -/
def errorDocument (msg : Bytes) : Json := .obj [(ascii "error", .str msg)]

/-- The error is the text of the exception `dump` throws. -/
def setError (json : JsonLib) (code : Int) (msg : Bytes) : Except Bytes HttpResponse :=
  match json.dump (errorDocument msg) with
  | .error w => .error w
  | .ok t => .ok ((r.setStatus code msg).setJson t)

/-- The value `set_download_headers` and the share download give to
`Content-Disposition`. -/
def attachment (filename : Bytes) : Bytes :=
  ascii "attachment; filename=\"" ++ filename ++ ascii "\""

def setDownloadHeaders (filename : Bytes) (dataSize : Nat) : HttpResponse :=
  { r with
    headers := setKey (ascii "Content-Length") (decimal dataSize)
      (setKey (ascii "Content-Disposition") (attachment filename) r.headers) }

def setCloseConnection (close : Bool) : HttpResponse := { r with closeConnection := close }

/-- The fields `serialize` adds in front of the stored ones. -/
def generatedFields : List (Bytes × Bytes) :=
  (if (r.headers.lookup (ascii "Connection")).isNone then
    [(ascii "Connection", if r.closeConnection then ascii "close" else ascii "keep-alive")]
  else []) ++
  (if r.closeConnection = false ∧ (r.headers.lookup (ascii "Keep-Alive")).isNone then
    [(ascii "Keep-Alive", ascii "timeout=60, max=1000")]
  else [])

/-- The text on the wire when the header map is walked in the order `hs`. -/
def serialize (hs : List (Bytes × Bytes)) : Bytes :=
  ascii "HTTP/1.1 " ++ decimalInt r.statusCode ++ ascii " " ++ r.statusText ++ ascii "\r\n" ++
    (r.generatedFields ++ hs).flatMap (fun f => f.1 ++ ascii ": " ++ f.2 ++ ascii "\r\n") ++
    ascii "\r\n" ++ r.body

end HttpResponse

theorem errorDocument_flat (msg : Bytes) : (HttpResponse.errorDocument msg).isFlat = true := rfl

theorem texts_errorDocument (msg : Bytes) :
    (HttpResponse.errorDocument msg).texts = [ascii "error", msg] := rfl

/-- **`set_error` throws exactly on a message that is not UTF-8.** -/
theorem setError_ok_iff {json : JsonLib} (hjson : json.Lawful) (r : HttpResponse) (code : Int)
    (msg : Bytes) : (∃ r', r.setError json code msg = .ok r') ↔ validUtf8 msg = true := by
  have htexts : (∀ s ∈ (HttpResponse.errorDocument msg).texts, validUtf8 s = true) ↔
      validUtf8 msg = true := by
    have herr : validUtf8 (ascii "error") = true := by decide
    simp [texts_errorDocument, herr]
  by_cases hu : validUtf8 msg = true
  · obtain ⟨t, hd, -, -⟩ := hjson.dump_flat _ (errorDocument_flat msg) (htexts.mpr hu)
    simp [HttpResponse.setError, hd, hu]
  · obtain ⟨w, hd⟩ := hjson.dump_bad _ (errorDocument_flat msg) fun h => hu (htexts.mp h)
    simp [HttpResponse.setError, hd, hu]

/-- What it throws is readable. -/
theorem setError_what {json : JsonLib} (hjson : json.Lawful) {r : HttpResponse} {code : Int}
    {msg w : Bytes} (h : r.setError json code msg = .error w) : validUtf8 w = true := by
  unfold HttpResponse.setError at h
  cases hd : json.dump (HttpResponse.errorDocument msg) with
  | ok t => rw [hd] at h; cases h
  | error w' =>
      rw [hd] at h
      cases h
      exact hjson.dump_what _ _ hd

end SolarDrive.Http
