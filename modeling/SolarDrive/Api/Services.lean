import SolarDrive.Lib.CivilTime
import SolarDrive.Http.Response
import SolarDrive.Auth.Jwt
import SolarDrive.Api.Calls

/-!
# Configuration and shared steps of the handlers

`Services` is what the handlers are constructed with: the libraries that are
outside code (JSON, SHA-256, HMAC) and the configured limits. A handler returns
the response it fills in; `setError` and `setJson` are the two ways most of
them end.
-/

namespace SolarDrive.Api

open Lib Http Auth

structure Services where
  jwt : JwtUtil
  /-- SHA-256. -/
  digest : Bytes → Bytes
  /-- Chunk size of the object store. -/
  storeChunkSize : Nat
  storeChunkSize_pos : 0 < storeChunkSize
  /-- Part size of multipart uploads. -/
  chunkSize : Nat
  chunkSize_pos : 0 < chunkSize
  /-- Sessions keep it as `int64_t`. -/
  chunkSize_lt : chunkSize < 2 ^ 63
  maxFileSizeBytes : Int
  jwtTtlHours : Int
  hasRedis : Bool
  /-- The text of the metrics page. -/
  metrics : Bytes
  /-- Offset of local time in seconds. -/
  gmtOffset : Int

namespace Services

variable (svc : Services)

def json : JsonLib := svc.jwt.json

def sha256 (data : Bytes) : Bytes := hexBytes (svc.digest data)

/-- `resp.set_error(code, msg)` on the handler's response. -/
def setError (code : Int) (msg : Bytes) : App HttpResponse :=
  ofJson (HttpResponse.setError {} svc.json code msg)

/-- `resp.set_json(j.dump())`. -/
def setJson (j : Json) : App HttpResponse := do
  let text ← ofJson (svc.json.dump j)
  return HttpResponse.setJson {} text

/-- The `catch` clauses of a handler that reads JSON: 400 for the JSON
library's exceptions, 500 for the rest. -/
def catchJson (what : Bytes) (e : Exn) : App HttpResponse :=
  if e.kind = .json then svc.setError 400 (ascii "invalid JSON: " ++ e.what)
  else svc.setError 500 (what ++ e.what)

/-- The `catch` clause of the other handlers. -/
def catchStd (what : Bytes) (e : Exn) : App HttpResponse := svc.setError 500 (what ++ e.what)

/-- `reject_oversized`. -/
def oversized (size : Int) : Bool := 0 < svc.maxFileSizeBytes && svc.maxFileSizeBytes < size

end Services

theorem le_of_not_oversized {svc : Services} {size : Int} (h : svc.oversized size = false)
    (hlimit : 0 < svc.maxFileSizeBytes) : size ≤ svc.maxFileSizeBytes := by
  simp only [Services.oversized, hlimit, decide_true, Bool.true_and, decide_eq_false_iff_not] at h
  exact not_lt.mp h

/-- The object `{key: value, ...}`; keys are written in map order. -/
def object (kvs : List (String × Json)) : Json := .obj (kvs.map fun p => (ascii p.1, p.2))

/-- The result of a step that may already have answered the request. -/
abbrev Answered (α : Type) : Type := Except HttpResponse α

/-- `query_param`. -/
def queryParam (query key : Bytes) : Bytes :=
  match afterFirst (key ++ [EQUALS]) query with
  | none => []
  | some rest => rest.takeWhile (· != 38)

/-- `std::time(nullptr)` from the clock in nanoseconds. -/
def toTimeT (ns : Int) : Int := ns.tdiv 1000000000

/-! ## SHA-256 texts -/

section Sha256

variable {svc : Services}

theorem sha256_length (hlen : ∀ d, 2 ≤ (svc.digest d).length) (data : Bytes) :
    4 ≤ (svc.sha256 data).length := by
  have := hlen data
  rw [Services.sha256, length_hexBytes]
  omega

theorem sha256_ne_nil (hdigest : ∀ d, svc.digest d ≠ []) (data : Bytes) : svc.sha256 data ≠ [] := by
  intro h
  have hlen := congrArg List.length h
  have hpos := List.length_pos_iff.mpr (hdigest data)
  rw [Services.sha256, length_hexBytes, List.length_nil] at hlen
  omega

end Sha256

/-- A small server: SHA-256 tabulated at the texts the samples below use, chunks
of one byte, no size limit. -/
def sampleServices : Services where
  jwt := sampleUtil
  digest data :=
    if data = ascii "x" then
      [45, 113, 22, 66, 183, 38, 176, 68, 1, 98, 124, 169, 251, 172, 50, 245, 200, 83, 15, 177, 144,
        60, 196, 219, 2, 37, 135, 23, 146, 26, 72, 129]
    else if data = ascii "y" then
      [161, 252, 228, 54, 56, 84, 255, 136, 140, 255, 75, 142, 120, 117, 214, 0, 194, 104, 35, 144,
        65, 42, 140, 247, 155, 55, 208, 177, 17, 72, 176, 250]
    else if data = ascii "xy" then
      [118, 154, 78, 109, 0, 3, 24, 156, 126, 150, 197, 217, 183, 232, 16, 160, 209, 28, 58, 18,
        131, 37, 39, 236, 148, 176, 248, 109, 39, 127, 81, 202]
    else 0 :: 0 :: data
  storeChunkSize := 1
  storeChunkSize_pos := by decide
  chunkSize := 1
  chunkSize_pos := by decide
  chunkSize_lt := by decide
  maxFileSizeBytes := 0
  jwtTtlHours := 24
  hasRedis := true
  metrics := []
  gmtOffset := 0

theorem sampleServices_lawful : sampleServices.json.Lawful := JsonText.lib_lawful

/-- As of SHA-256, its digests have two bytes or more. -/
theorem sampleServices_digest_length (d : Bytes) : 2 ≤ (sampleServices.digest d).length := by
  unfold sampleServices
  dsimp only
  split
  · decide
  · split
    · decide
    · split
      · decide
      · exact Nat.le_add_left 2 d.length

theorem sampleServices_digest_ne_nil (d : Bytes) : sampleServices.digest d ≠ [] := by
  have hlen := sampleServices_digest_length d
  intro hd
  rw [hd] at hlen
  exact absurd hlen (by decide)

/-- The digests of the sample server are all different: they begin with 45 for
`x`, 161 for `y`, 118 for `xy`, and with two zeros for the rest. -/
theorem sampleServices_sha256_injective : Function.Injective sampleServices.sha256 := by
  have hcases : ∀ d : Bytes,
      (d = ascii "x" ∧ (sampleServices.digest d).head? = some 45) ∨
      (d = ascii "y" ∧ (sampleServices.digest d).head? = some 161) ∨
      (d = ascii "xy" ∧ (sampleServices.digest d).head? = some 118) ∨
      sampleServices.digest d = 0 :: 0 :: d := by
    intro d
    by_cases hx : d = ascii "x"
    · exact Or.inl ⟨hx, by rw [hx]; decide⟩
    by_cases hy : d = ascii "y"
    · exact Or.inr (Or.inl ⟨hy, by rw [hy]; decide⟩)
    by_cases hxy : d = ascii "xy"
    · exact Or.inr (Or.inr (Or.inl ⟨hxy, by rw [hxy]; decide⟩))
    refine Or.inr (Or.inr (Or.inr ?_))
    show (if d = ascii "x" then _ else if d = ascii "y" then _ else if d = ascii "xy" then _
      else 0 :: 0 :: d) = _
    rw [if_neg hx, if_neg hy, if_neg hxy]
  have hdigest : Function.Injective sampleServices.digest := by
    intro a b hab
    rcases hcases a with ⟨rfl, ha⟩ | ⟨rfl, ha⟩ | ⟨rfl, ha⟩ | ha <;>
      rcases hcases b with ⟨rfl, hb⟩ | ⟨rfl, hb⟩ | ⟨rfl, hb⟩ | hb <;>
        first
          | rfl
          | exact (List.cons.inj (List.cons.inj (ha.symm.trans (hab.trans hb))).2).2
          | (rw [hab, hb] at ha; simp at ha)
          | (rw [← hab, ha] at hb; simp at hb)
  exact fun a b hab => hdigest (hexBytes_injective hab)

/-! ## Access control -/

/-- `resolve_folder_id`. -/
def resolveFolderId (svc : Services) (folderId userId : Bytes) : App (Answered Bytes) := do
  if folderId = [] then return .ok []
  else
    let folder ← ask (.folderFindById folderId)
    match folder with
    | some f =>
        if f.ownerId ≠ userId then
          let resp ← svc.setError 404 (ascii "folder not found")
          return .error resp
        else return .ok folderId
    | none =>
        let resp ← svc.setError 404 (ascii "folder not found")
        return .error resp

/-- `require_owned_file`. -/
def requireOwnedFile (svc : Services) (userId fileId : Bytes) : App (Answered FileRecord) := do
  if userId = [] then
    let resp ← svc.setError 401 (ascii "Unauthorized")
    return .error resp
  else
    let file ← ask (.findOwnedById userId fileId)
    match file with
    | some f => return .ok f
    | none =>
        let resp ← svc.setError 404 (ascii "file not found")
        return .error resp

end SolarDrive.Api
