import SolarDrive.Lib.JsonText
import SolarDrive.Auth.Base64Url

/-!
# Tokens

`generate` writes `header.payload.signature`; `verify` splits at the first two
dots, recomputes the signature and reads the payload back. The JSON library
and HMAC-SHA256 are outside code and come as fields of `JwtUtil` next to the
signing secret; the clock is an argument.

The round trip holds exactly when the expiry arithmetic stays in range and the
payload text is one `base64urlDecode` can read (`verify_generate_iff`).
-/

namespace SolarDrive.Auth

open Lib

structure JwtClaims where
  userId : Bytes
  username : Bytes
  exp : Int
  iat : Int
deriving DecidableEq, Repr

structure JwtUtil where
  secret : Bytes
  hmacSha256 : Bytes → Bytes → Bytes
  json : JsonLib

/-- `HS256` header. -/
def tokenHeader : Json :=
  .obj [(ascii "alg", .str (ascii "HS256")), (ascii "typ", .str (ascii "JWT"))]

/-- The payload object; the library keeps its keys sorted. -/
def tokenPayload (c : JwtClaims) : Json :=
  .obj [(ascii "exp", .int c.exp), (ascii "iat", .int c.iat),
    (ascii "user_id", .str c.userId), (ascii "username", .str c.username)]

/-- `payload["iat"].get<int64_t>() + ttl_hours * 3600`: the product is an
`int`, the sum an `int64_t`, and both wrap. -/
def defaultExp (iat ttlHours : Int) : Int :=
  Int.bmod (iat + Int.bmod (ttlHours * 3600) (2 ^ 32)) (2 ^ 64)

/-- The claims a token is issued for: zero `iat` or `exp` means the default. -/
def issuedClaims (now : Int) (claims : JwtClaims) (ttlHours : Int) : JwtClaims :=
  let iat := if claims.iat ≠ 0 then claims.iat else now
  { claims with
    iat := iat
    exp := if claims.exp ≠ 0 then claims.exp else defaultExp iat ttlHours }

namespace JwtUtil

variable (J : JwtUtil)

/-- The signature part for a signing input. -/
def signatureOf (signingInput : Bytes) : Bytes :=
  base64urlEncode (J.hmacSha256 J.secret signingInput)

/-- The error is the text of the exception `dump` throws. -/
def generate (now : Int) (claims : JwtClaims) (ttlHours : Int) : Except Bytes Bytes :=
  match J.json.dump tokenHeader, J.json.dump (tokenPayload (issuedClaims now claims ttlHours)) with
  | .error w, _ => .error w
  | _, .error w => .error w
  | .ok headerJson, .ok payloadJson =>
      let signingInput := base64urlEncode headerJson ++ DOT :: base64urlEncode payloadJson
      .ok (signingInput ++ DOT :: J.signatureOf signingInput)

/-- The claims a payload document carries; any exception on the way is caught. -/
def readPayload (payload : Json) : Except Bytes JwtClaims := do
  let userId ← (← payload.index (ascii "user_id")).getString
  let username ← (← payload.index (ascii "username")).getString
  let iat ← (← payload.index (ascii "iat")).getInt64
  let exp ← (← payload.index (ascii "exp")).getInt64
  return { userId, username, exp, iat }

def verify (now : Int) (token : Bytes) : Option JwtClaims :=
  match cutAt DOT token with
  | none => none
  | some (headerB64, rest) =>
      match cutAt DOT rest with
      | none => none
      | some (payloadB64, sigB64) =>
          if sigB64 ≠ J.signatureOf (headerB64 ++ DOT :: payloadB64) then none
          else
            match base64urlDecode payloadB64 with
            | none => none
            | some raw =>
                match J.json.parse raw with
                | .error _ => none
                | .ok payload =>
                    match readPayload payload with
                    | .error _ => none
                    | .ok claims => if claims.exp < now then none else some claims

end JwtUtil

/-- The token of an `Authorization` header. -/
def extractToken (authHeader : Bytes) : Option Bytes :=
  if authHeader.length ≤ 7 then none
  else if authHeader.take 7 ≠ ascii "Bearer " ∧ authHeader.take 7 ≠ ascii "bearer " then none
  else some (authHeader.drop 7)

/-! ## Splitting and reading back -/

section RoundTrip

variable {J : JwtUtil}

/-- A token made of two dot-free parts splits into them and the signature. -/
theorem verify_signed (now : Int) {h p : Bytes} (hh : DOT ∉ h) (hp : DOT ∉ p) :
    J.verify now (h ++ DOT :: p ++ DOT :: J.signatureOf (h ++ DOT :: p)) =
      match base64urlDecode p with
      | none => none
      | some raw =>
          match J.json.parse raw with
          | .error _ => none
          | .ok payload =>
              match JwtUtil.readPayload payload with
              | .error _ => none
              | .ok claims => if claims.exp < now then none else some claims := by
  have hcut : cutAt DOT (h ++ DOT :: p ++ DOT :: J.signatureOf (h ++ DOT :: p)) =
      some (h, p ++ DOT :: J.signatureOf (h ++ DOT :: p)) := by
    rw [List.append_assoc, List.cons_append]
    exact cutAt_append _ hh
  rw [JwtUtil.verify, hcut]
  simp only [cutAt_append _ hp, ne_eq, not_true_eq_false, if_false]

theorem readPayload_tokenPayload {c : JwtClaims}
    (hexp : -(2 ^ 63) ≤ c.exp ∧ c.exp < 2 ^ 63) (hiat : -(2 ^ 63) ≤ c.iat ∧ c.iat < 2 ^ 63) :
    JwtUtil.readPayload (tokenPayload c) = .ok c := by
  have he : Int.bmod c.exp (2 ^ 64) = c.exp := by
    apply Int.bmod_eq_of_le <;> omega
  have hi : Int.bmod c.iat (2 ^ 64) = c.iat := by
    apply Int.bmod_eq_of_le <;> omega
  have h : JwtUtil.readPayload (tokenPayload c) =
      .ok { userId := c.userId, username := c.username, exp := Int.bmod c.exp (2 ^ 64),
            iat := Int.bmod c.iat (2 ^ 64) } := rfl
  rw [h, he, hi]

theorem tokenPayload_flat {c : JwtClaims}
    (hexp : -(2 ^ 63) ≤ c.exp ∧ c.exp < 2 ^ 63) (hiat : -(2 ^ 63) ≤ c.iat ∧ c.iat < 2 ^ 63) :
    (tokenPayload c).isFlat = true := by
  have hkeys : Json.keysSorted [(ascii "exp", .int c.exp), (ascii "iat", .int c.iat),
      (ascii "user_id", .str c.userId), (ascii "username", .str c.username)] = true := rfl
  simp only [tokenPayload, Json.isFlat, hkeys, Bool.and_true, List.all_cons, List.all_nil,
    Json.isScalar, Bool.and_eq_true, decide_eq_true_eq]
  omega

theorem texts_tokenPayload {c : JwtClaims} (hu : validUtf8 c.userId = true)
    (hn : validUtf8 c.username = true) : ∀ s ∈ (tokenPayload c).texts, validUtf8 s = true := by
  intro s hs
  have hs' : s ∈ [ascii "exp", ascii "iat", ascii "user_id", c.userId, ascii "username",
      c.username] := hs
  simp only [List.mem_cons, List.not_mem_nil, or_false] at hs'
  rcases hs' with rfl | rfl | rfl | rfl | rfl | rfl
  · decide
  · decide
  · decide
  · exact hu
  · decide
  · exact hn

/-- The arithmetic of the expiry is exact when neither operation wraps, and
only then. -/
theorem defaultExp_eq_iff {iat ttl : Int} (hiat : 0 < iat ∧ iat < 2 ^ 63)
    (httl : 0 < ttl ∧ ttl < 2 ^ 31) :
    defaultExp iat ttl = iat + ttl * 3600 ↔
      ttl * 3600 < 2 ^ 31 ∧ iat + ttl * 3600 < 2 ^ 63 := by
  unfold defaultExp
  constructor
  · intro h
    have h1 : Int.bmod (iat + Int.bmod (ttl * 3600) (2 ^ 32)) (2 ^ 64) < 2 ^ 63 :=
      Int.bmod_lt (by norm_num)
    have hlow : -(2 ^ 31 : Int) ≤ Int.bmod (ttl * 3600) (2 ^ 32) := Int.le_bmod (by norm_num)
    have hhigh : Int.bmod (ttl * 3600) (2 ^ 32) < 2 ^ 31 := Int.bmod_lt (by norm_num)
    refine ⟨?_, by omega⟩
    have hle : iat + Int.bmod (ttl * 3600) (2 ^ 32) < 2 ^ 63 := by
      -- past the top the sum comes out negative, and the right side is positive
      by_contra hge
      rw [← Int.sub_bmod_right, Int.bmod_eq_of_le (by omega) (by omega)] at h
      omega
    rw [Int.bmod_eq_of_le (by omega) (by omega)] at h
    omega
  · rintro ⟨h1, h2⟩
    rw [Int.bmod_eq_of_le (n := ttl * 3600) (by omega) (by omega)]
    exact Int.bmod_eq_of_le (by omega) (by omega)

/-- What `generate` throws is the JSON library's complaint. -/
theorem generate_what (hjson : J.json.Lawful) {clock ttl : Int} {claims : JwtClaims} {w : Bytes}
    (h : J.generate clock claims ttl = .error w) : validUtf8 w = true := by
  unfold JwtUtil.generate at h
  cases h1 : J.json.dump tokenHeader with
  | error e =>
      rw [h1] at h
      cases h
      exact hjson.dump_what _ _ h1
  | ok t =>
      cases h2 : J.json.dump (tokenPayload (issuedClaims clock claims ttl)) with
      | error e =>
          rw [h1, h2] at h
          cases h
          exact hjson.dump_what _ _ h2
      | ok t' =>
          rw [h1, h2] at h
          cases h

/-- Verifying a freshly issued token reads its own claims back, provided the
decoder can read the payload text. -/
theorem verify_generate (hjson : J.json.Lawful) (clock now ttl : Int) {claims : JwtClaims}
    (hu : validUtf8 claims.userId = true) (hn : validUtf8 claims.username = true)
    (hexp : -(2 ^ 63) ≤ (issuedClaims clock claims ttl).exp ∧
      (issuedClaims clock claims ttl).exp < 2 ^ 63)
    (hiat : -(2 ^ 63) ≤ (issuedClaims clock claims ttl).iat ∧
      (issuedClaims clock claims ttl).iat < 2 ^ 63) :
    ∃ payloadJson token,
      J.json.dump (tokenPayload (issuedClaims clock claims ttl)) = .ok payloadJson ∧
      J.generate clock claims ttl = .ok token ∧
      J.verify now token =
        if Readable payloadJson ∧ now ≤ (issuedClaims clock claims ttl).exp then
          some (issuedClaims clock claims ttl)
        else none := by
  obtain ⟨headerJson, hdump, -, -⟩ := hjson.dump_flat tokenHeader rfl (by decide)
  obtain ⟨payloadJson, hpd, -, hparse⟩ := hjson.dump_flat _ (tokenPayload_flat hexp hiat)
    (texts_tokenPayload hu hn)
  refine ⟨payloadJson, _, hpd, by rw [JwtUtil.generate, hdump, hpd], ?_⟩
  rw [verify_signed now (dot_not_mem_base64urlEncode _) (dot_not_mem_base64urlEncode _),
    base64urlDecode_encode]
  by_cases hr : Readable payloadJson
  · simp only [hr, if_true, hparse, readPayload_tokenPayload hexp hiat, true_and]
    by_cases hlt : (issuedClaims clock claims ttl).exp < now
    · rw [if_pos hlt, if_neg (Int.not_le.mpr hlt)]
    · rw [if_neg hlt, if_pos (Int.not_lt.mp hlt)]
  · simp only [hr, if_false, false_and]

theorem issuedClaims_default (clock ttl : Int) (userId username : Bytes) {iat : Int}
    (hiat : 0 < iat) :
    issuedClaims clock { userId, username, exp := 0, iat } ttl =
      { userId, username, exp := defaultExp iat ttl, iat } := by
  have hne : iat ≠ 0 := by omega
  simp [issuedClaims, hne]

/-- The claims whose token is accepted: the expiry does not wrap, and the
payload text has no six-bit group 62 or 63 (the two characters on which the
encoder's and the decoder's tables disagree). -/
def RoundTrips (J : JwtUtil) (userId username : Bytes) (iat ttl : Int) : Prop :=
  ttl * 3600 < 2 ^ 31 ∧ iat + ttl * 3600 < 2 ^ 63 ∧
    ∀ t, J.json.dump (tokenPayload { userId, username, exp := iat + ttl * 3600, iat }) = .ok t →
      Readable t

/-- **A token issued with the default expiry is read back exactly when its
claims round-trip.** -/
theorem verify_generate_iff (hjson : J.json.Lawful) (clock : Int) {now iat ttl : Int}
    {userId username : Bytes} (hu : validUtf8 userId = true) (hn : validUtf8 username = true)
    (hiat : 0 < iat ∧ iat < 2 ^ 63) (httl : 0 < ttl ∧ ttl < 2 ^ 31)
    (hnow : now ≤ iat + ttl * 3600) :
    (∃ token, J.generate clock { userId, username, exp := 0, iat } ttl = .ok token ∧
        J.verify now token =
          some { userId, username, exp := iat + ttl * 3600, iat }) ↔
      RoundTrips J userId username iat ttl := by
  have hissued := issuedClaims_default clock ttl userId username hiat.1
  have hrange : -(2 ^ 63) ≤ defaultExp iat ttl ∧ defaultExp iat ttl < 2 ^ 63 :=
    ⟨Int.le_bmod (by norm_num), Int.bmod_lt (by norm_num)⟩
  have hiat' : -(2 ^ 63) ≤ iat ∧ iat < 2 ^ 63 := ⟨by omega, hiat.2⟩
  have hexp : -(2 ^ 63) ≤ (issuedClaims clock { userId, username, exp := 0, iat } ttl).exp ∧
      (issuedClaims clock { userId, username, exp := 0, iat } ttl).exp < 2 ^ 63 := by
    rw [hissued]
    exact hrange
  have hiss : -(2 ^ 63) ≤ (issuedClaims clock { userId, username, exp := 0, iat } ttl).iat ∧
      (issuedClaims clock { userId, username, exp := 0, iat } ttl).iat < 2 ^ 63 := by
    rw [hissued]
    exact hiat'
  obtain ⟨payloadJson, token, hdump, hgen, hver⟩ :=
    verify_generate hjson clock now ttl hu hn hexp hiss
  rw [hissued] at hdump hver
  rw [RoundTrips, ← and_assoc, ← defaultExp_eq_iff hiat httl]
  constructor
  · rintro ⟨token', hgen', hver'⟩
    rw [hgen] at hgen'
    cases hgen'
    rw [hver] at hver'
    split at hver'
    · rename_i hr
      have hexp : defaultExp iat ttl = iat + ttl * 3600 := by
        have := congrArg (Option.map JwtClaims.exp) hver'
        simpa using this
      refine ⟨hexp, fun t ht => ?_⟩
      rw [← hexp, hdump] at ht
      cases ht
      exact hr.1
    · cases hver'
  · rintro ⟨hexp, hread⟩
    rw [hexp] at hdump hver
    refine ⟨token, hgen, ?_⟩
    rw [hver, if_pos ⟨hread payloadJson hdump, hnow⟩]

end RoundTrip

/-! ### Two users -/

/-- The signer with key `secret`, HMAC-SHA256 tabulated at the two signing
inputs below. -/
def sampleUtil : JwtUtil where
  secret := ascii "secret"
  json := JsonText.lib
  hmacSha256 _ msg :=
    if msg = ascii ("eyJhbGciOiJIUzI1NiIsInR5cCI6IkpXVCJ9.eyJleHAiOjE3MDAwODY0MDAsImlhdCI6MTcwMDAw" ++
        "MDAwMCwidXNlcl9pZCI6InUxIiwidXNlcm5hbWUiOiJhbGljZSJ9") then
      [20, 211, 172, 180, 57, 212, 56, 184, 23, 160, 130, 122, 46, 26, 95, 85, 136, 82, 141, 143,
        142, 85, 93, 170, 182, 169, 64, 202, 188, 227, 232, 27]
    else
      [175, 57, 83, 125, 33, 170, 111, 122, 213, 77, 125, 177, 130, 33, 119, 64, 180, 32, 110, 167,
        19, 108, 119, 121, 27, 63, 251, 17, 239, 200, 241, 184]

theorem verify_generate_alice :
    ∃ token, sampleUtil.generate 0
        { userId := ascii "u1", username := ascii "alice", exp := 0, iat := 1700000000 } 24 =
        .ok token ∧
      sampleUtil.verify 1700000060 token =
        some { userId := ascii "u1", username := ascii "alice", exp := 1700000000 + 24 * 3600,
               iat := 1700000000 } := by
  apply (verify_generate_iff (J := sampleUtil) JsonText.lib_lawful 0 (by decide) (by decide)
    (by decide) (by decide) (by decide)).mpr
  have hdump : sampleUtil.json.dump (tokenPayload
      { userId := ascii "u1", username := ascii "alice", exp := 1700000000 + 24 * 3600,
        iat := 1700000000 }) =
      .ok (ascii "\x7b\"exp\":1700086400,\"iat\":1700000000,\"user_id\":\"u1\",\"username\":\"alice\"\x7d") := by
    decide +kernel
  refine ⟨by decide, by decide, fun t ht => ?_⟩
  rw [hdump] at ht
  cases ht
  decide +kernel

/-- The user named `???` gets a token whose payload has the character `_`,
which the decoder does not know. -/
theorem verify_generate_question_marks :
    validUtf8 (ascii "u1") = true ∧ validUtf8 (ascii "???") = true ∧
    ¬ ∃ token, sampleUtil.generate 0
          { userId := ascii "u1", username := ascii "???", exp := 0, iat := 1700000000 } 24 =
          .ok token ∧
        sampleUtil.verify 1700000060 token =
          some { userId := ascii "u1", username := ascii "???", exp := 1700000000 + 24 * 3600,
                 iat := 1700000000 } := by
  have hdump : sampleUtil.json.dump (tokenPayload
      { userId := ascii "u1", username := ascii "???", exp := 1700086400, iat := 1700000000 }) =
      .ok (ascii "\x7b\"exp\":1700086400,\"iat\":1700000000,\"user_id\":\"u1\",\"username\":\"???\"\x7d") := by
    decide +kernel
  have hbad : ¬ Readable
      (ascii "\x7b\"exp\":1700086400,\"iat\":1700000000,\"user_id\":\"u1\",\"username\":\"???\"\x7d") := by
    decide +kernel
  obtain ⟨payloadJson, token, hd, hgen, hver⟩ := verify_generate (J := sampleUtil)
    JsonText.lib_lawful 0 1700000060 24 (by decide : validUtf8 (ascii "u1") = true)
    (by decide : validUtf8 (ascii "???") = true)
    (by decide : -(2 ^ 63) ≤ (issuedClaims 0 ⟨ascii "u1", ascii "???", 0, 1700000000⟩ 24).exp ∧ _)
    (by decide)
  have hissued : issuedClaims 0 ⟨ascii "u1", ascii "???", 0, 1700000000⟩ 24 =
      ⟨ascii "u1", ascii "???", 1700086400, 1700000000⟩ := rfl
  rw [hissued, hdump] at hd
  rw [← Except.ok.inj hd, if_neg fun h => hbad h.1] at hver
  refine ⟨by decide, by decide, ?_⟩
  rintro ⟨token', hgen', hver'⟩
  rw [hgen] at hgen'
  rw [← Except.ok.inj hgen', hver] at hver'
  cases hver'

end SolarDrive.Auth
