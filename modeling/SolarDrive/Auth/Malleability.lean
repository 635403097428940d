import SolarDrive.Auth.Jwt

/-!
# Tokens are not malleable

An accepted token has two dots, and what is behind the second is the text of the
signature of what is before it (`verify_some`). The text has no freedom of its own: the
encoder of base64url is injective, for every length modulo three. So with an injective
signature one part of an accepted token determines the other.
-/

namespace SolarDrive.Auth

open Lib

/-- What stands behind the last dot. -/
def signaturePart (token : Bytes) : Bytes := (token.reverse.takeWhile (· != DOT)).reverse

/-- What stands before the last dot. -/
def signedPart (token : Bytes) : Bytes :=
  token.take (token.length - ((signaturePart token).length + 1))

/-- The bytes of a list of 6-bit groups. -/
def octets : List Nat → Bytes
  | u :: v :: w :: x :: rest =>
      UInt8.ofNat (u * 4 + v / 16) :: UInt8.ofNat (v % 16 * 16 + w / 4) ::
        UInt8.ofNat (w % 4 * 64 + x) :: octets rest
  | [u, v, w] => [UInt8.ofNat (u * 4 + v / 16), UInt8.ofNat (v % 16 * 16 + w / 4)]
  | [u, v] => [UInt8.ofNat (u * 4 + v / 16)]
  | _ => []

/-! ## The encoder is injective -/

theorem octets_sextets : ∀ data : Bytes, octets (sextets data) = data
  | [] => rfl
  | [b0] => by
      have h0 := b0.toNat_lt
      rw [sextets_one, octets, ofNat_toNat_eq (b := b0) (by omega)]
  | [b0, b1] => by
      have h0 := b0.toNat_lt
      have h1 := b1.toNat_lt
      rw [sextets_two, octets, ofNat_toNat_eq (b := b0) (by omega),
        ofNat_toNat_eq (b := b1) (by omega)]
  | b0 :: b1 :: b2 :: rest => by
      have h0 := b0.toNat_lt
      have h1 := b1.toNat_lt
      have h2 := b2.toNat_lt
      rw [sextets_three, octets, octets_sextets rest, ofNat_toNat_eq (b := b0) (by omega),
        ofNat_toNat_eq (b := b1) (by omega), ofNat_toNat_eq (b := b2) (by omega)]

/-- Every character that is written stands for one group. -/
theorem idxOf_stdChar : ∀ v < 64, stdTable.idxOf (fromUrlSafe (toUrlSafe (stdChar v))) = v := by
  intro v hv
  have hlen : v < stdTable.length := by
    rw [stdTable_eq]
    exact hv
  rw [fromUrlSafe_toUrlSafe v hv, stdChar, List.getD_eq_getElem _ _ hlen]
  exact nodup_tables.1.idxOf_getElem v hlen

theorem base64urlEncode_injective : Function.Injective base64urlEncode := by
  have hgroups : ∀ data : Bytes,
      (base64urlEncode data).map (fun c => stdTable.idxOf (fromUrlSafe c)) = sextets data := by
    intro data
    rw [base64urlEncode_eq, List.map_map]
    conv_rhs => rw [← List.map_id (sextets data)]
    refine List.map_congr_left fun v hv => ?_
    rw [Function.comp_apply]
    exact idxOf_stdChar v (sextet_lt data v hv)
  intro data data' h
  rw [← octets_sextets data, ← octets_sextets data', ← hgroups, ← hgroups, h]

/-! ## The parts of a token -/

theorem parts_append {a s : Bytes} (hs : DOT ∉ s) :
    signedPart (a ++ DOT :: s) = a ∧ signaturePart (a ++ DOT :: s) = s := by
  have hsignature : signaturePart (a ++ DOT :: s) = s := by
    have hall : ∀ c ∈ s.reverse, (c != DOT) = true := by
      intro c hc
      rw [bne_iff_ne]
      rintro rfl
      exact hs (List.mem_reverse.mp hc)
    unfold signaturePart
    rw [List.reverse_append, List.reverse_cons, List.append_assoc,
      List.takeWhile_append_of_pos hall]
    simp
  constructor
  · unfold signedPart
    rw [hsignature, List.length_append, List.length_cons, Nat.add_sub_cancel]
    exact List.take_left
  · exact hsignature

theorem cutAt_not_mem {c : UInt8} : ∀ {s l r : Bytes}, cutAt c s = some (l, r) → c ∉ l
  | [], _, _, h => by simp [cutAt] at h
  | x :: xs, l, r, h => by
      rw [cutAt] at h
      split at h
      · cases h
        exact List.not_mem_nil
      · rename_i hx
        obtain ⟨⟨l', r'⟩, hcut, heq⟩ := Option.map_eq_some_iff.mp h
        cases heq
        intro hmem
        rcases List.mem_cons.mp hmem with rfl | hmem
        · exact hx rfl
        · exact cutAt_not_mem hcut hmem

namespace JwtUtil

variable {J : JwtUtil} {now : Int} {token : Bytes} {claims : JwtClaims}

theorem dot_not_mem_signatureOf (J : JwtUtil) (input : Bytes) : DOT ∉ J.signatureOf input :=
  dot_not_mem_base64urlEncode _

/-- What is accepted is two parts without dots and the signature of both. -/
theorem verify_some (h : J.verify now token = some claims) : ∃ header payload,
    DOT ∉ header ∧ DOT ∉ payload ∧
      token = header ++ DOT :: payload ++ DOT :: J.signatureOf (header ++ DOT :: payload) := by
  unfold verify at h
  cases hfirst : cutAt DOT token with
  | none =>
      rw [hfirst] at h
      cases h
  | some p =>
      obtain ⟨header, rest⟩ := p
      rw [hfirst] at h
      dsimp only at h
      cases hsecond : cutAt DOT rest with
      | none =>
          rw [hsecond] at h
          cases h
      | some q =>
          obtain ⟨payload, signature⟩ := q
          rw [hsecond] at h
          dsimp only at h
          by_cases hsignature : signature ≠ J.signatureOf (header ++ DOT :: payload)
          · rw [if_pos hsignature] at h
            cases h
          · refine ⟨header, payload, cutAt_not_mem hfirst, cutAt_not_mem hsecond, ?_⟩
            rw [cutAt_sound hfirst, cutAt_sound hsecond, List.append_assoc, List.cons_append,
              not_not.mp hsignature]

/-- The two parts of an accepted token: one is the signature of the other. -/
theorem verify_parts (h : J.verify now token = some claims) :
    token = signedPart token ++ DOT :: J.signatureOf (signedPart token) ∧
      signaturePart token = J.signatureOf (signedPart token) ∧
      ∃ header payload, DOT ∉ header ∧ DOT ∉ payload ∧
        signedPart token = header ++ DOT :: payload := by
  obtain ⟨header, payload, hheader, hpayload, rfl⟩ := verify_some h
  obtain ⟨hsigned, hsignature⟩ := parts_append (a := header ++ DOT :: payload)
    (dot_not_mem_signatureOf J (header ++ DOT :: payload))
  rw [hsigned, hsignature]
  exact ⟨rfl, rfl, header, payload, hheader, hpayload, rfl⟩

theorem signatureOf_injective (hinj : Function.Injective (J.hmacSha256 J.secret)) :
    Function.Injective J.signatureOf := fun _ _ h => hinj (base64urlEncode_injective h)

/-- An issued token is a signed part, two parts without dots, and its signature. -/
theorem generate_some {clock ttl : Int} (h : J.generate clock claims ttl = .ok token) :
    ∃ header payload, DOT ∉ header ∧ DOT ∉ payload ∧
      token = header ++ DOT :: payload ++ DOT :: J.signatureOf (header ++ DOT :: payload) := by
  unfold generate at h
  cases hheader : J.json.dump tokenHeader with
  | error w =>
      rw [hheader] at h
      cases h
  | ok headerJson =>
      cases hpayload : J.json.dump (tokenPayload (issuedClaims clock claims ttl)) with
      | error w =>
          rw [hheader, hpayload] at h
          cases h
      | ok payloadJson =>
          rw [hheader, hpayload] at h
          exact ⟨_, _, dot_not_mem_base64urlEncode _, dot_not_mem_base64urlEncode _,
            (Except.ok.inj h).symm⟩

end JwtUtil

/-- Two parts without dots are found again in what begins with them. -/
theorem two_parts_unique {h p h' p' s s' : Bytes} (hh : DOT ∉ h) (hp : DOT ∉ p) (hh' : DOT ∉ h')
    (hp' : DOT ∉ p') (heq : h ++ DOT :: p ++ DOT :: s = h' ++ DOT :: p' ++ DOT :: s') :
    h = h' ∧ p = p' ∧ s = s' := by
  rw [List.append_assoc, List.cons_append, List.append_assoc, List.cons_append] at heq
  have hfirst := cutAt_append (p ++ DOT :: s) hh
  rw [heq, cutAt_append _ hh', Option.some.injEq, Prod.mk.injEq] at hfirst
  obtain ⟨hheader, hrest⟩ := hfirst
  have hsecond := cutAt_append s hp
  rw [← hrest, cutAt_append _ hp', Option.some.injEq, Prod.mk.injEq] at hsecond
  exact ⟨hheader.symm, hsecond.1.symm, hsecond.2.symm⟩

/-- **No token is made from another one.** Different tokens that are accepted differ
before the last dot and behind it; a token that shares one of the two with an issued
token, split at any dot, is the issued one; and the header names a token whole. -/
theorem tokens_not_malleable (J : JwtUtil) (hinj : Function.Injective (J.hmacSha256 J.secret)) :
    (∀ now t t' c c', t ≠ t' → J.verify now t = some c → J.verify now t' = some c' →
      signedPart t ≠ signedPart t' ∧ signaturePart t ≠ signaturePart t') ∧
    (∀ clock claims ttl issued, J.generate clock claims ttl = .ok issued →
      issued = signedPart issued ++ DOT :: signaturePart issued ∧
      ∀ now t c, J.verify now t = some c →
        (∀ s, t = signedPart issued ++ DOT :: s → t = issued) ∧
        ∀ a, t = a ++ DOT :: signaturePart issued → t = issued) ∧
    (∀ token, token ≠ [] → extractToken (ascii "Bearer " ++ token) = some token ∧
      extractToken (ascii "bearer " ++ token) = some token) ∧
    ∀ header token, extractToken header = some token →
      header = ascii "Bearer " ++ token ∨ header = ascii "bearer " ++ token := by
  have hsign := JwtUtil.signatureOf_injective hinj
  refine ⟨?_, ?_, ?_, ?_⟩
  · intro now t t' c c' hne h h'
    obtain ⟨ht, hsig, -⟩ := JwtUtil.verify_parts h
    obtain ⟨ht', hsig', -⟩ := JwtUtil.verify_parts h'
    -- the signed part determines the signature, so different tokens differ before the dot
    have hsigned : signedPart t ≠ signedPart t' := by
      intro heq
      rw [ht, ht', heq] at hne
      exact hne rfl
    refine ⟨hsigned, fun heq => hsigned (hsign ?_)⟩
    rw [← hsig, ← hsig', heq]
  · intro clock claims ttl issued hissued
    obtain ⟨header, payload, hheader, hpayload, rfl⟩ := JwtUtil.generate_some hissued
    obtain ⟨hsigned, hsignature⟩ := parts_append (a := header ++ DOT :: payload)
      (JwtUtil.dot_not_mem_signatureOf J (header ++ DOT :: payload))
    rw [hsigned, hsignature]
    refine ⟨rfl, fun now t c h => ⟨?_, ?_⟩⟩
    · rintro s rfl
      obtain ⟨header', payload', hheader', hpayload', heq⟩ := JwtUtil.verify_some h
      obtain ⟨rfl, rfl, rfl⟩ := two_parts_unique hheader hpayload hheader' hpayload' heq
      rfl
    · -- the signature determines the signed part, since the MAC is injective
      rintro a rfl
      obtain ⟨-, hsig, -⟩ := JwtUtil.verify_parts h
      obtain ⟨ha, hs⟩ := parts_append (a := a)
        (JwtUtil.dot_not_mem_signatureOf J (header ++ DOT :: payload))
      rw [hs, ha] at hsig
      rw [hsign hsig]
  · intro token htoken
    have hpos := List.length_pos_iff.mpr htoken
    have hlong : ∀ scheme : Bytes, scheme.length = 7 → ¬ (scheme ++ token).length ≤ 7 := by
      intro scheme hscheme
      rw [List.length_append]
      omega
    constructor
    · have hcut : (ascii "Bearer " ++ token).take 7 = ascii "Bearer " := List.take_left' rfl
      unfold extractToken
      rw [if_neg (hlong _ rfl), hcut, if_neg (fun h => h.1 rfl)]
      rfl
    · have hcut : (ascii "bearer " ++ token).take 7 = ascii "bearer " := List.take_left' rfl
      unfold extractToken
      rw [if_neg (hlong _ rfl), hcut, if_neg (fun h => h.2 rfl)]
      rfl
  · intro header token h
    unfold extractToken at h
    split at h
    · cases h
    · split at h
      · cases h
      · rename_i hscheme
        cases h
        rw [← Classical.not_imp, not_not] at hscheme
        by_cases hupper : header.take 7 = ascii "Bearer "
        · exact .inl (by rw [← hupper, List.take_append_drop])
        · exact .inr (by rw [← hscheme hupper, List.take_append_drop])

/-! ### Two tokens of one user -/

/-- The input that is signed for the user of the samples, at one second and at another. -/
def aliceInput : Bytes :=
  ascii ("eyJhbGciOiJIUzI1NiIsInR5cCI6IkpXVCJ9.eyJleHAiOjE3MDAwODY0MDAsImlhdCI6MTcwMDAw" ++
    "MDAwMCwidXNlcl9pZCI6InUxIiwidXNlcm5hbWUiOiJhbGljZSJ9")

def laterInput : Bytes :=
  ascii ("eyJhbGciOiJIUzI1NiIsInR5cCI6IkpXVCJ9.eyJleHAiOjE3MDAwODY0MDMsImlhdCI6MTcwMDAw" ++
    "MDAwMywidXNlcl9pZCI6InUxIiwidXNlcm5hbWUiOiJhbGljZSJ9")

def aliceDigest : Bytes :=
  [20, 211, 172, 180, 57, 212, 56, 184, 23, 160, 130, 122, 46, 26, 95, 85, 136, 82, 141, 143,
    142, 85, 93, 170, 182, 169, 64, 202, 188, 227, 232, 27]

def laterDigest : Bytes :=
  [106, 86, 255, 247, 192, 92, 248, 154, 15, 219, 20, 196, 157, 47, 149, 42, 175, 5, 204, 181,
    19, 89, 234, 42, 124, 101, 102, 67, 154, 156, 175, 9]

/-- HMAC-SHA256 under `secret` at the two inputs, and longer texts elsewhere. -/
def pairUtil : JwtUtil where
  secret := ascii "secret"
  json := JsonText.lib
  hmacSha256 _ msg :=
    if msg = aliceInput then aliceDigest
    else if msg = laterInput then laterDigest
    else List.replicate 33 0 ++ msg

theorem pairUtil_injective : Function.Injective (pairUtil.hmacSha256 pairUtil.secret) := by
  have hlong : ∀ msg : Bytes, (List.replicate 33 (0 : UInt8) ++ msg).length ≠ 32 := by
    intro msg
    rw [List.length_append, List.length_replicate]
    omega
  have halice : aliceDigest.length = 32 := rfl
  have hlater : laterDigest.length = 32 := rfl
  have hdigests : aliceDigest ≠ laterDigest := by decide
  intro m m' h
  simp only [pairUtil] at h
  split at h
  · split at h
    · simp only [*]
    · split at h
      · exact absurd h hdigests
      · exact absurd (h ▸ halice) (hlong m')
  · split at h
    · split at h
      · exact absurd h.symm hdigests
      · split at h
        · simp only [*]
        · exact absurd (h ▸ hlater) (hlong m')
    · split at h
      · exact absurd (h ▸ halice) (hlong m)
      · split at h
        · exact absurd (h ▸ hlater) (hlong m)
        · exact List.append_cancel_left h

theorem laterInput_ne : laterInput ≠ aliceInput := by
  unfold laterInput aliceInput
  rw [ascii_append, ascii_append]
  repeat rw [ascii_ofList]
  decide +kernel

theorem signatureOf_aliceInput : pairUtil.signatureOf aliceInput = base64urlEncode aliceDigest := by
  simp only [JwtUtil.signatureOf, pairUtil, if_true]

theorem signatureOf_laterInput : pairUtil.signatureOf laterInput = base64urlEncode laterDigest := by
  simp only [JwtUtil.signatureOf, pairUtil, laterInput_ne, if_true, if_false]

/-- The header and the payload are what is encoded in the two inputs. -/
theorem inputs_encoded :
    aliceInput = base64urlEncode (ascii "\x7b\"alg\":\"HS256\",\"typ\":\"JWT\"\x7d") ++ DOT ::
      base64urlEncode (ascii "\x7b\"exp\":1700086400,\"iat\":1700000000,\"user_id\":\"u1\",\"username\":\"alice\"\x7d") ∧
    laterInput = base64urlEncode (ascii "\x7b\"alg\":\"HS256\",\"typ\":\"JWT\"\x7d") ++ DOT ::
      base64urlEncode (ascii "\x7b\"exp\":1700086403,\"iat\":1700000003,\"user_id\":\"u1\",\"username\":\"alice\"\x7d") := by
  simp only [aliceInput, laterInput, ascii_append, base64urlEncode_eq, stdChar, stdTable_eq]
  repeat rw [ascii_ofList]
  decide +kernel

/-- A payload that is written and read back is accepted with the signature of its input. -/
theorem verify_of_payload {J : JwtUtil} (hjson : J.json.Lawful) {now : Int} {c : JwtClaims}
    {header payload input : Bytes}
    (hexp : -(2 ^ 63) ≤ c.exp ∧ c.exp < 2 ^ 63) (hiat : -(2 ^ 63) ≤ c.iat ∧ c.iat < 2 ^ 63)
    (hdump : J.json.dump (tokenPayload c) = .ok payload) (hread : Readable payload)
    (hnow : now ≤ c.exp)
    (hinput : input = base64urlEncode header ++ DOT :: base64urlEncode payload) :
    J.verify now (input ++ DOT :: J.signatureOf input) = some c := by
  have hparse := (hjson.parse_dump (tokenPayload_flat hexp hiat) hdump).2
  rw [hinput, verify_signed now (dot_not_mem_base64urlEncode header)
    (dot_not_mem_base64urlEncode payload), base64urlDecode_encode, if_pos hread]
  dsimp only
  rw [hparse]
  dsimp only
  rw [readPayload_tokenPayload hexp hiat]
  exact if_neg (Int.not_lt.mpr hnow)

theorem two_tokens_differ :
    signedPart (aliceInput ++ DOT :: base64urlEncode aliceDigest) ≠
        signedPart (laterInput ++ DOT :: base64urlEncode laterDigest) ∧
      signaturePart (aliceInput ++ DOT :: base64urlEncode aliceDigest) ≠
        signaturePart (laterInput ++ DOT :: base64urlEncode laterDigest) := by
  have hdiffer : aliceInput ++ DOT :: base64urlEncode aliceDigest ≠
      laterInput ++ DOT :: base64urlEncode laterDigest := by
    unfold laterInput aliceInput
    rw [ascii_append, ascii_append]
    repeat rw [ascii_ofList]
    decide +kernel
  refine (tokens_not_malleable pairUtil pairUtil_injective).1 1700000060 _ _
    { userId := ascii "u1", username := ascii "alice", exp := 1700086400, iat := 1700000000 }
    { userId := ascii "u1", username := ascii "alice", exp := 1700086403, iat := 1700000003 }
    hdiffer ?_ ?_
  · rw [← signatureOf_aliceInput]
    refine verify_of_payload JsonText.lib_lawful (by decide) (by decide) ?_ ?_ (by decide)
      inputs_encoded.1
    · unfold tokenPayload
      repeat rw [ascii_ofList]
      decide +kernel
    · repeat rw [ascii_ofList]
      decide +kernel
  · rw [← signatureOf_laterInput]
    refine verify_of_payload JsonText.lib_lawful (by decide) (by decide) ?_ ?_ (by decide)
      inputs_encoded.2
    · unfold tokenPayload
      repeat rw [ascii_ofList]
      decide +kernel
    · repeat rw [ascii_ofList]
      decide +kernel

end SolarDrive.Auth
