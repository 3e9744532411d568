import Apatchy.Converters.HttpMessage
import Apatchy.Foundations.TextCodecs

/-!
# Session cookies

The session harness makes cookies that `mod_session_crypto` accepts: for a route of its
table, `ApplySessionCrypto` writes the session encrypted and authenticated, or in plain
text, or it writes raw bytes (`Apatchy.cookieValue`). The cryptography is OpenSSL's, and
a parameter here (`Apatchy.OpenSsl`) with what its documentation says of it
(`Apatchy.OpenSsl.Lawful`).

A cookie is read back as the module reads it (`Apatchy.cookieValue_decodes`). Sizes are
given to OpenSSL as `int`, which is what bounds the sessions that this is true of: the
text of a cookie has to fit one (`Apatchy.SessionCookie.Fits`).
-/

namespace Apatchy

/-! ### OpenSSL -/

/-- **What the converter calls of OpenSSL.** A size is an `int`. -/
structure OpenSsl where
  /-- The digest of `EVP_md5`. -/
  md5 : List UInt8 → List UInt8
  /-- `PKCS5_PBKDF2_HMAC_SHA1`: a passphrase, a salt, iterations and the size of the key. -/
  pbkdf2HmacSha1 : List UInt8 → List UInt8 → ℕ → ℕ → List UInt8
  /-- The MAC `SIPHASH` of size 8: a key, and data. -/
  siphash : List UInt8 → List UInt8 → List UInt8
  /-- `EVP_aes_256_cbc`, encrypting: a key, an IV, data and the size given for it. -/
  encrypt : List UInt8 → List UInt8 → List UInt8 → ℤ → List UInt8
  /-- `EVP_aes_256_cbc`, decrypting: a key, an IV and a ciphertext. -/
  decrypt : List UInt8 → List UInt8 → List UInt8 → Option (List UInt8)
  /-- The text that `EVP_EncodeBlock` writes: for data, and the size given for it. -/
  encodeBlock : List UInt8 → ℤ → List UInt8

/-- **What is known of OpenSSL**: the sizes of its keys, digests and ciphertexts, that
decryption takes off what encryption put on, and that `EVP_EncodeBlock` is base64. Nothing
is known of a negative size. -/
structure OpenSsl.Lawful (ssl : OpenSsl) : Prop where
  /-- A digest has 16 bytes. -/
  length_md5 : ∀ data, (ssl.md5 data).length = 16
  /-- A key has the size asked for. -/
  length_pbkdf2HmacSha1 : ∀ passphrase salt iterations size,
    (ssl.pbkdf2HmacSha1 passphrase salt iterations size).length = size
  /-- A MAC has 8 bytes. -/
  length_siphash : ∀ key data, key.length = 16 → (ssl.siphash key data).length = 8
  /-- A ciphertext is padded to the next multiple of 16. -/
  length_encrypt : ∀ key iv data (n : ℤ), key.length = 32 → iv.length = 16 → 0 ≤ n →
    n ≤ data.length → (ssl.encrypt key iv data n).length = 16 * (n.toNat / 16 + 1)
  /-- Decryption with padding inverts encryption. -/
  decrypt_encrypt : ∀ key iv data (n : ℤ), key.length = 32 → iv.length = 16 → 0 ≤ n →
    n ≤ data.length → ssl.decrypt key iv (ssl.encrypt key iv data n) = some (data.take n.toNat)
  /-- A block is encoded in base64, without line breaks. -/
  encodeBlock_eq : ∀ data (n : ℤ), 0 ≤ n → n ≤ data.length →
    ssl.encodeBlock data n = base64 (data.take n.toNat)

/-- A `size_t`, converted to `int`. -/
def toInt32 (n : ℕ) : ℤ :=
  if n % 2 ^ 32 < 2 ^ 31 then (n % 2 ^ 32 : ℕ) else (n % 2 ^ 32 : ℕ) - 2 ^ 32

/-! ### Routes and keys -/

/-- The enum `SessionRoute`. -/
inductive SessionRoute
  | a | b | c | d | e | f | g | h | i | j | k | l | m | n | o | p | q
deriving DecidableEq, Repr

/-- `RouteInfo`. -/
structure RouteInfo where
  /-- The path. -/
  path : String
  /-- The name of the cookie. -/
  cookieName : String
  /-- 0 for the primary key, 1 for the alternative one, -1 for plain text. -/
  keySet : ℤ

/-- `ROUTES`. -/
def SessionRoute.info : SessionRoute → RouteInfo
  | .a => ⟨"/a", "session_crypto", 0⟩
  | .b => ⟨"/b", "session_plain", -1⟩
  | .c => ⟨"/c", "session_ovr", -1⟩
  | .d => ⟨"/d", "session_filter", 0⟩
  | .e => ⟨"/e", "session_expiry", -1⟩
  | .f => ⟨"/f", "session_auth", -1⟩
  | .g => ⟨"/g", "session_auth", -1⟩
  | .h => ⟨"/h", "session_auth", -1⟩
  | .i => ⟨"/i", "session2_rfc2965", -1⟩
  | .j => ⟨"/j", "session_dual", -1⟩
  | .k => ⟨"/k", "session_strip", -1⟩
  | .l => ⟨"/l", "session_empty", -1⟩
  | .m => ⟨"/m", "session_pf", 0⟩
  | .n => ⟨"/n", "session_alt", 1⟩
  | .o => ⟨"/o", "session_multi", 0⟩
  | .p => ⟨"/p", "session_shared", 0⟩
  | .q => ⟨"/q", "session_exec", 0⟩

/-- `PASSPHRASE_PRIMARY`. -/
def passphrasePrimary : List UInt8 := ascii "fuzzing_test_key_1234567890abcdef"

/-- `PASSPHRASE_ALT`. -/
def passphraseAlt : List UInt8 := ascii "different_key_for_cross_route_test"

/-- `CryptoKeys`. -/
structure CryptoKeys where
  /-- The key of the MAC. -/
  siphashKey : List UInt8
  /-- The key of the cipher. -/
  aesKey : List UInt8
  /-- The salt. -/
  salt : List UInt8

variable (ssl : OpenSsl)

/-- `derive_keys`. -/
def deriveKeys (passphrase : List UInt8) : CryptoKeys :=
  let salt := List.replicate 16 0x41
  { siphashKey := ssl.md5 passphrase
    aesKey := ssl.pbkdf2HmacSha1 passphrase salt 4096 32
    salt }

/-- `g_keys`, after `ensure_keys`. -/
def keys (keySet : ℕ) : CryptoKeys :=
  deriveKeys ssl (if keySet = 0 then passphrasePrimary else passphraseAlt)

/-! ### The three encodings -/

/-- `base64_encode`: the text in a buffer of its size and one byte more, which is then
resized to the number of characters that `EVP_EncodeBlock` returns. -/
def base64Encode (data : List UInt8) : Except String (List UInt8) :=
  let outLen := 4 * ((data.length + 2) / 3) + 1
  let text := ssl.encodeBlock data (toInt32 data.length)
  let result := text ++ List.replicate (outLen - text.length) 0
  let written := toInt32 text.length
  if written < 0 then .error "std::length_error" else .ok (result.take written.toNat)

/-- The IV of `encrypt_session`. -/
def sessionIv : List UInt8 := List.replicate 16 0

/-- `encrypt_session`: MAC, salt, IV and ciphertext, in base64. -/
def encryptSession (plaintext : List UInt8) (keySet : ℕ) : Except String (List UInt8) :=
  let k := keys ssl keySet
  let ct := ssl.encrypt k.aesKey sessionIv plaintext (toInt32 plaintext.length)
  let mac := ssl.siphash k.siphashKey (k.salt ++ sessionIv ++ ct)
  base64Encode ssl (mac ++ k.salt ++ sessionIv ++ ct)

/-- The bytes that `url_encode` leaves as they are. -/
def urlKeeps (c : UInt8) : Bool :=
  (65 ≤ c && c ≤ 90) || (97 ≤ c && c ≤ 122) || (48 ≤ c && c ≤ 57) || c == 61 || c == 38

/-- The digits of `url_encode`. -/
def urlHex : List UInt8 := ascii "0123456789ABCDEF"

/-- `url_encode`. -/
def urlEncode (input : List UInt8) : List UInt8 :=
  input.flatMap fun c =>
    if urlKeeps c then [c]
    else [percent, urlHex.getD (c >>> 4).toNat 0, urlHex.getD (c &&& 0xf).toNat 0]

/-- The message `SessionCookie`. -/
structure SessionCookie where
  /-- The session. -/
  sessionData : Option (List UInt8) := none
  /-- The bytes to write instead. -/
  rawOverride : Option (List UInt8) := none

/-- **The value of the cookie** that `ApplySessionCrypto` writes for a route. -/
def cookieValue (cookie : SessionCookie) (route : SessionRoute) : Except String (List UInt8) :=
  match cookie.rawOverride with
  | some raw => base64Encode ssl raw
  | none =>
    let sessionData := cookie.sessionData.getD []
    if route.info.keySet ≥ 0 then encryptSession ssl sessionData route.info.keySet.toNat
    else .ok (urlEncode sessionData)

/-! ### The converter -/

/-- What is between the first two spaces of a request, replaced. -/
def overrideUri (path request : List UInt8) : List UInt8 :=
  match find [space] request with
  | none => request
  | some sp1 =>
    match findFrom [space] request (sp1 + 1) with
    | none => request
    | some sp2 => replaceAt (sp1 + 1) (sp2 - sp1 - 1) path request

/-- **`ApplySessionCrypto`.** -/
def applySessionCrypto (cookie : SessionCookie) (route : SessionRoute) (request : List UInt8) :
    Except String (List UInt8) := do
  let request := overrideUri (ascii route.info.path) request
  let value ← cookieValue ssl cookie route
  -- the last blank line of the request, which may be in its body
  match rfind blankLine request with
  | none => return request
  | some hend =>
    let hdr := ascii "Cookie: " ++ ascii route.info.cookieName ++ ascii "=" ++ value ++ crlf
    return insertAt (hend + 2) hdr request

variable {ssl}

/-! ### Sizes -/

theorem toInt32_of_lt {n : ℕ} (h : n < 2 ^ 31) : toInt32 n = n := by
  rw [toInt32]
  split_ifs <;> omega

theorem toInt32_neg {n : ℕ} (h : 2 ^ 31 ≤ n) (h' : n < 2 ^ 32) : toInt32 n < 0 := by
  rw [toInt32]
  split_ifs <;> omega

/-- **What `base64_encode` returns** for data whose size fits an `int`: its base64, unless the
size of the text does not fit one. -/
theorem base64Encode_eq (h : ssl.Lawful) (data : List UInt8) (hsize : data.length < 2 ^ 31) :
    base64Encode ssl data =
      if 4 * ((data.length + 2) / 3) < 2 ^ 31 then .ok (base64 data)
      else .error "std::length_error" := by
  have hint := toInt32_of_lt hsize
  have hencode : ssl.encodeBlock data data.length = base64 data := by
    rw [h.encodeBlock_eq data _ (Int.natCast_nonneg _) le_rfl, Int.toNat_natCast, List.take_length]
  simp only [base64Encode, hint, hencode, length_base64]
  by_cases hfits : 4 * ((data.length + 2) / 3) < 2 ^ 31
  · have hwritten := toInt32_of_lt hfits
    rw [if_pos hfits, hwritten, if_neg (by omega), Int.toNat_natCast, ← length_base64,
      List.take_left]
  · rw [if_neg hfits, if_pos (toInt32_neg (by omega) (by omega))]

/-- Data that is small enough is encoded whole. -/
theorem base64Encode_of_fits (h : ssl.Lawful) {data : List UInt8}
    (hfits : 4 * ((data.length + 2) / 3) < 2 ^ 31) :
    base64Encode ssl data = .ok (base64 data) := by
  rw [base64Encode_eq h data (by omega), if_pos hfits]

/-! ### Reading the cookie back -/

theorem length_keys (h : ssl.Lawful) (keySet : ℕ) :
    (keys ssl keySet).siphashKey.length = 16 ∧ (keys ssl keySet).aesKey.length = 32 ∧
      (keys ssl keySet).salt.length = 16 :=
  ⟨h.length_md5 _, h.length_pbkdf2HmacSha1 _ _ _ _, List.length_replicate ..⟩

theorem length_sessionIv : sessionIv.length = 16 := rfl

theorem urlHex_getD {d : ℕ} (h : d < 16) : urlHex.getD d 0 = upperDigit d := by
  interval_cases d <;> rfl

/-- `url_encode` is percent-encoding. -/
theorem urlEncode_eq (input : List UInt8) : urlEncode input = percentEncode urlKeeps input := by
  have hdigits (c : UInt8) : urlHex.getD (c >>> 4).toNat 0 = upperDigit (c.toNat / 16) ∧
      urlHex.getD (c &&& 0xf).toNat 0 = upperDigit (c.toNat % 16) := by
    have hc := c.toNat_lt
    have hhigh : (c >>> 4).toNat = c.toNat / 16 := by
      simp [UInt8.toNat_shiftRight, Nat.shiftRight_eq_div_pow]
    have hlow : (c &&& 0xf).toNat = c.toNat % 16 := Nat.and_two_pow_sub_one_eq_mod c.toNat 4
    rw [hhigh, hlow]
    exact ⟨urlHex_getD (by omega), urlHex_getD (by omega)⟩
  simp only [urlEncode, percentEncode, hdigits]

/-- What must not be in the value of a cookie. -/
def cookieDelimiters : List UInt8 := ascii "\r\n;, "

theorem isBase64_of_mem_delimiters {c : UInt8} (h : c ∈ cookieDelimiters) :
    isBase64 c = false := by
  have hall : cookieDelimiters.all (fun c => !isBase64 c) = true := by decide
  simpa using List.all_eq_true.mp hall c h

theorem urlKeeps_of_mem_delimiters {c : UInt8} (h : c ∈ cookieDelimiters) :
    urlKeeps c = false ∧ c ≠ percent ∧ ∀ d < 16, c ≠ upperDigit d := by
  have hkeeps : cookieDelimiters.all (fun c => !urlKeeps c && c != percent) = true := by decide
  have hc := List.all_eq_true.mp hkeeps c h
  simp only [Bool.and_eq_true, Bool.not_eq_true', bne_iff_ne] at hc
  refine ⟨hc.1, hc.2, fun d hd hdigit => ?_⟩
  have hvalue := digitValue_upperDigit hd
  have hdigits : cookieDelimiters.all (fun c => digitValue c == none) = true := by decide
  have hnone := List.all_eq_true.mp hdigits c h
  rw [hdigit, hvalue] at hnone
  simp at hnone

/-- **Base64 text holds no delimiter.** -/
theorem base64_delimiters (bs : List UInt8) : ∀ c ∈ base64 bs, c ∉ cookieDelimiters := by
  intro c hc hdelimiter
  have hletter := isBase64_of_mem hc
  rw [isBase64_of_mem_delimiters hdelimiter] at hletter
  simp at hletter

/-- **Percent-encoded text holds no delimiter.** -/
theorem urlEncode_delimiters (bs : List UInt8) : ∀ c ∈ urlEncode bs, c ∉ cookieDelimiters := by
  intro c hc hdelimiter
  rw [urlEncode_eq] at hc
  obtain ⟨hkeeps, hpercent, hdigit⟩ := urlKeeps_of_mem_delimiters hdelimiter
  rcases of_mem_percentEncode hc with hkept | rfl | ⟨d, hd, rfl⟩
  · rw [hkeeps] at hkept
    simp at hkept
  · exact hpercent rfl
  · exact hdigit d hd rfl

/-- **A value reads back as the cookie**: as the raw bytes, as a session that is encrypted
and authenticated under the keys of the route, or as one in plain text. -/
def Decodes (ssl : OpenSsl) (cookie : SessionCookie) (route : SessionRoute)
    (value : List UInt8) : Prop :=
  match cookie.rawOverride with
  | some raw => ofBase64 value = some raw
  | none =>
    if route.info.keySet ≥ 0 then
      ∃ mac salt iv ct, ofBase64 value = some (mac ++ salt ++ iv ++ ct) ∧
        mac.length = 8 ∧ salt.length = 16 ∧ iv.length = 16 ∧
        mac = ssl.siphash (keys ssl route.info.keySet.toNat).siphashKey (salt ++ iv ++ ct) ∧
        ssl.decrypt (keys ssl route.info.keySet.toNat).aesKey iv ct =
          some (cookie.sessionData.getD [])
    else percentDecode value = some (cookie.sessionData.getD [])

/-- The size of what is encoded in base64 for a cookie: the raw bytes, or MAC, salt, IV and
the padded session. -/
def SessionCookie.payloadSize (cookie : SessionCookie) (route : SessionRoute) : ℕ :=
  match cookie.rawOverride with
  | some raw => raw.length
  | none =>
    if route.info.keySet ≥ 0 then 40 + 16 * ((cookie.sessionData.getD []).length / 16 + 1) else 0

/-- **A cookie whose text fits an `int`**, the size that `EVP_EncodeBlock` returns. -/
def SessionCookie.Fits (cookie : SessionCookie) (route : SessionRoute) : Prop :=
  4 * ((cookie.payloadSize route + 2) / 3) < 2 ^ 31

/-- What an encrypted session is the base64 of. -/
theorem exists_encryptSession (h : ssl.Lawful) (plaintext : List UInt8)
    (hsize : plaintext.length < 2 ^ 31) (keySet : ℕ) :
    ∃ blob, encryptSession ssl plaintext keySet = base64Encode ssl blob ∧
      blob.length = 40 + 16 * (plaintext.length / 16 + 1) := by
  obtain ⟨hmacKey, haesKey, hsalt⟩ := length_keys h keySet
  have hint := toInt32_of_lt hsize
  have hct := h.length_encrypt (keys ssl keySet).aesKey sessionIv plaintext plaintext.length
    haesKey rfl (Int.natCast_nonneg _) le_rfl
  rw [Int.toNat_natCast] at hct
  refine ⟨_, rfl, ?_⟩
  simp only [List.length_append, h.length_siphash _ _ hmacKey, hsalt, length_sessionIv, hint, hct]

theorem base64Encode_ok_iff (h : ssl.Lawful) {data : List UInt8} (hsize : data.length < 2 ^ 31) :
    (∃ value, base64Encode ssl data = .ok value) ↔ 4 * ((data.length + 2) / 3) < 2 ^ 31 := by
  rw [base64Encode_eq h data hsize]
  by_cases hfits : 4 * ((data.length + 2) / 3) < 2 ^ 31
  · rw [if_pos hfits]
    exact ⟨fun _ => hfits, fun _ => ⟨_, rfl⟩⟩
  · rw [if_neg hfits]
    exact ⟨fun ⟨_, hvalue⟩ => by simp at hvalue, fun hfits' => absurd hfits' hfits⟩

/-- **A cookie has a value exactly if its text fits an `int`**, among the cookies for which
OpenSSL is not asked for a negative size. -/
theorem cookieValue_ok_iff (h : ssl.Lawful) {cookie : SessionCookie} {route : SessionRoute}
    (hsize : cookie.payloadSize route < 2 ^ 31) :
    (∃ value, cookieValue ssl cookie route = .ok value) ↔ cookie.Fits route := by
  unfold SessionCookie.Fits
  unfold SessionCookie.payloadSize at hsize ⊢
  unfold cookieValue
  rcases hraw : cookie.rawOverride with _ | raw <;> rw [hraw] at hsize
  · by_cases hkey : route.info.keySet ≥ 0
    · simp only [hkey, if_true] at hsize
      obtain ⟨blob, hblob, hlength⟩ := exists_encryptSession h (cookie.sessionData.getD [])
        (by omega) route.info.keySet.toNat
      simp only [hkey, if_true, hblob, ← hlength]
      exact base64Encode_ok_iff h (by omega)
    · simp only [hkey, if_false]
      exact ⟨fun _ => by omega, fun _ => ⟨_, rfl⟩⟩
  · exact base64Encode_ok_iff h hsize

/-- An encrypted session reads back. -/
theorem encryptSession_decodes (h : ssl.Lawful) (plaintext : List UInt8) (keySet : ℕ)
    (hfits : 4 * ((40 + 16 * (plaintext.length / 16 + 1) + 2) / 3) < 2 ^ 31) :
    ∃ mac salt iv ct, encryptSession ssl plaintext keySet =
        .ok (base64 (mac ++ salt ++ iv ++ ct)) ∧
      mac.length = 8 ∧ salt.length = 16 ∧ iv.length = 16 ∧
      mac = ssl.siphash (keys ssl keySet).siphashKey (salt ++ iv ++ ct) ∧
      ssl.decrypt (keys ssl keySet).aesKey iv ct = some plaintext := by
  obtain ⟨hmacKey, haesKey, hsalt⟩ := length_keys h keySet
  have hint : toInt32 plaintext.length = plaintext.length := toInt32_of_lt (by omega)
  have hct := h.length_encrypt (keys ssl keySet).aesKey sessionIv plaintext plaintext.length
    haesKey rfl (Int.natCast_nonneg _) le_rfl
  have hplain := h.decrypt_encrypt (keys ssl keySet).aesKey sessionIv plaintext plaintext.length
    haesKey rfl (Int.natCast_nonneg _) le_rfl
  rw [Int.toNat_natCast] at hct hplain
  rw [List.take_length] at hplain
  refine ⟨_, (keys ssl keySet).salt, sessionIv, _, ?_, h.length_siphash _ _ hmacKey, hsalt, rfl,
    rfl, hplain⟩
  rw [encryptSession, hint]
  refine base64Encode_of_fits h ?_
  simp only [List.length_append, h.length_siphash _ _ hmacKey, hsalt, length_sessionIv, hct]
  omega

/-- **The value of a cookie holds no delimiter.** -/
theorem cookieValue_delimiters (h : ssl.Lawful) {cookie : SessionCookie} {route : SessionRoute}
    (hfits : cookie.Fits route) {value : List UInt8}
    (hvalue : cookieValue ssl cookie route = .ok value) : ∀ c ∈ value, c ∉ cookieDelimiters := by
  unfold cookieValue at hvalue
  unfold SessionCookie.Fits SessionCookie.payloadSize at hfits
  rcases hraw : cookie.rawOverride with _ | raw <;> rw [hraw] at hvalue hfits
  · by_cases hkey : route.info.keySet ≥ 0
    · simp only [hkey, if_true] at hvalue hfits
      obtain ⟨mac, salt, iv, ct, htext, -⟩ := encryptSession_decodes h _ route.info.keySet.toNat
        hfits
      rw [htext] at hvalue
      rw [← Except.ok.inj hvalue]
      exact base64_delimiters _
    · simp only [hkey, if_false] at hvalue
      rw [← Except.ok.inj hvalue]
      exact urlEncode_delimiters _
  · have htext := base64Encode_of_fits h hfits
    rw [← Except.ok.inj (htext.symm.trans hvalue)]
    exact base64_delimiters _

/-- **The cookie reads back**, whatever it is and whatever the route, and its value holds no
delimiter: the raw bytes from base64; on an encrypted route MAC, salt, IV and ciphertext,
the MAC being that of what follows it and the ciphertext that of the session, under the
keys of the route; on another route the session from percent-encoding. -/
theorem cookieValue_decodes (ssl : OpenSsl) (h : ssl.Lawful) (cookie : SessionCookie)
    (route : SessionRoute) (hfits : cookie.Fits route) :
    ∃ value, cookieValue ssl cookie route = .ok value ∧ Decodes ssl cookie route value ∧
      ∀ c ∈ value, c ∉ cookieDelimiters := by
  have hdecodes : ∃ value, cookieValue ssl cookie route = .ok value ∧
      Decodes ssl cookie route value := by
    unfold cookieValue Decodes
    unfold SessionCookie.Fits SessionCookie.payloadSize at hfits
    rcases hraw : cookie.rawOverride with _ | raw <;> rw [hraw] at hfits
    · by_cases hkey : route.info.keySet ≥ 0
      · simp only [hkey, if_true] at hfits ⊢
        obtain ⟨mac, salt, iv, ct, hvalue, hdecodes⟩ := encryptSession_decodes h _ _ hfits
        exact ⟨_, hvalue, mac, salt, iv, ct, ofBase64_base64 _, hdecodes⟩
      · simp only [hkey, if_false]
        have hpercent : urlKeeps percent = false := by decide
        have hdecode := percentDecode_percentEncode hpercent (cookie.sessionData.getD [])
        rw [← urlEncode_eq] at hdecode
        exact ⟨_, rfl, hdecode⟩
    · exact ⟨_, base64Encode_of_fits h hfits, ofBase64_base64 raw⟩
  obtain ⟨value, hvalue, hdecodes⟩ := hdecodes
  exact ⟨value, hvalue, hdecodes, cookieValue_delimiters h hfits hvalue⟩

/-! ### A stand-in for OpenSSL -/

/-- What pads data to the next multiple of 16. -/
def padding (n : ℕ) : List UInt8 := List.replicate (16 - n % 16) (UInt8.ofNat (16 - n % 16))

/-- **A stand-in for OpenSSL** that pads and encodes, with ciphers and digests that do
nothing. -/
def paddingOnly : OpenSsl where
  md5 := fun _ => List.replicate 16 0
  pbkdf2HmacSha1 := fun _ _ _ size => List.replicate size 0
  siphash := fun _ _ => List.replicate 8 0
  encrypt := fun _ _ data n => data.take n.toNat ++ padding n.toNat
  decrypt := fun _ _ ct => ct.getLast?.map fun last => ct.take (ct.length - last.toNat)
  encodeBlock := fun data n => base64 (data.take n.toNat)

theorem paddingOnly_lawful : paddingOnly.Lawful where
  length_md5 := fun _ => rfl
  length_pbkdf2HmacSha1 := fun _ _ _ _ => List.length_replicate ..
  length_siphash := fun _ _ _ => rfl
  length_encrypt := by
    intro key iv data n _ _ hpos hn
    simp only [paddingOnly, padding, List.length_append, List.length_take, List.length_replicate]
    omega
  decrypt_encrypt := by
    intro key iv data n _ _ hpos hn
    have hlength : (data.take n.toNat).length = n.toNat := by
      rw [List.length_take]
      omega
    have hne : 16 - n.toNat % 16 ≠ 0 := by omega
    have hlast : (padding n.toNat).getLast? = some (UInt8.ofNat (16 - n.toNat % 16)) := by
      simp [padding, List.getLast?_replicate, hne]
    have hvalue : (UInt8.ofNat (16 - n.toNat % 16)).toNat = 16 - n.toNat % 16 := by
      rw [UInt8.toNat_ofNat']
      omega
    have hsize : (padding n.toNat).length = 16 - n.toNat % 16 := List.length_replicate ..
    simp only [paddingOnly, List.getLast?_append, hlast, Option.some_or, Option.map_some, hvalue,
      List.length_append, hsize, Nat.add_sub_cancel, List.take_left]
  encodeBlock_eq := fun _ _ _ _ => rfl

/-- A raw cookie of three bytes, on an encrypted route. -/
theorem cookieValue_decodes_raw :
    paddingOnly.Lawful ∧
    ∃ value, cookieValue paddingOnly { rawOverride := some [0, 255, 13] } .a = .ok value ∧
      Decodes paddingOnly { rawOverride := some [0, 255, 13] } .a value ∧
      ∀ c ∈ value, c ∉ cookieDelimiters := by
  have hfits : SessionCookie.Fits { rawOverride := some [0, 255, 13] } .a := by
    simp [SessionCookie.Fits, SessionCookie.payloadSize]
  exact ⟨paddingOnly_lawful, cookieValue_decodes paddingOnly paddingOnly_lawful _ .a hfits⟩

/-- The base64 text of 3 * 2^29 bytes has 2^31 characters. -/
theorem cookieValue_of_length (raw : List UInt8) (hlength : raw.length = 1610612736) :
    cookieValue paddingOnly { rawOverride := some raw } .a = .error "std::length_error" := by
  have hvalue := base64Encode_eq paddingOnly_lawful raw (by omega)
  rwa [if_neg (by omega)] at hvalue

/-- **A cookie of 1.5 GiB has no value**: the size of its text is negative as an `int`, and
the text cannot be resized to that. -/
theorem cookieValue_large :
    paddingOnly.Lawful ∧
    cookieValue paddingOnly { rawOverride := some (List.replicate 1610612736 0) } .a =
      .error "std::length_error" ∧
    ¬ ∃ value,
      cookieValue paddingOnly { rawOverride := some (List.replicate 1610612736 0) } .a =
        .ok value ∧
      Decodes paddingOnly { rawOverride := some (List.replicate 1610612736 0) } .a value ∧
      ∀ c ∈ value, c ∉ cookieDelimiters := by
  have hvalue := cookieValue_of_length (List.replicate 1610612736 0) List.length_replicate
  refine ⟨paddingOnly_lawful, hvalue, ?_⟩
  rintro ⟨value, hok, -⟩
  rw [hvalue] at hok
  simp at hok

end Apatchy
