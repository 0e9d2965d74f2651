import VyosClient.ClaimsJson

/-!
Whether a login gives a session that lasts. A token is as long as the JSON text of its claims makes
it, in base64, and only the reading side knows a bound. What is issued at a login and by the
renewals after it can be read as long as the subject and the two instants fit in the claims.
-/

namespace VyosClient.UsableSession

open Base64 SessionRenewal SessionManager ClaimsJson

def maxLoginUsernameBytes : ℕ := 256

def maxLoginPasswordBytes : ℕ := 128

/-- The checks of `handleLogin` before it looks at the password, with the message of the one that
fails. -/
def checkCredentials (username password : String) : Option String :=
  if username = "" ∨ password = "" then some "username and password are required"
  else if username.utf8ByteSize > maxLoginUsernameBytes ∨
      password.utf8ByteSize > maxLoginPasswordBytes then
    some "username or password too long"
  else none

/-- The manager of the sessions: claims as JSON, and 32 bytes of HMAC-SHA256 under the secret. -/
def jsonManager (mac : List UInt8 → Vector UInt8 32) : SessionManager where
  marshal c := some (marshalClaims c)
  unmarshal := unmarshalClaims
  hmac payloadB64 := (mac payloadB64).toList
  unmarshal_marshal := by
    intro c payload h
    rw [← Option.some.inj h]
    exact unmarshalClaims_marshalClaims c

/-- The tokens of one login, each with the instant it was made and the expiry it was given: the one
issued, and those that renew one of them at a time not earlier. -/
inductive Minted (m : SessionManager) (subject : String) (start : ℤ) : List UInt8 → ℤ → ℤ → Prop
  | issued {token : List UInt8} {exp : ℤ} (h : m.issue subject start = .ok (token, exp)) :
      Minted m subject start token start exp
  | renewed {token token' : List UInt8} {made exp now exp' : ℤ} {sub : String}
      (earlier : Minted m subject start token made exp) (hle : made ≤ now)
      (h : m.renew token now = .ok (token', exp', sub)) : Minted m subject start token' now exp'

/-- `Verify` and `Renew` take the token at every time before the expiry, with the same subject. -/
structure Accepted (m : SessionManager) (subject : String) (token : List UInt8) (exp : ℤ) : Prop where
  verify : ∀ now < exp, m.verify token now = .ok subject
  renew : ∀ now < exp, ∃ token' exp', m.renew token now = .ok (token', exp', subject)

/-- The login gets a token, and it is accepted and so is every token that comes from it. -/
structure Usable (m : SessionManager) (subject : String) (start : ℤ) : Prop where
  issue : ∃ token exp, m.issue subject start = .ok (token, exp)
  accepted : ∀ token made exp, Minted m subject start token made exp →
    Accepted m subject token exp

/-- The bytes that claims may put into JSON, next to its 24 bytes of layout. -/
def maxClaimsBytes : ℕ := 1479

def Fits (c : Claims) : Prop :=
  textSize (escaped c.subject) + (intText c.issuedAt).length + (intText c.expiresAt).length ≤
    maxClaimsBytes

instance (c : Claims) : Decidable (Fits c) := inferInstanceAs (Decidable (_ ≤ _))

/-- The subject fits beside the time of the login and the longest expiry it can get. -/
def Short (username : String) (start : ℤ) : Prop :=
  let issuedAt := unixMilli start
  textSize (escaped username) + (intText issuedAt).length +
    max (intText (issuedAt + 1800000)).length (intText (issuedAt + 43200000)).length ≤ maxClaimsBytes

instance (username : String) (start : ℤ) : Decidable (Short username start) :=
  inferInstanceAs (Decidable (_ ≤ _))

/-- Where the renewals of a login end. -/
def absoluteCap (start : ℤ) : ℤ := ofUnixMilli (unixMilli start) + maxAbsoluteSessionTTL

section Length

variable {mac : List UInt8 → Vector UInt8 32} {c : Claims} {token : List UInt8}

theorem length_encode (h : (jsonManager mac).encode c = .ok token) :
    token.length = (4 * (marshalClaims c).length + 2) / 3 + 44 := by
  have htoken := Except.ok.inj h
  have hsum : ((jsonManager mac).sign (encodeToString (marshalClaims c))).length = 32 :=
    (mac (encodeToString (marshalClaims c))).length_toList
  rw [← htoken, List.length_append, List.length_cons, length_encodeToString, length_encodeToString,
    hsum]

/-- A token is read when its claims fit, and else refused as one that nobody signed. -/
theorem decodeAndVerify_json (h : (jsonManager mac).encode c = .ok token) :
    (jsonManager mac).decodeAndVerify token =
      if Fits c then .ok c else .error .invalidToken := by
  have hlen := length_encode h
  rw [length_marshalClaims] at hlen
  rw [decodeAndVerify_encode h]
  by_cases hfits : Fits c
  · rw [if_pos hfits]
    unfold Fits maxClaimsBytes at hfits
    unfold maxTokenLength
    exact if_neg (by omega)
  · rw [if_neg hfits]
    unfold Fits maxClaimsBytes at hfits
    unfold maxTokenLength
    exact if_pos (by omega)

end Length

section Renewals

variable {m : SessionManager} {subject : String} {start made exp : ℤ} {token : List UInt8}

theorem renew_of_decode {c : Claims} {token' : List UInt8} {now : ℤ}
    (hdecode : m.decodeAndVerify token = .ok c) (htime : unixMilli now ≤ c.expiresAt)
    (hnew : now < newExpiry c now)
    (henc : m.encode ⟨c.subject, c.issuedAt, unixMilli (newExpiry c now)⟩ = .ok token') :
    m.renew token now = .ok (token', newExpiry c now, c.subject) := by
  unfold renew
  rw [hdecode]
  dsimp only
  rw [if_neg (not_lt.mpr htime), if_neg (not_not_intro hnew), henc]

theorem expiry_of_renew {token' : List UInt8} {now exp' : ℤ} {sub : String}
    (h : m.renew token now = .ok (token', exp', sub)) :
    ∃ c, m.decodeAndVerify token = .ok c ∧ exp' = newExpiry c now ∧ now < exp' ∧
      m.encode ⟨c.subject, c.issuedAt, unixMilli exp'⟩ = .ok token' := by
  obtain ⟨c, hdecode, htime, hnew, henc⟩ := renew_ok h
  have hexp : newExpiry c now = exp' := by
    rw [renew_of_decode hdecode htime hnew henc] at h
    exact (Prod.mk.inj (Prod.mk.inj (Except.ok.inj h)).2).1
  subst hexp
  exact ⟨c, hdecode, rfl, hnew, henc⟩

/-- What is known of a token of the login. -/
structure Dated (m : SessionManager) (subject : String) (start : ℤ) (token : List UInt8)
    (made exp : ℤ) : Prop where
  encode_eq : m.encode ⟨subject, unixMilli start, unixMilli exp⟩ = .ok token
  start_le : start ≤ made
  made_lt : made < exp
  ttl_le : start + sessionTTL ≤ exp
  exp_le : exp ≤ absoluteCap start

theorem newExpiry_eq_min (subject : String) (start exp now : ℤ) :
    newExpiry ⟨subject, unixMilli start, exp⟩ now = min (now + sessionTTL) (absoluteCap start) := by
  unfold newExpiry absoluteCap
  dsimp only
  split <;> omega

theorem start_add_ttl_lt (start : ℤ) : start + sessionTTL < absoluteCap start := by
  unfold absoluteCap ofUnixMilli unixMilli sessionTTL maxAbsoluteSessionTTL
  omega

/-- A renewal keeps the claims of a token but for the expiry. -/
theorem Dated.renewal {token' : List UInt8} {now exp' : ℤ} {sub : String}
    (hdated : Dated m subject start token made exp)
    (h : m.renew token now = .ok (token', exp', sub)) :
    exp' = min (now + sessionTTL) (absoluteCap start) ∧ now < exp' ∧
      m.encode ⟨subject, unixMilli start, unixMilli exp'⟩ = .ok token' := by
  obtain ⟨c, hdecode, hexp, hnew, henc⟩ := expiry_of_renew h
  have hc : c = ⟨subject, unixMilli start, unixMilli exp⟩ := by
    rw [decodeAndVerify_encode hdated.encode_eq] at hdecode
    split at hdecode
    · cases hdecode
    · exact (Except.ok.inj hdecode).symm
  subst hc
  exact ⟨hexp.trans (newExpiry_eq_min _ _ _ _), hnew, henc⟩

/-- By induction on the renewals: each keeps the claims but for the expiry, which it moves on from
its own time as far as the cap allows. -/
theorem Minted.dated (h : Minted m subject start token made exp) :
    Dated m subject start token made exp := by
  have hcap := start_add_ttl_lt start
  have httl : 0 < sessionTTL := by decide
  induction h with
  | @issued token exp h =>
    have henc := issue_ok h
    have hexp : exp = start + sessionTTL := by
      unfold issue at h
      dsimp only at h
      rw [henc] at h
      exact (Prod.mk.inj (Except.ok.inj h)).2.symm
    subst hexp
    exact ⟨henc, Int.le_refl start, by omega, Int.le_refl _, hcap.le⟩
  | @renewed token token' made exp now exp' sub earlier hle h ih =>
    obtain ⟨hexp, hnew, henc⟩ := ih.renewal h
    have hstart := ih.start_le
    exact ⟨henc, by omega, hnew, by omega, by omega⟩

end Renewals

section Json

variable {mac : List UInt8 → Vector UInt8 32} {username : String} {start : ℤ}

theorem issue_json (mac : List UInt8 → Vector UInt8 32) (username : String) (start : ℤ) :
    ∃ token, (jsonManager mac).issue username start = .ok (token, start + sessionTTL) :=
  ⟨_, rfl⟩

theorem unixMilli_add (t ms : ℤ) : unixMilli (t + ofUnixMilli ms) = unixMilli t + ms := by
  unfold unixMilli ofUnixMilli
  omega

theorem unixMilli_absoluteCap (start : ℤ) :
    unixMilli (absoluteCap start) = unixMilli start + 43200000 := by
  unfold absoluteCap unixMilli ofUnixMilli maxAbsoluteSessionTTL
  omega

theorem unixMilli_mono {t u : ℤ} (h : t ≤ u) : unixMilli t ≤ unixMilli u := by
  unfold unixMilli
  omega

/-- An accepted token was read, so its claims fit. -/
theorem Accepted.fits {c : Claims} {token : List UInt8} {exp : ℤ}
    (h : Accepted (jsonManager mac) username token exp)
    (henc : (jsonManager mac).encode c = .ok token) : Fits c := by
  by_contra hfits
  have hverify := h.verify (exp - 1) (by omega)
  unfold SessionManager.verify at hverify
  rw [decodeAndVerify_json henc, if_neg hfits] at hverify
  cases hverify

theorem Usable.fits (h : Usable (jsonManager mac) username start) {token : List UInt8}
    {made exp : ℤ} (hminted : Minted (jsonManager mac) username start token made exp) :
    Fits ⟨username, unixMilli start, unixMilli exp⟩ :=
  (h.accepted token made exp hminted).fits hminted.dated.encode_eq

/-- Renewed a nanosecond before each expiry, the expiry comes close to a full window further each
time until it is at the cap. -/
theorem Usable.exists_minted (h : Usable (jsonManager mac) username start) (k : ℕ) :
    ∃ token made exp, Minted (jsonManager mac) username start token made exp ∧
      min (start + (k + 1) * sessionTTL - k) (absoluteCap start) ≤ exp := by
  induction k with
  | zero =>
    obtain ⟨token, hissue⟩ := issue_json mac username start
    refine ⟨token, start, _, .issued hissue, ?_⟩
    rw [Int.natCast_zero]
    omega
  | succ k ih =>
    obtain ⟨token, made, exp, hminted, hexp⟩ := ih
    obtain ⟨token', exp', hrenew⟩ := (h.accepted token made exp hminted).renew (exp - 1) (by omega)
    have hdated := hminted.dated
    have hmade := hdated.made_lt
    refine ⟨token', exp - 1, exp', .renewed hminted (by omega) hrenew, ?_⟩
    have hnext : start + ((k + 1 : ℕ) + 1) * sessionTTL - (k + 1 : ℕ) =
        start + (k + 1) * sessionTTL - k + sessionTTL - 1 := by
      push_cast
      ring
    obtain ⟨hexp', -, -⟩ := hdated.renewal hrenew
    rw [hnext, hexp']
    rcases min_le_iff.mp hexp with hwindow | hcap
    · exact min_le_min_right _ (by omega)
    · have httl : 1 ≤ sessionTTL := by decide
      have hstep : absoluteCap start ≤ exp - 1 + sessionTTL := by omega
      rw [min_eq_right hstep]
      exact min_le_right _ _

/-- After a day of such renewals an expiry is at the cap. -/
theorem Usable.exists_capped (h : Usable (jsonManager mac) username start) :
    ∃ token made, Minted (jsonManager mac) username start token made (absoluteCap start) := by
  obtain ⟨token, made, exp, hminted, hexp⟩ := h.exists_minted 24
  have hle := hminted.dated.exp_le
  have hcap : absoluteCap start ≤ start + ((24 : ℕ) + 1) * sessionTTL - (24 : ℕ) := by
    unfold absoluteCap ofUnixMilli unixMilli sessionTTL maxAbsoluteSessionTTL
    omega
  rw [min_eq_right hcap] at hexp
  obtain rfl := Int.le_antisymm hle hexp
  exact ⟨token, made, hminted⟩

/-- Of a short subject, every expiry of the login fits beside it. -/
theorem Short.fits (h : Short username start) {token : List UInt8} {made exp : ℤ}
    (hdated : Dated (jsonManager mac) username start token made exp) :
    Fits ⟨username, unixMilli start, unixMilli exp⟩ := by
  have hfirst : unixMilli start + 1800000 ≤ unixMilli exp := by
    rw [← unixMilli_add]
    exact unixMilli_mono hdated.ttl_le
  have hlast : unixMilli exp ≤ unixMilli start + 43200000 := by
    rw [← unixMilli_absoluteCap]
    exact unixMilli_mono hdated.exp_le
  have hdigits := length_intText_le hfirst hlast
  have hshort : textSize (escaped username) + (intText (unixMilli start)).length +
      max (intText (unixMilli start + 1800000)).length
        (intText (unixMilli start + 43200000)).length ≤ maxClaimsBytes := h
  exact (Nat.add_le_add_left hdigits _).trans hshort

/-- A token whose claims fit is accepted up to its expiry. -/
theorem accepted_of_fits {token : List UInt8} {made exp : ℤ}
    (hdated : Dated (jsonManager mac) username start token made exp)
    (hfits : Fits ⟨username, unixMilli start, unixMilli exp⟩) :
    Accepted (jsonManager mac) username token exp := by
  have hdecode := decodeAndVerify_json hdated.encode_eq
  rw [if_pos hfits] at hdecode
  refine ⟨fun now hnow => ?_, fun now hnow => ?_⟩
  · unfold SessionManager.verify
    rw [hdecode]
    exact if_neg (not_lt.mpr (unixMilli_mono hnow.le))
  · have hexp := hdated.exp_le
    have httl : 0 < sessionTTL := by decide
    have hnew : now < newExpiry ⟨username, unixMilli start, unixMilli exp⟩ now := by
      rw [newExpiry_eq_min]
      omega
    exact ⟨_, _, renew_of_decode hdecode (unixMilli_mono hnow.le) hnew rfl⟩

end Json

/-- A login gives a usable session exactly when the subject is short enough for its claims. -/
theorem usable_iff_short (mac : List UInt8 → Vector UInt8 32) (username : String) (start : ℤ) :
    Usable (jsonManager mac) username start ↔ Short username start := by
  constructor
  · intro h
    obtain ⟨token, hissue⟩ := issue_json mac username start
    obtain ⟨token', made, hcapped⟩ := h.exists_capped
    have hfirst := h.fits (.issued hissue)
    have hlast := h.fits hcapped
    unfold Fits at hfirst hlast
    rw [show sessionTTL = ofUnixMilli 1800000 from rfl, unixMilli_add] at hfirst
    rw [unixMilli_absoluteCap] at hlast
    dsimp only at hfirst hlast
    unfold Short
    dsimp only
    omega
  · exact fun h => ⟨⟨_, _, (issue_json mac username start).choose_spec⟩,
      fun token made exp hminted => accepted_of_fits hminted.dated (h.fits hminted.dated)⟩

/-- Instants of 13 digits leave room for 242 bytes, however they are escaped. -/
theorem short_of_size {username : String} {start : ℤ} (hsize : textSize username.toList ≤ 242)
    (hfrom : 0 ≤ unixMilli start) (hto : unixMilli start + 43200000 < 10000000000000) :
    Short username start := by
  have hescaped := textSize_escaped_le username
  have hdigits {z : ℤ} (hz : 0 ≤ z) (hlt : z ≤ 9999999999999) : (intText z).length ≤ 13 :=
    length_intText_le hz hlt
  have hissued := hdigits hfrom (by omega)
  have hfirst := hdigits (z := unixMilli start + 1800000) (by omega) (by omega)
  have hlast := hdigits (z := unixMilli start + 43200000) (by omega) (by omega)
  unfold Short maxClaimsBytes
  dsimp only
  omega

/-- Six bytes of JSON stand for each `<`, which makes the token of a login with 256 of them longer
than what is read. -/
theorem markup_login_unusable :
    let username := String.ofList (List.replicate 256 '<')
    checkCredentials username "secret" = none ∧
      ∀ mac start, ¬ Usable (jsonManager mac) username start := by
  refine ⟨by decide +kernel, fun mac start h => ?_⟩
  obtain ⟨token, hissue⟩ := issue_json mac (String.ofList (List.replicate 256 '<')) start
  have hfits := h.fits (.issued hissue)
  have hsize : textSize (escaped (String.ofList (List.replicate 256 '<'))) = 1536 := by
    unfold escaped
    rw [String.toList_ofList]
    decide +kernel
  unfold Fits maxClaimsBytes at hfits
  dsimp only at hfits
  omega

end VyosClient.UsableSession
