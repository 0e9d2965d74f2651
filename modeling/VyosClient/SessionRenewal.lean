import VyosClient.Base64
import VyosClient.Separators
import Mathlib.Algebra.Order.Ring.Int
import Mathlib.Tactic.Ring

/-!
Session tokens as strings: signed claims that are issued at a login and renewed
by the requests that follow. Instants are integers, in nanoseconds since the
Unix epoch; the claims hold milliseconds, which drop what is below. The JSON text
of claims and the HMAC under the secret come from the standard library.
-/

namespace VyosClient.SessionRenewal

open Base64 Separators

/-- 30 minutes. -/
def sessionTTL : ℤ := 1800000000000

/-- 12 hours. -/
def maxAbsoluteSessionTTL : ℤ := 43200000000000

def maxTokenLength : ℕ := 2048

inductive TokenError
  | invalidToken
  | expiredToken
  | marshal
deriving DecidableEq, Repr

def unixMilli (t : ℤ) : ℤ := t / 1000000

/-- `time.UnixMilli`. -/
def ofUnixMilli (ms : ℤ) : ℤ := ms * 1000000

/-- Instants in milliseconds. -/
structure Claims where
  subject : String
  issuedAt : ℤ
  expiresAt : ℤ
deriving DecidableEq, Repr

/-- `json.Marshal` and `json.Unmarshal` on claims, and the HMAC-SHA256 under the manager's secret.
Claims that were marshalled are read back. -/
structure SessionManager where
  marshal : Claims → Option (List UInt8)
  unmarshal : List UInt8 → Option Claims
  hmac : List UInt8 → List UInt8
  unmarshal_marshal : ∀ c payload, marshal c = some payload → unmarshal payload = some c

namespace SessionManager

variable (m : SessionManager)

def sign (payloadB64 : List UInt8) : List UInt8 := m.hmac payloadB64

/-- The payload and its signature, with a dot between. -/
def encode (c : Claims) : Except TokenError (List UInt8) :=
  match m.marshal c with
  | none => .error .marshal
  | some payload =>
    let payloadB64 := encodeToString payload
    .ok (payloadB64 ++ 46 :: encodeToString (m.sign payloadB64))

def issue (subject : String) (now : ℤ) : Except TokenError (List UInt8 × ℤ) :=
  let exp := now + sessionTTL
  match m.encode ⟨subject, unixMilli now, unixMilli exp⟩ with
  | .error err => .error err
  | .ok token => .ok (token, exp)

def decodeAndVerify (token : List UInt8) : Except TokenError Claims :=
  if token.length > maxTokenLength then .error .invalidToken
  else
    match token.idxOf? 46 with
    | none => .error .invalidToken
    | some dot =>
      let payloadB64 := token.take dot
      let sigB64 := token.drop (dot + 1)
      match decodeString sigB64 with
      | none => .error .invalidToken
      | some sig =>
        if sig ≠ m.sign payloadB64 then .error .invalidToken
        else
          match (decodeString payloadB64).bind m.unmarshal with
          | none => .error .invalidToken
          | some c => .ok c

def verify (token : List UInt8) (now : ℤ) : Except TokenError String :=
  match m.decodeAndVerify token with
  | .error err => .error err
  | .ok c => if unixMilli now > c.expiresAt then .error .expiredToken else .ok c.subject

/-- The new expiry, capped by the absolute one. -/
def newExpiry (c : Claims) (now : ℤ) : ℤ :=
  let absoluteCap := ofUnixMilli c.issuedAt + maxAbsoluteSessionTTL
  let newExp := now + sessionTTL
  if newExp > absoluteCap then absoluteCap else newExp

def renew (token : List UInt8) (now : ℤ) : Except TokenError (List UInt8 × ℤ × String) :=
  match m.decodeAndVerify token with
  | .error err => .error err
  | .ok c =>
    if unixMilli now > c.expiresAt then .error .expiredToken
    else
      let newExp := newExpiry c now
      if ¬ newExp > now then .error .expiredToken
      else
        match m.encode ⟨c.subject, c.issuedAt, unixMilli newExp⟩ with
        | .error err => .error err
        | .ok token => .ok (token, newExp, c.subject)

variable {m}

/-- A token made from claims is read as these claims, unless it is too long. -/
theorem decodeAndVerify_encode {c : Claims} {token : List UInt8} (h : m.encode c = .ok token) :
    m.decodeAndVerify token =
      if token.length > maxTokenLength then .error .invalidToken else .ok c := by
  unfold encode at h
  cases hpayload : m.marshal c with
  | none =>
    rw [hpayload] at h
    cases h
  | some payload =>
    rw [hpayload] at h
    dsimp only at h
    injection h with h
    subst h
    have hdot := idxOf?_append_cons (dot_notMem_encodeToString payload)
      (encodeToString (m.sign (encodeToString payload)))
    have htake : (encodeToString payload ++ 46 :: encodeToString
        (m.sign (encodeToString payload))).take (encodeToString payload).length =
          encodeToString payload := List.take_left
    have hdrop : (encodeToString payload ++ 46 :: encodeToString
        (m.sign (encodeToString payload))).drop ((encodeToString payload).length + 1) =
          encodeToString (m.sign (encodeToString payload)) := by
      rw [← List.drop_drop, List.drop_left]
      rfl
    unfold decodeAndVerify
    rw [hdot]
    dsimp only
    rw [htake, hdrop, decodeString_encodeToString, decodeString_encodeToString]
    dsimp only
    rw [Option.bind_some, m.unmarshal_marshal c payload hpayload]
    split
    · rfl
    · exact if_neg fun hne => hne rfl

end SessionManager

open SessionManager

/-- The tokens of one login, each with the instant it was made: the first one from `Issue`, every
other one from `Renew` of the one before, at a time not earlier. -/
inductive Chain (m : SessionManager) (subject : String) (start : ℤ) : List UInt8 → ℤ → Prop
  | issued {token : List UInt8} {exp : ℤ} (h : m.issue subject start = .ok (token, exp)) :
      Chain m subject start token start
  | renewed {token token' : List UInt8} {made now exp : ℤ} {sub : String}
      (earlier : Chain m subject start token made) (hle : made ≤ now)
      (h : m.renew token now = .ok (token', exp, sub)) : Chain m subject start token' now

/-- What a token of the chain carries: the subject and the time of the login, and an expiry within
both bounds. -/
structure Carries (m : SessionManager) (subject : String) (start made : ℤ) (token : List UInt8)
    (c : Claims) : Prop where
  encode_eq : m.encode c = .ok token
  subject_eq : c.subject = subject
  issuedAt_eq : c.issuedAt = unixMilli start
  absolute : ofUnixMilli c.expiresAt ≤ start + maxAbsoluteSessionTTL
  sliding : ofUnixMilli c.expiresAt ≤ made + sessionTTL

theorem ofUnixMilli_unixMilli_le (t : ℤ) : ofUnixMilli (unixMilli t) ≤ t := by
  unfold ofUnixMilli unixMilli
  omega

theorem newExpiry_le (c : Claims) (now : ℤ) :
    newExpiry c now ≤ now + sessionTTL ∧
      newExpiry c now ≤ ofUnixMilli c.issuedAt + maxAbsoluteSessionTTL := by
  unfold newExpiry
  dsimp only
  split <;> omega

/-- What a renewal that goes through read and made. -/
theorem renew_ok {m : SessionManager} {token token' : List UInt8} {now exp : ℤ} {sub : String}
    (h : m.renew token now = .ok (token', exp, sub)) :
    ∃ c, m.decodeAndVerify token = .ok c ∧ unixMilli now ≤ c.expiresAt ∧ now < newExpiry c now ∧
      m.encode ⟨c.subject, c.issuedAt, unixMilli (newExpiry c now)⟩ = .ok token' := by
  unfold renew at h
  cases hc : m.decodeAndVerify token with
  | error err =>
    rw [hc] at h
    cases h
  | ok c =>
    rw [hc] at h
    dsimp only at h
    by_cases hexp : unixMilli now > c.expiresAt
    · rw [if_pos hexp] at h
      cases h
    · rw [if_neg hexp] at h
      by_cases hcap : newExpiry c now > now
      · rw [if_neg (not_not_intro hcap)] at h
        cases henc : m.encode ⟨c.subject, c.issuedAt, unixMilli (newExpiry c now)⟩ with
        | error err =>
          rw [henc] at h
          cases h
        | ok t =>
          rw [henc] at h
          cases h
          exact ⟨c, rfl, not_lt.mp hexp, hcap, henc⟩
      · rw [if_pos hcap] at h
        cases h

/-- A token of the chain that is read at all gives the claims it carries. -/
theorem Carries.decode {m : SessionManager} {subject : String} {start made : ℤ}
    {token : List UInt8} {c c' : Claims} (h : Carries m subject start made token c)
    (hdecode : m.decodeAndVerify token = .ok c') : c' = c := by
  rw [decodeAndVerify_encode h.encode_eq] at hdecode
  split at hdecode
  · cases hdecode
  · injection hdecode with heq
    exact heq.symm

theorem issue_ok {m : SessionManager} {subject : String} {now exp : ℤ} {token : List UInt8}
    (h : m.issue subject now = .ok (token, exp)) :
    m.encode ⟨subject, unixMilli now, unixMilli (now + sessionTTL)⟩ = .ok token := by
  unfold issue at h
  dsimp only at h
  cases henc : m.encode ⟨subject, unixMilli now, unixMilli (now + sessionTTL)⟩ with
  | error err =>
    rw [henc] at h
    cases h
  | ok t =>
    rw [henc] at h
    cases h
    rfl

theorem sessionTTL_le : sessionTTL ≤ maxAbsoluteSessionTTL := by decide

/-- By induction on the chain: a renewal keeps the subject and the time of the login, and both bounds
hold of the expiry it computes, which the milliseconds only bring forward. -/
theorem Chain.carries {m : SessionManager} {subject : String} {start made : ℤ}
    {token : List UInt8} (h : Chain m subject start token made) :
    ∃ c, Carries m subject start made token c := by
  induction h with
  | issued h =>
    have hfloor := ofUnixMilli_unixMilli_le (start + sessionTTL)
    have hle := sessionTTL_le
    exact ⟨_, issue_ok h, rfl, rfl, by dsimp only; omega, hfloor⟩
  | @renewed token token' made now exp sub earlier hle h ih =>
    obtain ⟨c, hc⟩ := ih
    obtain ⟨c', hdecode, -, -, henc⟩ := renew_ok h
    have hcc := hc.decode hdecode
    subst hcc
    obtain ⟨hslide, habs⟩ := newExpiry_le c' now
    have hfloor := ofUnixMilli_unixMilli_le (newExpiry c' now)
    have hstart := ofUnixMilli_unixMilli_le start
    rw [hc.issuedAt_eq] at habs
    exact ⟨_, henc, hc.subject_eq, hc.issuedAt_eq, by dsimp only; omega, hfloor.trans hslide⟩

theorem le_unixMilli {ms t : ℤ} (h : ofUnixMilli ms ≤ t) : ms ≤ unixMilli t := by
  unfold ofUnixMilli at h
  unfold unixMilli
  omega

/-- A verified token has not passed the millisecond of its expiry. -/
theorem Carries.verify_ok {m : SessionManager} {subject sub : String} {start made now : ℤ}
    {token : List UInt8} {c : Claims} (h : Carries m subject start made token c)
    (hok : m.verify token now = .ok sub) : unixMilli now ≤ c.expiresAt ∧ sub = subject := by
  unfold verify at hok
  cases hdecode : m.decodeAndVerify token with
  | error err =>
    rw [hdecode] at hok
    cases hok
  | ok c' =>
    have hcc := h.decode hdecode
    subst hcc
    rw [hdecode] at hok
    dsimp only at hok
    by_cases hexp : unixMilli now > c'.expiresAt
    · rw [if_pos hexp] at hok
      cases hok
    · rw [if_neg hexp] at hok
      injection hok with hok
      exact ⟨not_lt.mp hexp, hok.symm.trans h.subject_eq⟩

/-- A renewed token has not passed the millisecond of its expiry, nor the absolute bound. -/
theorem Carries.renew_ok {m : SessionManager} {subject : String} {start made now : ℤ}
    {token : List UInt8} {c : Claims} (h : Carries m subject start made token c)
    {r : List UInt8 × ℤ × String} (hok : m.renew token now = .ok r) :
    unixMilli now ≤ c.expiresAt ∧ now < start + maxAbsoluteSessionTTL := by
  obtain ⟨token', exp, sub⟩ := r
  obtain ⟨c', hdecode, hexp, hnew, -⟩ := SessionRenewal.renew_ok hok
  have hcc := h.decode hdecode
  subst hcc
  obtain ⟨-, habs⟩ := newExpiry_le c' now
  have hstart := ofUnixMilli_unixMilli_le start
  rw [h.issuedAt_eq] at habs
  exact ⟨hexp, by omega⟩

/-- Every token of a chain carries the subject and the time of the login and an expiry within both
bounds. `Renew` rejects it after the absolute bound, `Verify` after the millisecond of that bound,
and after the millisecond in which it is 30 minutes old nothing continues the chain from it. -/
theorem chain_bounded (m : SessionManager) (subject : String) (start : ℤ) {token : List UInt8}
    {made : ℤ} (h : Chain m subject start token made) :
    (∃ c, Carries m subject start made token c) ∧
    (∀ now, unixMilli (start + maxAbsoluteSessionTTL) < unixMilli now →
      ∀ sub, m.verify token now ≠ .ok sub) ∧
    (∀ now, start + maxAbsoluteSessionTTL < now → ∀ r, m.renew token now ≠ .ok r) ∧
    (∀ now, unixMilli (made + sessionTTL) < unixMilli now → ∀ r, m.renew token now ≠ .ok r) := by
  obtain ⟨c, hc⟩ := h.carries
  refine ⟨⟨c, hc⟩, fun now hlate sub hok => ?_, fun now hlate r hok => ?_,
    fun now hlate r hok => ?_⟩
  · have hexp := (hc.verify_ok hok).1
    have hbound := le_unixMilli hc.absolute
    omega
  · have hbound := (hc.renew_ok hok).2
    omega
  · have hexp := (hc.renew_ok hok).1
    have hbound := le_unixMilli hc.sliding
    omega

/-- The manager makes a token of every claims about a subject, short enough to be read. -/
def Signs (m : SessionManager) (subject : String) : Prop :=
  ∀ issuedAt expiresAt, ∃ token, m.encode ⟨subject, issuedAt, expiresAt⟩ = .ok token ∧
    token.length ≤ maxTokenLength

theorem decode_of_signs {m : SessionManager} {c : Claims} {token : List UInt8}
    (h : m.encode c = .ok token) (hlen : token.length ≤ maxTokenLength) :
    m.decodeAndVerify token = .ok c := by
  rw [decodeAndVerify_encode h, if_neg (not_lt.mpr hlen)]

/-- A renewal in time, before the absolute bound is near. -/
theorem renew_eq {m : SessionManager} {c : Claims} {token token' : List UInt8} {now : ℤ}
    (h : m.decodeAndVerify token = .ok c) (htime : unixMilli now ≤ c.expiresAt)
    (hcap : now + sessionTTL ≤ ofUnixMilli c.issuedAt + maxAbsoluteSessionTTL)
    (henc : m.encode ⟨c.subject, c.issuedAt, unixMilli (now + sessionTTL)⟩ = .ok token') :
    m.renew token now = .ok (token', now + sessionTTL, c.subject) := by
  have hnew : newExpiry c now = now + sessionTTL := if_neg (not_lt.mpr hcap)
  have hpos : now + sessionTTL > now := by
    have httl : 0 < sessionTTL := by decide
    omega
  unfold renew
  rw [h]
  dsimp only
  rw [if_neg (not_lt.mpr htime), hnew, if_neg (not_not_intro hpos), henc]

/-- Renewed every 30 minutes, the chain of a login at a full millisecond reaches the absolute bound. -/
theorem exists_chain_half_hours {m : SessionManager} {subject : String} (hsigns : Signs m subject)
    (ms : ℤ) (k : ℕ) (hk : k ≤ 23) :
    ∃ token, Chain m subject (ofUnixMilli ms) token (ofUnixMilli ms + k * sessionTTL) ∧
      m.encode ⟨subject, ms, ms + (k + 1) * 1800000⟩ = .ok token ∧
      token.length ≤ maxTokenLength := by
  have hmilli : ∀ j : ℤ, unixMilli (ofUnixMilli ms + j * sessionTTL) = ms + j * 1800000 := by
    intro j
    unfold unixMilli ofUnixMilli sessionTTL
    omega
  induction k with
  | zero =>
    obtain ⟨token, henc, hlen⟩ := hsigns ms (ms + (0 + 1) * 1800000)
    have hstart : unixMilli (ofUnixMilli ms) = ms := by simpa using hmilli 0
    have hexp : unixMilli (ofUnixMilli ms + sessionTTL) = ms + (0 + 1) * 1800000 := by
      simpa using hmilli 1
    have hissue : m.issue subject (ofUnixMilli ms) =
        .ok (token, ofUnixMilli ms + sessionTTL) := by
      unfold issue
      dsimp only
      rw [hstart, hexp, henc]
    refine ⟨token, ?_, by simpa using henc, hlen⟩
    simpa using Chain.issued hissue
  | succ k ih =>
    obtain ⟨token, hchain, henc, hlen⟩ := ih (by omega)
    obtain ⟨token', henc', hlen'⟩ := hsigns ms (ms + (k + 1 + 1) * 1800000)
    have hnow := hmilli (k + 1)
    have hnext : ofUnixMilli ms + (k + 1) * sessionTTL + sessionTTL =
        ofUnixMilli ms + ((k : ℤ) + 1 + 1) * sessionTTL := by ring
    have hcap : ofUnixMilli ms + ((k : ℤ) + 1) * sessionTTL + sessionTTL ≤
        ofUnixMilli ms + maxAbsoluteSessionTTL := by
      unfold sessionTTL maxAbsoluteSessionTTL
      omega
    have hrenew := renew_eq (decode_of_signs henc hlen) hnow.le hcap
      (by rw [hnext, hmilli]; exact henc')
    refine ⟨token', ?_, by push_cast; exact henc', hlen'⟩
    push_cast
    exact Chain.renewed hchain (by unfold sessionTTL; omega) hrenew

def ascii (text : String) : List UInt8 := text.toList.map fun c => UInt8.ofNat c.toNat

/-- The login of `admin` at 1700000000000 ms, and the token made half an hour later. -/
def firstClaims : Claims := ⟨"admin", 1700000000000, 1700001800000⟩

def secondClaims : Claims := ⟨"admin", 1700000000000, 1700003600000⟩

def firstPayload : List UInt8 :=
  ascii "\x7b\"sub\":\"admin\",\"iat\":1700000000000,\"exp\":1700001800000\x7d"

def secondPayload : List UInt8 :=
  ascii "\x7b\"sub\":\"admin\",\"iat\":1700000000000,\"exp\":1700003600000\x7d"

theorem firstPayload_ne : secondPayload ≠ firstPayload := by decide

/-- The JSON texts of both claims, and the HMAC-SHA256 of their encodings under the secret
`0123456789abcdef0123456789abcdef`. -/
def adminManager : SessionManager where
  marshal c :=
    if c = firstClaims then some firstPayload
    else if c = secondClaims then some secondPayload else none
  unmarshal payload :=
    if payload = firstPayload then some firstClaims
    else if payload = secondPayload then some secondClaims else none
  hmac payloadB64 :=
    if payloadB64 = encodeToString firstPayload then
      [9, 119, 65, 125, 197, 229, 85, 1, 115, 95, 210, 75, 62, 134, 61, 228, 244, 52, 122, 252, 242,
        161, 16, 56, 69, 140, 42, 225, 94, 189, 91, 135]
    else
      [198, 120, 154, 21, 72, 83, 220, 197, 137, 228, 46, 242, 147, 237, 8, 119, 189, 80, 198, 196,
        180, 181, 106, 136, 174, 79, 195, 55, 94, 151, 151, 19]
  unmarshal_marshal := by
    intro c payload h
    split_ifs at h with h₁ h₂
    · injection h with h
      rw [← h, h₁]
      exact if_pos rfl
    · injection h with h
      rw [← h, h₂, if_neg firstPayload_ne]
      exact if_pos rfl

def firstToken : List UInt8 :=
  encodeToString firstPayload ++ 46 :: encodeToString (adminManager.sign (encodeToString firstPayload))

def secondToken : List UInt8 :=
  encodeToString secondPayload ++
    46 :: encodeToString (adminManager.sign (encodeToString secondPayload))

theorem encode_firstClaims : adminManager.encode firstClaims = .ok firstToken := by
  have hmarshal : adminManager.marshal firstClaims = some firstPayload := by
    dsimp only [adminManager]
    rw [if_pos rfl]
  unfold encode
  rw [hmarshal]
  rfl

theorem encode_secondClaims : adminManager.encode secondClaims = .ok secondToken := by
  have hne : secondClaims ≠ firstClaims := by decide
  have hmarshal : adminManager.marshal secondClaims = some secondPayload := by
    dsimp only [adminManager]
    rw [if_neg hne, if_pos rfl]
  unfold encode
  rw [hmarshal]
  rfl

theorem length_firstToken : firstToken.length ≤ maxTokenLength := by
  have hpayload := length_encodeToString_le firstPayload
  have hsig := length_encodeToString_le (adminManager.sign (encodeToString firstPayload))
  have htext : firstPayload.length = 55 := by decide
  have hmac : (adminManager.sign (encodeToString firstPayload)).length = 32 := by
    dsimp only [sign, adminManager]
    rw [if_pos rfl]
    rfl
  unfold firstToken maxTokenLength
  rw [List.length_append, List.length_cons]
  omega

theorem chain_firstToken :
    Chain adminManager "admin" 1700000000000500000 firstToken 1700000000000500000 := by
  have hissue : adminManager.issue "admin" 1700000000000500000 =
      .ok (firstToken, 1700001800000500000) := by
    unfold issue
    dsimp only
    rw [show (⟨"admin", unixMilli 1700000000000500000,
      unixMilli (1700000000000500000 + sessionTTL)⟩ : Claims) = firstClaims from by decide,
      encode_firstClaims]
    rfl
  exact Chain.issued hissue

/-- Half an hour and a nanosecond after the first token was made, in the same millisecond. -/
theorem renew_firstToken :
    adminManager.renew firstToken 1700001800000500001 =
      .ok (secondToken, 1700003600000500001, "admin") :=
  renew_eq (decode_of_signs encode_firstClaims length_firstToken) (by decide) (by decide)
    encode_secondClaims

theorem chain_secondToken :
    Chain adminManager "admin" 1700000000000500000 secondToken 1700001800000500001 :=
  Chain.renewed chain_firstToken (by decide) renew_firstToken

/-- A token is renewed more than 30 minutes after it was made, within the millisecond. And a manager
that signs every claims of a subject verifies a token of a chain more than 12 hours after its login,
within the millisecond. -/
theorem renewed_after_30_minutes :
    (∃ token made now r, Chain adminManager "admin" 1700000000000500000 token made ∧
      made + sessionTTL < now ∧ adminManager.renew token now = .ok r) ∧
    ∀ m : SessionManager, Signs m "admin" →
      ∃ token made now, Chain m "admin" (ofUnixMilli 1700000000000) token made ∧
        ofUnixMilli 1700000000000 + maxAbsoluteSessionTTL < now ∧
        m.verify token now = .ok "admin" := by
  constructor
  · exact ⟨firstToken, _, _, _, chain_firstToken, by decide, renew_firstToken⟩
  · intro m hsigns
    obtain ⟨token, hchain, henc, hlen⟩ := exists_chain_half_hours hsigns 1700000000000 23 le_rfl
    refine ⟨token, _, ofUnixMilli 1700000000000 + maxAbsoluteSessionTTL + 1, hchain, by omega, ?_⟩
    unfold verify
    rw [decode_of_signs henc hlen]
    exact if_neg (by decide)

/-- The second token of the login carries its subject and time, and ends with its millisecond. -/
theorem secondToken_bounded :
    (∃ c, Carries adminManager "admin" 1700000000000500000 1700001800000500001 secondToken c) ∧
      (∀ r, adminManager.renew secondToken 1700003600001500001 ≠ .ok r) ∧
      ∀ sub, adminManager.verify secondToken 1700043200001500000 ≠ .ok sub :=
  ⟨(chain_bounded adminManager "admin" _ chain_secondToken).1,
    (chain_bounded adminManager "admin" _ chain_secondToken).2.2.2 _ (by decide),
    (chain_bounded adminManager "admin" _ chain_secondToken).2.1 _ (by decide)⟩

end VyosClient.SessionRenewal
