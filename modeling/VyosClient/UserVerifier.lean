import VyosClient.ImageReference
import VyosClient.PathStore
import Mathlib.Data.List.Infix

/-!
The check of a login against VyOS's own users, with the work it does: the lookups it makes and
the crypt computations. Every lookup is made whatever the others found, and a dummy hash stands
in for one that is missing; a stored hash that no crypt scheme takes is rejected before anything
is computed. The crypt library is a parameter.
-/

namespace VyosClient.UserVerifier

open ImageReference PathStore

/-- A path of the VyOS configuration. -/
abbrev Path := List String

/-- The schemes that are registered: MD5, SHA-256, SHA-512 and Apache's MD5. -/
def cryptPrefixes : List Text := ["$1$".toList, "$5$".toList, "$6$".toList, "$apr1$".toList]

/-- The crypt library: a hash is supported by its prefix; `verify` computes the crypt of a plaintext
under the scheme and the salt of a hash and compares both. -/
structure Crypt where
  isHashSupported : Text → Bool
  verify : Text → Text → Bool
  isHashSupported_iff : ∀ hash, isHashSupported hash = true ↔ ∃ p ∈ cryptPrefixes, p <+: hash

/-- An error of VyOS's API, or of reaching it. -/
inductive ConfigError
  | api (statusCode : ℕ) (message : Text)
  | unreachable (message : Text)
deriving DecidableEq, Repr

def isEmptyPath : ConfigError → Bool
  | .api statusCode message => statusCode == 400 && decide ("is empty".toList <:+: message)
  | .unreachable _ => false

/-- `Exists` is `pathExists` here. -/
structure ConfigReader where
  returnValue : Path → Except ConfigError Text
  pathExists : Path → Except ConfigError Bool

/-- What a check does that takes time. -/
inductive Event
  | pathExists (path : Path)
  | returnValue (path : Path)
  | crypt (hash : Text)
deriving DecidableEq, Repr

/-- `ErrAuthBackendUnavailable`, with what the lookup was for. -/
structure Unavailable where
  doing : String
  cause : ConfigError
deriving DecidableEq, Repr

abbrev CheckM := ExceptT Unavailable (StateM (List Event))

def event (e : Event) : StateM (List Event) Unit := modify (· ++ [e])

def verifyUnixCrypt (crypt : Crypt) (hash plaintext : Text) : StateM (List Event) Bool := do
  if hash = [] ∨ hash = ['*'] ∨ ['!'] <+: hash then return false
  if ¬ crypt.isHashSupported hash then return false
  event (.crypt hash)
  return crypt.verify hash plaintext

def dummyHashForTiming : Text :=
  "$6$rounds=656000$Xk3mQ9vTz2LpRw7B$FOVqmY5Cqecii9m4VruriUDj5VAZWRmeMd7WSBs74FgdvVd5KY2mgB/z6X32HiDePW6Ir4inE6tiqzdtTZGUH1".toList

def userPath (username : String) (suffix : Path) : Path :=
  ["system", "login", "user", username] ++ suffix

section Check

variable (crypt : Crypt) (config : ConfigReader)

def lookupExists (path : Path) (doing : String) : CheckM Bool := do
  event (.pathExists path)
  match config.pathExists path with
  | .ok found => return found
  | .error err => throw ⟨doing, err⟩

/-- A path without a value reads as the empty text. -/
def lookupValue (path : Path) (doing : String) : CheckM Text := do
  event (.returnValue path)
  match config.returnValue path with
  | .ok value => return value
  | .error err => if isEmptyPath err then return [] else throw ⟨doing, err⟩

def checkM (username : String) (password : Text) : CheckM Bool := do
  if username = "" then
    let _ ← verifyUnixCrypt crypt dummyHashForTiming password
    return false
  let found ← lookupExists config (userPath username []) "checking user exists"
  let disabled ← lookupExists config (userPath username ["disable"]) "checking disable flag"
  let stored ← lookupValue config (userPath username ["authentication", "encrypted-password"])
    "reading encrypted-password"
  let noPassword := stored = []
  let hash := if noPassword then dummyHashForTiming else stored
  let operator ← lookupExists config (userPath username ["operator"]) "checking operator flag"
  let passwordMatches ← verifyUnixCrypt crypt hash password
  if ¬ found ∨ disabled ∨ noPassword ∨ operator then return false
  return passwordMatches

/-- The result of a check and the events it took. -/
def check (username : String) (password : Text) : Except Unavailable Bool × List Event :=
  (checkM crypt config username password).run.run []

end Check

theorem not_supported_of_locked (crypt : Crypt) {hash : Text}
    (h : hash = [] ∨ hash = ['*'] ∨ ['!'] <+: hash) : crypt.isHashSupported hash = false := by
  rw [Bool.eq_false_iff, ne_eq, crypt.isHashSupported_iff]
  rintro ⟨p, hp, rest, rfl⟩
  simp only [cryptPrefixes, List.mem_cons, List.not_mem_nil, or_false] at hp
  rcases hp with rfl | rfl | rfl | rfl
  all_goals
    rcases h with h | h | ⟨rest', h⟩
    · cases h
    · cases h
    · cases h

/-- The crypt is computed once for a supported hash, and never else. -/
theorem run_verifyUnixCrypt (crypt : Crypt) (hash plaintext : Text) (events : List Event) :
    (verifyUnixCrypt crypt hash plaintext).run events =
      if crypt.isHashSupported hash then (crypt.verify hash plaintext, events ++ [.crypt hash])
      else (false, events) := by
  unfold verifyUnixCrypt
  by_cases hlocked : hash = [] ∨ hash = ['*'] ∨ ['!'] <+: hash
  · rw [if_pos hlocked, not_supported_of_locked crypt hlocked]
    rfl
  · rw [if_neg hlocked]
    cases hsupported : crypt.isHashSupported hash with
    | true => rfl
    | false => rfl

section ErrorFree

/-- No lookup fails but for a path that is empty. -/
structure ErrorFree (config : ConfigReader) : Prop where
  exists_ok : ∀ path, ∃ found, config.pathExists path = .ok found
  value_ok : ∀ path, (∃ value, config.returnValue path = .ok value) ∨
    ∃ err, config.returnValue path = .error err ∧ isEmptyPath err = true

/-- What the lookups of a configuration find. -/
def found (config : ConfigReader) (path : Path) : Bool :=
  match config.pathExists path with
  | .ok found => found
  | .error _ => false

def value (config : ConfigReader) (path : Path) : Text :=
  match config.returnValue path with
  | .ok value => value
  | .error _ => []

variable {config : ConfigReader}

theorem run_lookupExists (h : ErrorFree config) (path : Path) (doing : String)
    (events : List Event) :
    (lookupExists config path doing).run.run events =
      (.ok (found config path), events ++ [.pathExists path]) := by
  obtain ⟨b, hb⟩ := h.exists_ok path
  unfold lookupExists found
  rw [hb]
  rfl

theorem run_lookupValue (h : ErrorFree config) (path : Path) (doing : String)
    (events : List Event) :
    (lookupValue config path doing).run.run events =
      (.ok (value config path), events ++ [.returnValue path]) := by
  unfold lookupValue value
  rcases h.value_ok path with ⟨v, hv⟩ | ⟨err, herr, hempty⟩
  · rw [hv]
    rfl
  · rw [herr]
    dsimp only
    rw [if_pos hempty]
    rfl

/-- The password hash that is stored for a user, empty when there is none. -/
def storedHash (config : ConfigReader) (username : String) : Text :=
  value config (userPath username ["authentication", "encrypted-password"])

/-- The hash a check computes with. -/
def checkedHash (config : ConfigReader) (username : String) : Text :=
  if storedHash config username = [] then dummyHashForTiming else storedHash config username

/-- The four lookups of a check on a user. -/
def userLookups (username : String) : List Event :=
  [.pathExists (userPath username []), .pathExists (userPath username ["disable"]),
    .returnValue (userPath username ["authentication", "encrypted-password"]),
    .pathExists (userPath username ["operator"])]

/-- The user may log in with a password: it exists, is neither disabled nor an operator, and has a
hash which the password matches. -/
def MayLogIn (crypt : Crypt) (config : ConfigReader) (username : String) (password : Text) : Prop :=
  found config (userPath username []) = true ∧
    found config (userPath username ["disable"]) = false ∧
    found config (userPath username ["operator"]) = false ∧
    storedHash config username ≠ [] ∧
    crypt.isHashSupported (storedHash config username) = true ∧
    crypt.verify (storedHash config username) password = true

instance (crypt : Crypt) (config : ConfigReader) (username : String) (password : Text) :
    Decidable (MayLogIn crypt config username password) :=
  inferInstanceAs (Decidable (_ ∧ _ ∧ _ ∧ _ ∧ _ ∧ _))

/-- A step that succeeds hands its value and its events to the next one. -/
theorem run_bind_ok {α β : Type} {m : CheckM α} {k : α → CheckM β} {events events' : List Event}
    {a : α} (h : m.run.run events = (.ok a, events')) :
    (m >>= k).run.run events = (k a).run.run events' := by
  rw [ExceptT.run_bind, StateT.run_bind, h]
  rfl

theorem run_lift {α : Type} (m : StateM (List Event) α) (events : List Event) :
    (liftM m : CheckM α).run.run events = (.ok (m.run events).1, (m.run events).2) := rfl

/-- What `check` refuses before it looks at the password. -/
def Refused (config : ConfigReader) (username : String) : Prop :=
  ¬ found config (userPath username []) = true ∨
    found config (userPath username ["disable"]) = true ∨
    storedHash config username = [] ∨ found config (userPath username ["operator"]) = true

theorem not_mayLogIn_of_refused {crypt : Crypt} {username : String} {password : Text}
    (h : Refused config username) : ¬ MayLogIn crypt config username password := by
  rintro ⟨hfound, hdisabled, hoperator, hhash, -⟩
  rcases h with hr | hr | hr | hr
  · exact hr hfound
  · rw [hdisabled] at hr
    cases hr
  · exact hhash hr
  · rw [hoperator] at hr
    cases hr

theorem mayLogIn_iff_of_not_refused {crypt : Crypt} {username : String} {password : Text}
    (h : ¬ Refused config username) : MayLogIn crypt config username password ↔
      crypt.isHashSupported (storedHash config username) = true ∧
        crypt.verify (storedHash config username) password = true := by
  unfold Refused at h
  push Not at h
  obtain ⟨hfound, hdisabled, hstored, hoperator⟩ := h
  exact ⟨fun hmay => hmay.2.2.2.2, fun hhash => ⟨hfound, Bool.eq_false_iff.mpr hdisabled,
    Bool.eq_false_iff.mpr hoperator, hstored, hhash⟩⟩

/-- What a check does without API errors. -/
theorem check_eq (crypt : Crypt) (h : ErrorFree config) {username : String} (hname : username ≠ "")
    (password : Text) :
    check crypt config username password =
      (.ok (decide (MayLogIn crypt config username password)),
        userLookups username ++
          if crypt.isHashSupported (checkedHash config username) then
            [.crypt (checkedHash config username)]
          else []) := by
  unfold check checkM
  rw [if_neg hname, run_bind_ok (run_lookupExists h _ _ _), run_bind_ok (run_lookupExists h _ _ _),
    run_bind_ok (run_lookupValue h _ _ _)]
  dsimp only
  rw [run_bind_ok (run_lookupExists h _ _ _), run_bind_ok (run_lift _ _), run_verifyUnixCrypt]
  have hhash : (if value config (userPath username ["authentication", "encrypted-password"]) = [] then
      dummyHashForTiming else value config (userPath username ["authentication",
        "encrypted-password"])) = checkedHash config username := rfl
  rw [hhash]
  by_cases hrefused : ¬ found config (userPath username []) = true ∨
      found config (userPath username ["disable"]) = true ∨
      value config (userPath username ["authentication", "encrypted-password"]) = [] ∨
      found config (userPath username ["operator"]) = true
  · rw [if_pos hrefused, decide_eq_false (not_mayLogIn_of_refused hrefused)]
    cases crypt.isHashSupported (checkedHash config username) <;> rfl
  · have hstored : storedHash config username ≠ [] := fun hempty =>
      hrefused (Or.inr (Or.inr (Or.inl hempty)))
    have hown : checkedHash config username = storedHash config username := if_neg hstored
    have hmay : decide (MayLogIn crypt config username password) =
        (crypt.isHashSupported (storedHash config username) &&
          crypt.verify (storedHash config username) password) := by
      rw [Bool.eq_iff_iff, decide_eq_true_iff, Bool.and_eq_true]
      exact mayLogIn_iff_of_not_refused hrefused
    rw [if_neg hrefused, hmay, hown]
    cases crypt.isHashSupported (storedHash config username) <;> rfl

theorem isHashSupported_dummy (crypt : Crypt) : crypt.isHashSupported dummyHashForTiming = true :=
  (crypt.isHashSupported_iff _).mpr ⟨"$6$".toList, by decide, by decide +kernel⟩

/-- A crypt computation, of whatever hash. -/
def Event.isCrypt : Event → Bool
  | .crypt _ => true
  | _ => false

def lookups (events : List Event) : List Event := events.filter fun e => !e.isCrypt

/-- The number of crypt computations. -/
def computations (events : List Event) : ℕ := events.countP Event.isCrypt

theorem lookups_check (crypt : Crypt) (h : ErrorFree config) {username : String}
    (hname : username ≠ "") (password : Text) :
    lookups (check crypt config username password).2 = userLookups username := by
  rw [check_eq crypt h hname]
  cases crypt.isHashSupported (checkedHash config username) <;> rfl

theorem computations_check (crypt : Crypt) (h : ErrorFree config) {username : String}
    (hname : username ≠ "") (password : Text) :
    computations (check crypt config username password).2 =
      if crypt.isHashSupported (checkedHash config username) then 1 else 0 := by
  rw [check_eq crypt h hname]
  cases crypt.isHashSupported (checkedHash config username) <;> rfl

/-- The check of the user is right, makes the four lookups in order and computes one crypt. -/
structure Uniform (crypt : Crypt) (config : ConfigReader) (username : String) (password : Text) :
    Prop where
  result : (check crypt config username password).1 =
    .ok (decide (MayLogIn crypt config username password))
  lookups_eq : lookups (check crypt config username password).2 = userLookups username
  computations_eq : computations (check crypt config username password).2 = 1

/-- The stored hash is absent, or one of a crypt scheme. -/
def Computable (crypt : Crypt) (config : ConfigReader) (username : String) : Prop :=
  storedHash config username = [] ∨ crypt.isHashSupported (storedHash config username) = true

theorem uniform_iff_computable (crypt : Crypt) (h : ErrorFree config) {username : String}
    (hname : username ≠ "") (password : Text) :
    Uniform crypt config username password ↔ Computable crypt config username := by
  have hcount := computations_check crypt h hname password
  constructor
  · intro huniform
    rw [huniform.computations_eq] at hcount
    by_cases hstored : storedHash config username = []
    · exact Or.inl hstored
    · have hown : checkedHash config username = storedHash config username := if_neg hstored
      rw [hown] at hcount
      by_contra hnot
      rw [if_neg fun hsupported => hnot (Or.inr hsupported)] at hcount
      cases hcount
  · intro hcomputable
    have hsupported : crypt.isHashSupported (checkedHash config username) = true := by
      unfold checkedHash
      split
      · exact isHashSupported_dummy crypt
      · rename_i hstored
        exact hcomputable.resolve_left hstored
    rw [if_pos hsupported] at hcount
    exact ⟨by rw [check_eq crypt h hname], lookups_check crypt h hname password, hcount⟩

end ErrorFree

/-- A hash of `s3cret-password`. -/
def sha512Hash : Text :=
  "$6$rounds=656000$abcdefgh12345678$NfvnoGuhAz5oOjKyC6pSHO0sPqZU3KrV9btt6Y44Xid5mfIvhs09St1DB4WceEf4LlIY7MZ4iXldwNudBJoPH.".toList

/-- The crypt library on this hash. -/
def sha512Crypt : Crypt where
  isHashSupported hash := cryptPrefixes.any (·.isPrefixOf hash)
  verify hash plaintext := hash == sha512Hash && plaintext == "s3cret-password".toList
  isHashSupported_iff hash := by simp only [List.any_eq_true, List.isPrefixOf_iff_prefix]

/-- VyOS with one user and its password hash. -/
def oneUser (username : String) (hash : Text) : ConfigReader where
  returnValue path :=
    if path = userPath username ["authentication", "encrypted-password"] then .ok hash
    else .error (.api 400 "Configuration under specified path is empty".toList)
  pathExists path := .ok (path = userPath username [] || path =
    userPath username ["authentication", "encrypted-password"])

theorem errorFree_oneUser (username : String) (hash : Text) :
    ErrorFree (oneUser username hash) := by
  refine ⟨fun path => ⟨_, rfl⟩, fun path => ?_⟩
  by_cases hpath : path = userPath username ["authentication", "encrypted-password"]
  · exact Or.inl ⟨hash, if_pos hpath⟩
  · exact Or.inr ⟨_, if_neg hpath, by decide +kernel⟩

end VyosClient.UserVerifier
