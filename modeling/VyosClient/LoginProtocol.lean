import VyosClient.LoginAccounting
import VyosClient.LoginBackoff
import VyosClient.SourceKey
import VyosClient.UsableSession
import VyosClient.UserVerifier

/-!
Logins in flight. A handler checks the body, peeks at the limiter, waits for one of the slots that
bound the concurrent verifications, reserves an attempt, has the credentials checked without any
lock, tells the limiter how that ended, and gives its slot back. The steps of the handlers come in
any order; what they share is the limiter and the channel of slots.
-/

namespace VyosClient.LoginProtocol

open ImageReference RateLimit LoginAccounting UserVerifier Runs

structure LoginRequest where
  username : String
  password : String
deriving DecidableEq, Repr

/-- An error with its text, and a `Retry-After` in whole seconds; or the user of a new session. -/
inductive Answer
  | error (statusCode : ℕ) (message : String) (retryAfter : Option ℤ)
  | loggedIn (user : String)
deriving DecidableEq, Repr

/-- The capacity of `loginVerifySlots`. -/
def maxVerifications : ℕ := 2

/-- What `handleLogin` checks of the body alone; a body that does not decode is `none`. -/
def checkBody : Option LoginRequest → Except Answer LoginRequest
  | none => .error (.error 400 "malformed request" none)
  | some req =>
    match UsableSession.checkCredentials req.username req.password with
    | some message => .error (.error 400 message none)
    | none => .ok req

/-- `int(wait.Seconds())`, and one second at least. -/
def tooManyAttempts (wait : ℤ) : Answer :=
  .error 429 "too many failed login attempts, try again later" (some (max 1 (wait / 1000000000)))

def unavailable : Answer :=
  .error 503 "unable to verify credentials right now, try again shortly" none

def invalidCredentials : Answer := .error 401 "invalid credentials" none

/-- The two verifiers: the shared account with its bcrypt hash, or the users of VyOS. -/
inductive Verifier
  | static (adminUser : String) (adminHash : Text) (compareHashAndPassword : Text → Text → Bool)
  | vyosUsers (crypt : Crypt)

/-- `VerifyPassword`. -/
def verifyPassword (compareHashAndPassword : Text → Text → Bool) (hash plaintext : Text) : Bool :=
  if hash = [] then false else compareHashAndPassword hash plaintext

/-- What `Verify` does between `Reserve` and the end. The reader gives the answers of VyOS's API to
the lookups of this check, whatever happens to the configuration meanwhile. -/
def Verifier.check (config : ConfigReader) (req : LoginRequest) : Verifier → Outcome
  | .static adminUser adminHash compareHashAndPassword =>
    let userOK := req.username = adminUser
    let passOK := verifyPassword compareHashAndPassword adminHash req.password.toList
    if ¬ userOK ∨ ¬ passOK then .refused else .accepted
  | .vyosUsers crypt =>
    match (UserVerifier.check crypt config req.username req.password.toList).1 with
    | .error _ => .failed
    | .ok false => .refused
    | .ok true => .accepted

/-- The answer after the check; `issued` tells whether the token and its cookies could be set. -/
def answer (req : LoginRequest) (issued : Bool) : Outcome → Answer
  | .failed => unavailable
  | .refused => invalidCredentials
  | .accepted => if issued then .loggedIn req.username else .error 500 "internal error" none

/-- Where a handler stands. -/
inductive Phase
  | waiting (req : LoginRequest)
  | entered (req : LoginRequest)
  | checking (req : LoginRequest)
  | replying (a : Answer)
  | done (a : Answer)
deriving DecidableEq, Repr

/-- The phases between the send to `loginVerifySlots` and the deferred receive. -/
def Phase.holds : Phase → Bool
  | .waiting _ => false
  | .entered _ => true
  | .checking _ => true
  | .replying _ => true
  | .done _ => false

def Phase.isDone : Phase → Bool
  | .done _ => true
  | _ => false

/-- The steps a handler still has to take. -/
def Phase.rank : Phase → ℕ
  | .waiting _ => 4
  | .entered _ => 3
  | .checking _ => 2
  | .replying _ => 1
  | .done _ => 0

structure Login where
  key : String
  phase : Phase
deriving DecidableEq, Repr

structure Shared where
  limiter : LoginLimiter
  slots : ℕ

/-- The steps of one handler. -/
inductive Action
  | acquire
  | cancel
  | reserve (c : ReserveClock)
  | settle (config : ConfigReader) (issued : Bool)
  | release

/-- A step where it can be taken: a send needs room in the channel, a receive needs a value. -/
def Login.act (v : Verifier) (shared : Shared) (l : Login) : Action → Option (Shared × Phase)
  | .acquire =>
    match l.phase with
    | .waiting req =>
      if shared.slots < maxVerifications then
        some ({ shared with slots := shared.slots + 1 }, .entered req)
      else none
    | _ => none
  | .cancel =>
    match l.phase with
    | .waiting _ => some (shared, .done unavailable)
    | _ => none
  | .reserve c =>
    match l.phase with
    | .entered req =>
      match shared.limiter.reserve l.key c with
      | (limiter, true, _) => some ({ shared with limiter }, .checking req)
      | (limiter, false, _) => some ({ shared with limiter }, .replying invalidCredentials)
    | _ => none
  | .settle config issued =>
    match l.phase with
    | .checking req =>
      some ({ shared with
          limiter := LoginAccounting.settle shared.limiter l.key (v.check config req) },
        .replying (answer req issued (v.check config req)))
    | _ => none
  | .release =>
    match l.phase with
    | .replying a =>
      if 0 < shared.slots then some ({ shared with slots := shared.slots - 1 }, .done a) else none
    | _ => none

/-- What the handlers share, and the handlers in the order of their requests. -/
structure Server extends Shared where
  logins : List Login

/-- A request comes in from an address, or a handler takes a step. -/
inductive Event
  | arrive (remoteAddr : Text) (body : Option LoginRequest) (c : AllowClock)
  | act (i : ℕ) (a : Action)

def Event.isArrival : Event → Bool
  | .arrive _ _ _ => true
  | .act _ _ => false

/-- The client hangs up. -/
def Event.isCancel : Event → Bool
  | .act _ .cancel => true
  | _ => false

/-- The key of a request, from the address of the connecting peer. -/
def keyOf (remoteAddr : Text) : String := String.ofList (SourceKey.sourceKey remoteAddr)

/-- A handler up to the channel, with what it leaves of the limiter. -/
def arrival (limiter : LoginLimiter) (key : String) (body : Option LoginRequest) (c : AllowClock) :
    LoginLimiter × Phase :=
  match checkBody body with
  | .error a => (limiter, .done a)
  | .ok req =>
    match limiter.allow key c with
    | (limiter, true, _) => (limiter, .waiting req)
    | (limiter, false, wait) => (limiter, .done (tooManyAttempts wait))

namespace Server

variable (v : Verifier) (s : Server)

def step : Event → Server
  | .arrive remoteAddr body c =>
    let (limiter, phase) := arrival s.limiter (keyOf remoteAddr) body c
    { s with limiter, logins := s.logins ++ [⟨keyOf remoteAddr, phase⟩] }
  | .act i a =>
    match s.logins[i]? with
    | none => s
    | some l =>
      match l.act v s.toShared a with
      | none => s
      | some (shared, phase) => ⟨shared, s.logins.set i { l with phase }⟩

/-- The handlers that hold a slot. -/
def holders : ℕ := s.logins.countP fun l => l.phase.holds

/-- The steps all handlers still have to take. -/
def work : ℕ := s.logins.foldr (fun l n => l.phase.rank + n) 0

end Server

def start (limiter : LoginLimiter) : Server := ⟨⟨limiter, 0⟩, []⟩

/-- What a step of a handler does, by where the handler stands. -/
inductive Acts (v : Verifier) (shared : Shared) (key : String) :
    Phase → Action → Shared → Phase → Prop
  | acquire (req : LoginRequest) (room : shared.slots < maxVerifications) :
    Acts v shared key (.waiting req) .acquire { shared with slots := shared.slots + 1 }
      (.entered req)
  | cancel (req : LoginRequest) :
    Acts v shared key (.waiting req) .cancel shared (.done unavailable)
  | granted (req : LoginRequest) (c : ReserveClock)
    (grant : (shared.limiter.reserve key c).2.1 = true) :
    Acts v shared key (.entered req) (.reserve c)
      { shared with limiter := (shared.limiter.reserve key c).1 } (.checking req)
  | denied (req : LoginRequest) (c : ReserveClock)
    (grant : (shared.limiter.reserve key c).2.1 = false) :
    Acts v shared key (.entered req) (.reserve c)
      { shared with limiter := (shared.limiter.reserve key c).1 } (.replying invalidCredentials)
  | settle (req : LoginRequest) (config : ConfigReader) (issued : Bool) :
    Acts v shared key (.checking req) (.settle config issued)
      { shared with limiter := LoginAccounting.settle shared.limiter key (v.check config req) }
      (.replying (answer req issued (v.check config req)))
  | release (a : Answer) (taken : 0 < shared.slots) :
    Acts v shared key (.replying a) .release { shared with slots := shared.slots - 1 } (.done a)

section Step

variable {v : Verifier} {shared shared' : Shared} {key : String} {phase phase' : Phase} {a : Action}
  {s : Server}

theorem acts_of_act (h : Login.act v shared ⟨key, phase⟩ a = some (shared', phase')) :
    Acts v shared key phase a shared' phase' := by
  cases a with
  | acquire =>
    cases phase with
    | waiting req =>
      simp only [Login.act] at h
      split at h
      · cases h
        exact .acquire req ‹_›
      · cases h
    | _ => cases h
  | cancel =>
    cases phase with
    | waiting req =>
      cases h
      exact .cancel req
    | _ => cases h
  | reserve c =>
    cases phase with
    | entered req =>
      simp only [Login.act] at h
      split at h
      · rename_i heq
        cases h
        have hlimiter := congrArg Prod.fst heq
        subst hlimiter
        exact .granted req c (congrArg (·.2.1) heq)
      · rename_i heq
        cases h
        have hlimiter := congrArg Prod.fst heq
        subst hlimiter
        exact .denied req c (congrArg (·.2.1) heq)
    | _ => cases h
  | settle config issued =>
    cases phase with
    | checking req =>
      cases h
      exact .settle req config issued
    | _ => cases h
  | release =>
    cases phase with
    | replying answer =>
      simp only [Login.act] at h
      split at h
      · cases h
        exact .release answer ‹_›
      · cases h
    | _ => cases h

/-- Every step of a handler is one of the steps it still has to take. -/
theorem Acts.rank_lt (h : Acts v shared key phase a shared' phase') : phase'.rank < phase.rank := by
  cases h <;> simp [Phase.rank]

/-- A slot is taken with the send and given back with the receive. -/
theorem Acts.slots_eq (h : Acts v shared key phase a shared' phase') :
    shared'.slots + phase.holds.toNat = shared.slots + phase'.holds.toNat := by
  cases h with
  | release answer taken =>
    simp only [Phase.holds, Bool.toNat_true, Bool.toNat_false]
    omega
  | _ => rfl

theorem Acts.slots_le (h : Acts v shared key phase a shared' phase')
    (hle : shared.slots ≤ maxVerifications) : shared'.slots ≤ maxVerifications := by
  cases h with
  | acquire req room => exact room
  | release answer taken => exact (Nat.sub_le _ _).trans hle
  | _ => exact hle

theorem holds_arrival (limiter : LoginLimiter) (key : String) (body : Option LoginRequest)
    (c : AllowClock) : (arrival limiter key body c).2.holds = false := by
  unfold arrival
  split
  · rfl
  · split <;> rfl

theorem step_of_act {i : ℕ} (hl : s.logins[i]? = some ⟨key, phase⟩)
    (hact : Login.act v s.toShared ⟨key, phase⟩ a = some (shared', phase')) :
    s.step v (.act i a) = ⟨shared', s.logins.set i ⟨key, phase'⟩⟩ := by
  simp only [Server.step, hl, hact]

theorem step_of_act_none {i : ℕ} (hl : s.logins[i]? = some ⟨key, phase⟩)
    (hact : Login.act v s.toShared ⟨key, phase⟩ a = none) : s.step v (.act i a) = s := by
  simp only [Server.step, hl, hact]

/-- A step adds a handler, or is a step of one, or is none. -/
theorem step_cases (v : Verifier) (s : Server) (e : Event) :
    e.isArrival = true ∨ s.step v e = s ∨
      ∃ i a key phase shared' phase', e = .act i a ∧ s.logins[i]? = some ⟨key, phase⟩ ∧
        Acts v s.toShared key phase a shared' phase' ∧
        s.step v e = ⟨shared', s.logins.set i ⟨key, phase'⟩⟩ := by
  cases e with
  | arrive remoteAddr body c => exact Or.inl rfl
  | act i a =>
    refine Or.inr ?_
    cases hl : s.logins[i]? with
    | none => exact Or.inl (by simp only [Server.step, hl])
    | some l =>
      cases hact : l.act v s.toShared a with
      | none => exact Or.inl (step_of_act_none hl hact)
      | some next =>
        exact Or.inr ⟨i, a, l.key, l.phase, next.1, next.2, rfl, hl, acts_of_act hact,
          step_of_act hl hact⟩

/-- The slots taken are those the handlers hold. -/
structure Accounted (s : Server) : Prop where
  slots_eq : s.slots = s.holders
  slots_le : s.slots ≤ maxVerifications

theorem accounted_start (limiter : LoginLimiter) : Accounted (start limiter) :=
  ⟨rfl, Nat.zero_le _⟩

/-- One element of a list is replaced: what is counted changes by it alone. -/
theorem countP_set_add {α : Type} (p : α → Bool) {xs : List α} {i : ℕ} {x : α}
    (hx : xs[i]? = some x) (y : α) :
    (xs.set i y).countP p + (p x).toNat = xs.countP p + (p y).toNat := by
  obtain ⟨hi, rfl⟩ := List.getElem?_eq_some_iff.mp hx
  have hle : (if p xs[i] then 1 else 0) ≤ xs.countP p := by
    split
    · rename_i hholds
      exact List.countP_pos_iff.mpr ⟨_, List.getElem_mem hi, hholds⟩
    · exact Nat.zero_le _
  rw [List.countP_set hi]
  generalize xs.countP p = n at hle ⊢
  generalize p xs[i] = old at hle ⊢
  generalize p y = new
  cases old <;> cases new <;> simp at hle ⊢ <;> omega

theorem Accounted.step (h : Accounted s) (e : Event) : Accounted (s.step v e) := by
  rcases step_cases v s e with harrive | hsame |
    ⟨i, a, key, phase, shared', phase', rfl, hl, hact, hstep⟩
  · cases e with
    | act i a => cases harrive
    | arrive remoteAddr body c =>
      have hnew : (arrival s.limiter (keyOf remoteAddr) body c).2.holds = false :=
        holds_arrival _ _ _ _
      refine ⟨?_, h.slots_le⟩
      show s.slots = List.countP _ (s.logins ++ [⟨_, (arrival s.limiter _ body c).2⟩])
      rw [List.countP_append, List.countP_singleton, hnew]
      exact h.slots_eq
  · rw [hsame]
    exact h
  · rw [hstep]
    have hset := countP_set_add (fun l => l.phase.holds) hl ⟨key, phase'⟩
    have hslots := hact.slots_eq
    have heq := h.slots_eq
    unfold Server.holders at heq
    dsimp only at hset
    refine ⟨?_, hact.slots_le h.slots_le⟩
    show shared'.slots = List.countP _ (s.logins.set i _)
    omega

theorem work_set {logins : List Login} {i : ℕ} (hl : logins[i]? = some ⟨key, phase⟩)
    (phase' : Phase) :
    (logins.set i ⟨key, phase'⟩).foldr (fun l n => l.phase.rank + n) 0 + phase.rank =
      logins.foldr (fun l n => l.phase.rank + n) 0 + phase'.rank := by
  induction logins generalizing i with
  | nil => cases hl
  | cons l logins ih =>
    cases i with
    | zero =>
      cases hl
      simp only [List.set_cons_zero, List.foldr_cons]
      omega
    | succ i =>
      have hrest := ih hl
      simp only [List.set_cons_succ, List.foldr_cons]
      omega

theorem work_step_lt {e : Event} (harrive : e.isArrival = false) (h : s.step v e ≠ s) :
    (s.step v e).work < s.work := by
  rcases step_cases v s e with hnew | hsame |
    ⟨i, a, key, phase, shared', phase', rfl, hl, hact, hstep⟩
  · rw [harrive] at hnew
    cases hnew
  · exact absurd hsame h
  · rw [hstep]
    have hset := work_set hl phase'
    have hrank := hact.rank_lt
    show List.foldr _ 0 (s.logins.set i _) < List.foldr _ 0 s.logins
    omega

theorem work_le (s : Server) : s.work ≤ 4 * s.logins.length := by
  unfold Server.work
  induction s.logins with
  | nil => exact Nat.zero_le _
  | cons l logins ih =>
    have hrank : l.phase.rank ≤ 4 := by cases l.phase <;> simp [Phase.rank]
    simp only [List.foldr_cons, List.length_cons]
    omega

/-- A step that is taken changes the phases of the handlers. -/
theorem step_ne {i : ℕ} (hl : s.logins[i]? = some ⟨key, phase⟩)
    (hact : Login.act v s.toShared ⟨key, phase⟩ a = some (shared', phase')) :
    s.step v (.act i a) ≠ s := by
  intro heq
  have hset := work_set hl phase'
  have hrank := (acts_of_act hact).rank_lt
  have hwork : (s.step v (.act i a)).work = s.work := congrArg Server.work heq
  rw [step_of_act hl hact] at hwork
  unfold Server.work at hwork
  dsimp only at hwork
  omega

/-- A login that is not answered has a step to take, or another one has the slot it waits for. -/
theorem exists_step (h : Accounted s) (hopen : ∃ l ∈ s.logins, l.phase.isDone = false) :
    ∃ e, e.isArrival = false ∧ e.isCancel = false ∧ s.step v e ≠ s := by
  have hmoves : ∀ l ∈ s.logins, l.phase.holds = true →
      ∃ e, e.isArrival = false ∧ e.isCancel = false ∧ s.step v e ≠ s := by
    rintro ⟨key, phase⟩ hmem hholds
    obtain ⟨i, hl⟩ := List.mem_iff_getElem?.mp hmem
    cases phase with
    | waiting req => cases hholds
    | done answer => cases hholds
    | entered req =>
      have hact : ∃ next,
          Login.act v s.toShared ⟨key, .entered req⟩ (.reserve (.at 0)) = some next := by
        simp only [Login.act]
        split <;> exact ⟨_, rfl⟩
      obtain ⟨next, hact⟩ := hact
      exact ⟨.act i (.reserve (.at 0)), rfl, rfl, step_ne hl hact⟩
    | checking req =>
      exact ⟨.act i (.settle ⟨fun _ => .ok [], fun _ => .ok false⟩ false), rfl, rfl, step_ne hl rfl⟩
    | replying answer =>
      have htaken : 0 < s.slots := by
        rw [h.slots_eq]
        exact List.countP_pos_iff.mpr ⟨_, hmem, hholds⟩
      exact ⟨.act i .release, rfl, rfl, step_ne hl (if_pos htaken)⟩
  obtain ⟨⟨key, phase⟩, hmem, hdone⟩ := hopen
  cases hholds : phase.holds with
  | true => exact hmoves _ hmem hholds
  | false =>
    obtain ⟨i, hl⟩ := List.mem_iff_getElem?.mp hmem
    cases phase with
    | waiting req =>
      by_cases hroom : s.slots < maxVerifications
      · exact ⟨.act i .acquire, rfl, rfl, step_ne hl (if_pos hroom)⟩
      · have hpos : 0 < s.holders := by
          rw [← h.slots_eq]
          unfold maxVerifications at hroom
          omega
        obtain ⟨l, hl, hholds⟩ := List.countP_pos_iff.mp hpos
        exact hmoves l hl hholds
    | done answer => cases hdone
    | _ => cases hholds

end Step

section Accepts

variable {crypt : Crypt} {config : ConfigReader}

/-- What a check returned, each of its parts returned. -/
theorem bind_ok {α β : Type} {m : CheckM α} {k : α → CheckM β} {events : List UserVerifier.Event}
    {b : β} (h : ((m >>= k).run.run events).1 = .ok b) :
    ∃ a events', m.run.run events = (.ok a, events') ∧ ((k a).run.run events').1 = .ok b := by
  rw [ExceptT.run_bind, StateT.run_bind] at h
  generalize hm : m.run.run events = first at h
  obtain ⟨r, events'⟩ := first
  cases r with
  | error e => cases h
  | ok a => exact ⟨a, events', rfl, h⟩

theorem lookupExists_ok {path : Path} {doing : String} {events events' : List UserVerifier.Event}
    {b : Bool} (h : (lookupExists config path doing).run.run events = (.ok b, events')) :
    found config path = b := by
  unfold lookupExists at h
  unfold found
  cases hpath : config.pathExists path with
  | error e =>
    rw [hpath] at h
    cases h
  | ok b' =>
    rw [hpath] at h
    cases h
    rfl

theorem lookupValue_ok {path : Path} {doing : String} {events events' : List UserVerifier.Event}
    {stored : Text} (h : (lookupValue config path doing).run.run events = (.ok stored, events')) :
    value config path = stored := by
  unfold lookupValue at h
  unfold value
  cases hpath : config.returnValue path with
  | ok stored' =>
    rw [hpath] at h
    cases h
    rfl
  | error e =>
    rw [hpath] at h
    dsimp only at h
    cases hempty : isEmptyPath e with
    | false =>
      rw [hempty] at h
      cases h
    | true =>
      rw [hempty] at h
      cases h
      rfl

/-- A check that accepts found a user who may log in with the password, also where other lookups of
it could have failed. -/
theorem mayLogIn_of_check {username : String} {password : Text}
    (h : (UserVerifier.check crypt config username password).1 = .ok true) :
    MayLogIn crypt config username password := by
  unfold UserVerifier.check checkM at h
  by_cases hname : username = ""
  · rw [if_pos hname] at h
    obtain ⟨b, events, -, h⟩ := bind_ok h
    cases h
  · rw [if_neg hname] at h
    obtain ⟨userFound, events₁, hfound, h⟩ := bind_ok h
    obtain ⟨disabled, events₂, hdisabled, h⟩ := bind_ok h
    obtain ⟨stored, events₃, hstored, h⟩ := bind_ok h
    obtain ⟨operator, events₄, hoperator, h⟩ := bind_ok h
    obtain ⟨passwordMatches, events₅, hmatches, h⟩ := bind_ok h
    have hstored' : storedHash config username = stored := lookupValue_ok hstored
    by_cases hrefused : ¬ userFound = true ∨ disabled = true ∨ stored = [] ∨ operator = true
    · rw [if_pos hrefused] at h
      cases h
    · rw [if_neg hrefused] at h
      have hpass : passwordMatches = true := by
        injection h
      subst hpass
      push Not at hrefused
      obtain ⟨huser, hdis, hhash, hop⟩ := hrefused
      rw [if_neg hhash, run_lift, run_verifyUnixCrypt] at hmatches
      cases hsupported : crypt.isHashSupported stored with
      | false =>
        rw [hsupported] at hmatches
        cases hmatches
      | true =>
        rw [hsupported] at hmatches
        have hverify : crypt.verify stored password = true := by
          have := congrArg Prod.fst hmatches
          simpa using this
        refine ⟨(lookupExists_ok hfound).trans huser, ?_, ?_, ?_, ?_, ?_⟩
        · exact (lookupExists_ok hdisabled).trans (Bool.eq_false_iff.mpr hdis)
        · exact (lookupExists_ok hoperator).trans (Bool.eq_false_iff.mpr hop)
        · rw [hstored']
          exact hhash
        · rw [hstored']
          exact hsupported
        · rw [hstored']
          exact hverify

/-- The credentials are those of the shared account, or of a user of VyOS who may log in. -/
def Verifier.Accepts (config : ConfigReader) (req : LoginRequest) : Verifier → Prop
  | .static adminUser adminHash compareHashAndPassword =>
    req.username = adminUser ∧ adminHash ≠ [] ∧
      compareHashAndPassword adminHash req.password.toList = true
  | .vyosUsers crypt => MayLogIn crypt config req.username req.password.toList

theorem accepts_of_check {v : Verifier} {req : LoginRequest}
    (h : v.check config req = .accepted) : v.Accepts config req := by
  cases v with
  | static adminUser adminHash compareHashAndPassword =>
    simp only [Verifier.check] at h
    by_cases hwrong : ¬ req.username = adminUser ∨
        ¬ verifyPassword compareHashAndPassword adminHash req.password.toList = true
    · rw [if_pos hwrong] at h
      cases h
    · push Not at hwrong
      obtain ⟨huser, hpass⟩ := hwrong
      unfold verifyPassword at hpass
      by_cases hhash : adminHash = []
      · rw [if_pos hhash] at hpass
        cases hpass
      · rw [if_neg hhash] at hpass
        exact ⟨huser, hhash, hpass⟩
  | vyosUsers crypt =>
    simp only [Verifier.check] at h
    split at h
    · cases h
    · cases h
    · exact mayLogIn_of_check ‹_›

end Accepts

section Runs

variable {v : Verifier} {s : Server} {key : String} {phase : Phase} {i : ℕ} {e : Event}

theorem Accounted.run (h : Accounted s) (run : List Event) :
    Accounted (run.foldl (Server.step v) s) := by
  induction run generalizing s with
  | nil => exact h
  | cons e run ih => exact ih (h.step e)

theorem step_arrive (v : Verifier) (s : Server) (remoteAddr : Text) (body : Option LoginRequest)
    (c : AllowClock) : (s.step v (.arrive remoteAddr body c)).logins =
      s.logins ++ [⟨keyOf remoteAddr, (arrival s.limiter (keyOf remoteAddr) body c).2⟩] := rfl

/-- Where a handler stands after a step: where it stood, at the start, or one step further. -/
theorem getElem?_step (h : (s.step v e).logins[i]? = some ⟨key, phase⟩) :
    s.logins[i]? = some ⟨key, phase⟩ ∨
      (∃ limiter body c, phase = (arrival limiter key body c).2) ∨
      ∃ a old shared', e = .act i a ∧ s.logins[i]? = some ⟨key, old⟩ ∧
        Acts v s.toShared key old a shared' phase := by
  rcases step_cases v s e with harrive | hsame |
    ⟨j, a, key', old, shared', phase', rfl, hl, hact, hstep⟩
  · cases e with
    | act i a => cases harrive
    | arrive remoteAddr body c =>
      rw [step_arrive] at h
      rcases Nat.lt_or_ge i s.logins.length with hi | hi
      · rw [List.getElem?_append_left hi] at h
        exact Or.inl h
      · rw [List.getElem?_append_right hi] at h
        obtain ⟨hzero, hlogin⟩ := List.getElem?_eq_some_iff.mp h
        rw [List.getElem_singleton] at hlogin
        cases hlogin
        exact Or.inr (Or.inl ⟨_, _, _, rfl⟩)
  · rw [hsame] at h
    exact Or.inl h
  · rw [hstep] at h
    by_cases hij : j = i
    · subst hij
      obtain ⟨hj, -⟩ := List.getElem?_eq_some_iff.mp hl
      rw [List.getElem?_set_self hj] at h
      cases h
      exact Or.inr (Or.inr ⟨a, old, shared', rfl, hl, hact⟩)
    · rw [List.getElem?_set_ne hij] at h
      exact Or.inl h

/-- The handler answers that the user is logged in, or has answered so. -/
def Phase.LoggedIn (user : String) (phase : Phase) : Prop :=
  phase = .replying (.loggedIn user) ∨ phase = .done (.loggedIn user)

theorem checkBody_ne (body : Option LoginRequest) (user : String) :
    checkBody body ≠ .error (.loggedIn user) := by
  unfold checkBody
  split
  · exact fun h => by cases h
  · split <;> exact fun h => by cases h

theorem not_loggedIn_arrival (limiter : LoginLimiter) (key : String) (body : Option LoginRequest)
    (c : AllowClock) (user : String) : ¬ (arrival limiter key body c).2.LoggedIn user := by
  unfold arrival
  cases hbody : checkBody body with
  | error a =>
    rintro (h | h)
    · cases h
    · cases h
      exact checkBody_ne body user hbody
  | ok req =>
    dsimp only
    split <;> rintro (h | h) <;> cases h

/-- Only a check that accepts makes a handler answer so. -/
theorem Acts.loggedIn {shared shared' : Shared} {old : Phase} {a : Action} {user : String}
    (h : Acts v shared key old a shared' phase) (hin : phase.LoggedIn user) :
    old.LoggedIn user ∨ ∃ req config issued, old = .checking req ∧ a = .settle config issued ∧
      req.username = user ∧ v.check config req = .accepted := by
  cases h with
  | release answer taken =>
    rcases hin with hin | hin
    · cases hin
    · cases hin
      exact Or.inl (Or.inl rfl)
  | settle req config issued =>
    rcases hin with hin | hin
    · injection hin with hanswer
      refine Or.inr ⟨req, config, issued, rfl, rfl, ?_⟩
      cases hcheck : v.check config req with
      | failed =>
        rw [hcheck] at hanswer
        cases hanswer
      | refused =>
        rw [hcheck] at hanswer
        cases hanswer
      | accepted =>
        rw [hcheck] at hanswer
        simp only [answer] at hanswer
        split at hanswer
        · injection hanswer with huser
          exact ⟨huser, rfl⟩
        · cases hanswer
    · cases hin
  | _ => rcases hin with hin | hin <;> cases hin

/-- Whoever is logged in gave credentials that a check of this login accepted. -/
theorem loggedIn_earned (limiter : LoginLimiter) (run : List Event) {user : String}
    (hl : (run.foldl (Server.step v) (start limiter)).logins[i]? = some ⟨key, phase⟩)
    (hin : phase.LoggedIn user) :
    ∃ before config issued after req, run = before ++ .act i (.settle config issued) :: after ∧
      (before.foldl (Server.step v) (start limiter)).logins[i]? = some ⟨key, .checking req⟩ ∧
      req.username = user ∧ v.Accepts config req := by
  induction run using List.reverseRecOn generalizing phase with
  | nil => cases hl
  | append_singleton run e ih =>
    rw [List.foldl_concat] at hl
    have hextend : ∀ {old : Phase},
        (run.foldl (Server.step v) (start limiter)).logins[i]? = some ⟨key, old⟩ →
        old.LoggedIn user → ∃ before config issued after req,
          run ++ [e] = before ++ .act i (.settle config issued) :: after ∧
          (before.foldl (Server.step v) (start limiter)).logins[i]? = some ⟨key, .checking req⟩ ∧
          req.username = user ∧ v.Accepts config req := by
      intro old hold hin
      obtain ⟨before, config, issued, after, req, hrun, hrest⟩ := ih hold hin
      exact ⟨before, config, issued, after ++ [e], req, by rw [hrun]; simp, hrest⟩
    rcases getElem?_step hl with hold | ⟨limiter', body, c, rfl⟩ |
      ⟨a, old, shared', rfl, hold, hact⟩
    · exact hextend hold hin
    · exact absurd hin (not_loggedIn_arrival limiter' key body c user)
    · rcases hact.loggedIn hin with hold' | ⟨req, config, issued, rfl, rfl, huser, hcheck⟩
      · exact hextend hold hold'
      · exact ⟨run, config, issued, [], req, rfl, hold, huser, accepts_of_check hcheck⟩

/-- A schedule of steps without arrivals is no longer than the work that is left. -/
theorem length_le_work {rest : List Event} (harrive : ∀ e ∈ rest, e.isArrival = false)
    (hsteps : Guarded (Server.step v) (fun s e => s.step v e ≠ s) s rest) :
    rest.length ≤ s.work := by
  induction rest generalizing s with
  | nil => exact Nat.zero_le _
  | cons e rest ih =>
    have hless := work_step_lt (harrive e List.mem_cons_self) hsteps.1
    have hrest := ih (fun e' he' => harrive e' (List.mem_cons_of_mem e he')) hsteps.2
    rw [List.length_cons]
    omega

/-- When no step is left but for clients that hang up, every login is answered and all slots are
free. -/
theorem Accounted.finished (h : Accounted s)
    (hend : ∀ e : Event, e.isArrival = false → e.isCancel = false → s.step v e = s) :
    (∀ l ∈ s.logins, l.phase.isDone = true) ∧ s.slots = 0 := by
  have hdone : ∀ l ∈ s.logins, l.phase.isDone = true := by
    by_contra hopen
    push Not at hopen
    obtain ⟨l, hl, hl'⟩ := hopen
    obtain ⟨e, harrive, hcancel, hne⟩ :=
      exists_step (v := v) h ⟨l, hl, Bool.eq_false_iff.mpr hl'⟩
    exact hne (hend e harrive hcancel)
  refine ⟨hdone, ?_⟩
  rw [h.slots_eq]
  refine List.countP_eq_zero.mpr fun l hl => ?_
  have hl' := hdone l hl
  cases hphase : l.phase <;> rw [hphase] at hl' <;> simp [Phase.holds, Phase.isDone] at hl' ⊢

/-- However the logins of all clients interleave: the slots taken are those of the handlers between
the send and the receive, two at most; a session starts only for a user whose credentials this
login's check accepted; and from every state the handlers finish within four steps each, whoever
takes the next one, with every login answered and every slot free, also when no client hangs up. -/
theorem logins_bounded (v : Verifier) (limiter : LoginLimiter) (run : List Event) :
    let s := run.foldl (Server.step v) (start limiter)
    (s.slots = s.holders ∧ s.holders ≤ maxVerifications) ∧
    (∀ i key phase user, s.logins[i]? = some ⟨key, phase⟩ → phase.LoggedIn user →
      ∃ before config issued after req, run = before ++ .act i (.settle config issued) :: after ∧
        (before.foldl (Server.step v) (start limiter)).logins[i]? = some ⟨key, .checking req⟩ ∧
        req.username = user ∧ v.Accepts config req) ∧
    ∀ rest, (∀ e ∈ rest, e.isArrival = false) →
      Guarded (Server.step v) (fun s e => s.step v e ≠ s) s rest →
      rest.length ≤ 4 * s.logins.length ∧
      ((∀ e : Event, e.isArrival = false → e.isCancel = false →
          (rest.foldl (Server.step v) s).step v e = rest.foldl (Server.step v) s) →
        (∀ l ∈ (rest.foldl (Server.step v) s).logins, l.phase.isDone = true) ∧
          (rest.foldl (Server.step v) s).slots = 0) := by
  intro s
  have haccounted : Accounted s := (accounted_start limiter).run run
  refine ⟨⟨haccounted.slots_eq, haccounted.slots_eq ▸ haccounted.slots_le⟩,
    fun i key phase user hl hin => loggedIn_earned limiter run hl hin,
    fun rest harrive hsteps => ⟨?_, fun hend => ?_⟩⟩
  · exact (length_le_work harrive hsteps).trans (work_le s)
  · exact (haccounted.run rest).finished hend

end Runs

/-- An API that answers no lookup with a user. -/
def noUsers : ConfigReader := ⟨fun _ => .ok [], fun _ => .ok false⟩

def sharedAccount : Verifier :=
  .static "admin" "$2a$10$".toList fun _ plaintext => plaintext == "secret".toList

/-- A login from its request to the free slot, all at one instant. -/
def attempt (i : ℕ) (password : String) (t : ℤ) : List Event :=
  [.arrive "192.0.2.7:50000".toList (some ⟨"admin", password⟩) ⟨t, t, Int.le_refl t⟩, .act i .acquire,
    .act i (.reserve (.at t)), .act i (.settle noUsers true), .act i .release]

/-- A login request from another address, at the start. -/
def arrivalFrom (remoteAddr : String) (password : String) : Event :=
  .arrive remoteAddr.toList (some ⟨"admin", password⟩) ⟨0, 0, Int.le_refl 0⟩

/-- Three logins at once: the first two take the slots, and the third finds no room. -/
def crowdedRun : List Event :=
  [arrivalFrom "192.0.2.7:50000" "secret", arrivalFrom "198.51.100.9:50000" "guess",
    arrivalFrom "203.0.113.5:50000" "secret", .act 0 .acquire, .act 1 .acquire, .act 2 .acquire,
    .act 0 (.reserve (.at 0)), .act 1 (.reserve (.at 0)), .act 0 (.settle noUsers true)]

/-- The first one gives its slot back, and the third takes it. -/
def restOfCrowd : List Event :=
  [.act 0 .release, .act 2 .acquire, .act 1 (.settle noUsers true), .act 2 (.reserve (.at 1)),
    .act 1 .release, .act 2 (.settle noUsers true), .act 2 .release]

theorem step_ne_of_work {v : Verifier} {s : Server} {e : Event}
    (h : (s.step v e).work ≠ s.work) : s.step v e ≠ s :=
  fun heq => h (by rw [heq])

/-- Handlers that are all done take no step. -/
theorem step_of_done {v : Verifier} {s : Server} {e : Event}
    (hdone : ∀ l ∈ s.logins, l.phase.isDone = true) (harrive : e.isArrival = false) :
    s.step v e = s := by
  rcases step_cases v s e with hnew | hsame | ⟨i, a, key, phase, shared', phase', -, hl, hact, -⟩
  · rw [harrive] at hnew
    cases hnew
  · exact hsame
  · have hphase : phase.isDone = true := hdone _ (List.mem_of_getElem? hl)
    cases hact <;> cases hphase

theorem crowdedRun_bounded :
    let s := crowdedRun.foldl (Server.step sharedAccount) (start newLoginLimiter)
    s.holders = 2 ∧ s.logins[2]? = some ⟨"203.0.113.5", .waiting ⟨"admin", "secret"⟩⟩ ∧
      restOfCrowd.length ≤ 12 ∧
      (restOfCrowd.foldl (Server.step sharedAccount) s).slots = 0 ∧
      (restOfCrowd.foldl (Server.step sharedAccount) s).logins =
        [⟨"192.0.2.7", .done (.loggedIn "admin")⟩, ⟨"198.51.100.9", .done invalidCredentials⟩,
          ⟨"203.0.113.5", .done (.loggedIn "admin")⟩] := by
  intro s
  obtain ⟨⟨hslots, -⟩, -, hrest⟩ := logins_bounded sharedAccount newLoginLimiter crowdedRun
  have hend : (restOfCrowd.foldl (Server.step sharedAccount) s).logins =
      [⟨"192.0.2.7", .done (.loggedIn "admin")⟩, ⟨"198.51.100.9", .done invalidCredentials⟩,
        ⟨"203.0.113.5", .done (.loggedIn "admin")⟩] := by decide +kernel
  have hdone : ∀ l ∈ (restOfCrowd.foldl (Server.step sharedAccount) s).logins,
      l.phase.isDone = true := by
    rw [hend]
    decide
  have hmoves : Guarded (Server.step sharedAccount) (fun s e => s.step sharedAccount e ≠ s) s
      restOfCrowd :=
    ⟨step_ne_of_work (by decide +kernel), step_ne_of_work (by decide +kernel),
      step_ne_of_work (by decide +kernel), step_ne_of_work (by decide +kernel),
      step_ne_of_work (by decide +kernel), step_ne_of_work (by decide +kernel),
      step_ne_of_work (by decide +kernel), trivial⟩
  obtain ⟨hlength, hfinished⟩ := hrest restOfCrowd (by decide) hmoves
  exact ⟨hslots.symm.trans (by decide +kernel), by decide +kernel, hlength,
    (hfinished fun e harrive _ => step_of_done hdone harrive).2, hend⟩

section Guesses

open LoginBackoff

variable (v : Verifier) (s : Server) (key : String)

/-- The call a step makes on the limiter. -/
def Login.call (l : Login) : Action → Option Call
  | .reserve c =>
    match l.phase with
    | .entered _ => some (.reserve l.key c)
    | _ => none
  | .settle config _ =>
    match l.phase with
    | .checking req =>
      match v.check config req with
      | .failed => some (.refund l.key)
      | .refused => none
      | .accepted => some (.recordSuccess l.key)
    | _ => none
  | _ => none

/-- A request that passes the checks of its body peeks at the limiter. -/
def Server.calls : Event → List Call
  | .arrive remoteAddr body c =>
    match checkBody body with
    | .error _ => []
    | .ok _ => [.allow (keyOf remoteAddr) c]
  | .act i a => (s.logins[i]?.bind fun l => l.call v a).toList

/-- The calls of a run on the limiter, in the order in which the lock is taken. -/
def callsOf : Server → List Event → List Call
  | _, [] => []
  | s, e :: es => s.calls v e ++ callsOf (s.step v e) es

def Phase.isChecking : Phase → Bool
  | .checking _ => true
  | _ => false

/-- A check of a password begins that comes from the key. -/
def Server.guess : Event → Option ℤ
  | .act i (.reserve c) =>
    match s.logins[i]?, (s.step v (.act i (.reserve c))).logins[i]? with
    | some ⟨k, old⟩, some ⟨_, new⟩ =>
      if k = key ∧ old.isChecking = false ∧ new.isChecking = true then some c.attempt else none
    | _, _ => none
  | _ => none

/-- The instants at which the checks of passwords from a key begin. -/
def guesses : Server → List Event → List ℤ
  | _, [] => []
  | s, e :: es => (s.guess v key e).toList ++ guesses (s.step v e) es

/-- A check of a password from the key ends. -/
def Server.ends : Event → Bool
  | .act i (.settle _ _) =>
    match s.logins[i]? with
    | some ⟨k, .checking _⟩ => k = key
    | _ => false
  | _ => false

/-- How many checks of passwords from the key end in a run. -/
def ended : Server → List Event → ℕ
  | _, [] => 0
  | s, e :: es => (s.ends key e).toNat + ended (s.step v e) es

/-- The checks of passwords from the key that are going on. -/
def Server.checks : ℕ := s.logins.countP fun l => l.key = key && l.phase.isChecking

/-- No check on the key accepts or fails: every password is wrong and VyOS's API can be reached. -/
def Refuses : Event → Prop
  | .act i (.settle config _) =>
    match s.logins[i]? with
    | some ⟨k, .checking req⟩ => k = key → v.check config req = .refused
    | _ => True
  | _ => True

variable {v s key}

theorem call_of_act_none {l : Login} {shared : Shared} {a : Action}
    (h : l.act v shared a = none) : l.call v a = none := by
  obtain ⟨key, phase⟩ := l
  cases a with
  | reserve c =>
    cases phase with
    | entered req =>
      simp only [Login.act] at h
      split at h <;> cases h
    | _ => rfl
  | settle config issued =>
    cases phase with
    | checking req => cases h
    | _ => rfl
  | _ => rfl

theorem Acts.limiter_eq {shared shared' : Shared} {phase phase' : Phase} {a : Action}
    (h : Acts v shared key phase a shared' phase') :
    shared'.limiter =
      (Login.call v ⟨key, phase⟩ a).toList.foldl LoginBackoff.step shared.limiter := by
  cases h with
  | settle req config issued =>
    simp only [Login.call]
    cases v.check config req <;> rfl
  | _ => rfl

/-- A step is its calls on the limiter. -/
theorem limiter_step (v : Verifier) (s : Server) (e : Event) :
    (s.step v e).limiter = (s.calls v e).foldl LoginBackoff.step s.limiter := by
  cases e with
  | arrive remoteAddr body c =>
    show (arrival s.limiter (keyOf remoteAddr) body c).1 = _
    cases hbody : checkBody body with
    | error a =>
      simp only [arrival, Server.calls, hbody]
      rfl
    | ok req =>
      simp only [arrival, Server.calls, hbody]
      show _ = (s.limiter.allow (keyOf remoteAddr) c).1
      split <;> (rename_i heq; rw [heq])
  | act i a =>
    cases hl : s.logins[i]? with
    | none =>
      simp only [Server.step, Server.calls, hl]
      rfl
    | some l =>
      cases hact : l.act v s.toShared a with
      | none =>
        simp only [step_of_act_none hl hact, Server.calls, hl, Option.bind_some,
          call_of_act_none hact]
        rfl
      | some next =>
        simp only [step_of_act hl hact, Server.calls, hl, Option.bind_some]
        exact (acts_of_act hact).limiter_eq

theorem limiter_run (v : Verifier) (s : Server) (run : List Event) :
    (run.foldl (Server.step v) s).limiter =
      (callsOf v s run).foldl LoginBackoff.step s.limiter := by
  induction run generalizing s with
  | nil => rfl
  | cons e run ih =>
    show (run.foldl (Server.step v) (s.step v e)).limiter = (s.calls v e ++ _).foldl _ _
    rw [ih, List.foldl_append, limiter_step]

theorem grants_append (key : String) (l : LoginLimiter) (calls calls' : List Call) :
    grants key l (calls ++ calls') =
      grants key l calls ++ grants key (calls.foldl LoginBackoff.step l) calls' := by
  induction calls generalizing l with
  | nil => rfl
  | cons call calls ih =>
    show (call.grant l key).toList ++ grants key (LoginBackoff.step l call) (calls ++ calls') =
      ((call.grant l key).toList ++ grants key (LoginBackoff.step l call) calls) ++ _
    rw [ih, List.append_assoc]
    rfl

/-- A check begins with each grant of the limiter. -/
theorem guess_eq_grants (v : Verifier) (s : Server) (key : String) (e : Event) :
    (s.guess v key e).toList = grants key s.limiter (s.calls v e) := by
  cases e with
  | arrive remoteAddr body c =>
    unfold Server.calls
    dsimp only
    split <;> rfl
  | act i a =>
    cases hl : s.logins[i]? with
    | none =>
      have hcalls : s.calls v (.act i a) = [] := by simp [Server.calls, hl]
      rw [hcalls]
      cases a <;> simp [Server.guess, hl, grants]
    | some l =>
      obtain ⟨k, phase⟩ := l
      obtain ⟨hi, -⟩ := List.getElem?_eq_some_iff.mp hl
      have hcalls : s.calls v (.act i a) = (Login.call v ⟨k, phase⟩ a).toList := by
        simp [Server.calls, hl]
      rw [hcalls]
      cases hact : Login.act v s.toShared ⟨k, phase⟩ a with
      | none =>
        rw [call_of_act_none hact]
        cases a with
        | reserve c =>
          simp only [Server.guess, step_of_act_none hl hact, hl]
          cases phase.isChecking <;> simp [grants]
        | _ => rfl
      | some next =>
        have hstep := step_of_act hl hact
        have hnew : (s.step v (.act i a)).logins[i]? = some ⟨k, next.2⟩ := by
          rw [hstep]
          exact List.getElem?_set_self hi
        have hacts := acts_of_act hact
        obtain ⟨shared', phase'⟩ := next
        cases hacts with
        | granted req c grant =>
          simp only [Server.guess, hl, hnew, Login.call, Option.toList_some, grants, Call.grant,
            Phase.isChecking, and_true, grant, List.append_nil]
        | denied req c grant =>
          simp [Server.guess, hl, hnew, Login.call, grants, Call.grant, Phase.isChecking, grant]
        | settle req config issued =>
          simp only [Login.call]
          cases v.check config req <;> rfl
        | _ => rfl

theorem guesses_eq_grants (v : Verifier) (s : Server) (key : String) (run : List Event) :
    guesses v key s run = grants key s.limiter (callsOf v s run) := by
  induction run generalizing s with
  | nil => rfl
  | cons e run ih =>
    show (s.guess v key e).toList ++ guesses v key (s.step v e) run =
      grants key s.limiter (s.calls v e ++ callsOf v (s.step v e) run)
    rw [grants_append, ← limiter_step, ih, guess_eq_grants]

theorem isChecking_arrival (limiter : LoginLimiter) (key : String) (body : Option LoginRequest)
    (c : AllowClock) : (arrival limiter key body c).2.isChecking = false := by
  unfold arrival
  split
  · rfl
  · split <;> rfl

/-- A check that begins goes on until it ends. -/
theorem checks_step (v : Verifier) (s : Server) (key : String) (e : Event) :
    (s.guess v key e).toList.length + s.checks key =
      (s.ends key e).toNat + (s.step v e).checks key := by
  cases e with
  | arrive remoteAddr body c =>
    have hnew : (arrival s.limiter (keyOf remoteAddr) body c).2.isChecking = false :=
      isChecking_arrival _ _ _ _
    show 0 + List.countP _ s.logins =
      0 + List.countP _ (s.logins ++ [⟨_, (arrival s.limiter _ body c).2⟩])
    rw [List.countP_append, List.countP_singleton, hnew, Bool.and_false, if_neg Bool.false_ne_true,
      Nat.add_zero]
  | act i a =>
    cases hl : s.logins[i]? with
    | none => cases a <;> simp [Server.guess, Server.ends, Server.step, hl]
    | some l =>
      obtain ⟨k, phase⟩ := l
      obtain ⟨hi, -⟩ := List.getElem?_eq_some_iff.mp hl
      cases hact : Login.act v s.toShared ⟨k, phase⟩ a with
      | none =>
        have hsame := step_of_act_none hl hact
        rw [hsame]
        cases a with
        | reserve c =>
          simp only [Server.guess, hsame, hl, Server.ends]
          cases phase.isChecking <;> simp
        | settle config issued =>
          cases phase with
          | checking req => cases hact
          | _ => simp only [Server.guess, Server.ends, hl]; rfl
        | _ => rfl
      | some next =>
        have hstep := step_of_act hl hact
        have hnew : (s.step v (.act i a)).logins[i]? = some ⟨k, next.2⟩ := by
          rw [hstep]
          exact List.getElem?_set_self hi
        have hset := countP_set_add (fun l => decide (l.key = key) && l.phase.isChecking) hl
          ⟨k, next.2⟩
        have hchecks : (s.step v (.act i a)).checks key =
            (s.logins.set i ⟨k, next.2⟩).countP
              (fun l => decide (l.key = key) && l.phase.isChecking) := by
          rw [hstep]
          rfl
        have hacts := acts_of_act hact
        obtain ⟨shared', phase'⟩ := next
        rw [hchecks]
        unfold Server.checks
        dsimp only at hset
        by_cases hk : k = key
        · subst hk
          cases hacts <;> simp [Server.guess, Server.ends, hl, hnew, Phase.isChecking] at hset ⊢ <;>
            omega
        · cases hacts <;>
            simp [Server.guess, Server.ends, hl, hnew, Phase.isChecking, hk] at hset ⊢ <;> omega

/-- Every check that has ended or is going on is one of the guesses. -/
theorem length_guesses (v : Verifier) (s : Server) (key : String) (run : List Event) :
    (guesses v key s run).length + s.checks key =
      ended v key s run + (run.foldl (Server.step v) s).checks key := by
  induction run generalizing s with
  | nil =>
    show 0 + _ = 0 + _
    rfl
  | cons e run ih =>
    have hstep := checks_step v s key e
    have hrest := ih (s.step v e)
    show ((s.guess v key e).toList ++ guesses v key (s.step v e) run).length + s.checks key =
      (s.ends key e).toNat + ended v key (s.step v e) run +
        (run.foldl (Server.step v) (s.step v e)).checks key
    rw [List.length_append]
    omega

theorem keeps_of_refuses {e : Event} (h : Refuses v s key e) :
    ∀ call ∈ s.calls v e, call.Keeps key := by
  intro call hcall
  cases e with
  | arrive remoteAddr body c =>
    simp only [Server.calls] at hcall
    split at hcall
    · cases hcall
    · rw [List.mem_singleton.mp hcall]
      trivial
  | act i a =>
    unfold Server.calls at hcall
    obtain ⟨l, hl, hcall⟩ := Option.bind_eq_some_iff.mp (Option.mem_toList.mp hcall)
    obtain ⟨k, phase⟩ := l
    cases a with
    | reserve c =>
      cases phase with
      | entered req =>
        cases hcall
        trivial
      | _ => cases hcall
    | settle config issued =>
      cases phase with
      | checking req =>
        simp only [Refuses, hl] at h
        simp only [Login.call] at hcall
        by_cases hk : k = key
        · rw [h hk] at hcall
          cases hcall
        · cases hcheck : v.check config req <;> rw [hcheck] at hcall <;> cases hcall <;> exact hk
      | _ => cases hcall
    | _ => cases hcall

theorem keeps_run {run : List Event}
    (h : Guarded (Server.step v) (fun s => Refuses v s key) s run) :
    ∀ call ∈ callsOf v s run, call.Keeps key := by
  induction run generalizing s with
  | nil => exact fun call hcall => by cases hcall
  | cons e run ih =>
    intro call hcall
    rcases List.mem_append.mp hcall with hcall | hcall
    · exact keeps_of_refuses h.1 call hcall
    · exact ih h.2 call hcall

/-- In every interleaving of the logins, from however many addresses and connections of one source:
the guesses are the attempts that the limiter has granted, all checks of the source's passwords that
ended or go on are among them, and while none succeeds and none fails for VyOS, they keep the
limiter's distances, the sixth and each later one the doubled delay from the one before. -/
theorem guesses_spaced (v : Verifier) (key : String) (run : List Event) :
    guesses v key (start newLoginLimiter) run =
        grants key newLoginLimiter (callsOf v (start newLoginLimiter) run) ∧
      (guesses v key (start newLoginLimiter) run).length =
        ended v key (start newLoginLimiter) run +
          (run.foldl (Server.step v) (start newLoginLimiter)).checks key ∧
      ∀ now, Nondecreasing now (callsOf v (start newLoginLimiter) run) →
        Guarded (Server.step v) (fun s => Refuses v s key) (start newLoginLimiter) run →
        (guesses v key (start newLoginLimiter) run).IsChain
          (fun a b => b - a ≤ newLoginLimiter.window) →
        Spaced newLoginLimiter.toLimits (guesses v key (start newLoginLimiter) run) := by
  have hgrants := guesses_eq_grants v (start newLoginLimiter) key run
  refine ⟨hgrants, length_guesses v (start newLoginLimiter) key run,
    fun now hclock hrefuses hnear => ?_⟩
  rw [hgrants] at hnear ⊢
  have hempty : Spaced newLoginLimiter.toLimits [] := fun i a b _ ha => by cases ha
  exact (held_newLoginLimiter key now).run hempty hclock (keeps_run hrefuses) hnear

end Guesses

section Example

open LoginBackoff

/-- Five wrong passwords at once, and one more when the first delay is over. -/
def sixWrong : List Event :=
  (List.range 6).flatMap fun i => attempt i "guess" (if i < 5 then 0 else 1000000000)

theorem guesses_sixWrong :
    guesses sharedAccount "192.0.2.7" (start newLoginLimiter) sixWrong =
      [0, 0, 0, 0, 0, 1000000000] := by
  decide +kernel

instance (now : ℤ) (call : Call) : Decidable (call.After now) :=
  match call with
  | .reserve _ c => inferInstanceAs (Decidable (now ≤ c.since))
  | .allow _ c => inferInstanceAs (Decidable (now ≤ c.since))
  | .refund _ => .isTrue trivial
  | .recordSuccess _ => .isTrue trivial

def decidableNondecreasing : ∀ (now : ℤ) (run : List Call), Decidable (Nondecreasing now run)
  | _, [] => .isTrue trivial
  | now, call :: run =>
    have := decidableNondecreasing (call.done now) run
    inferInstanceAs (Decidable (call.After now ∧ Nondecreasing (call.done now) run))

instance (now : ℤ) (run : List Call) : Decidable (Nondecreasing now run) :=
  decidableNondecreasing now run

instance (v : Verifier) (s : Server) (key : String) (e : Event) : Decidable (Refuses v s key e) :=
  match e with
  | .arrive _ _ _ => .isTrue trivial
  | .act i (.settle config _) =>
    match h : s.logins[i]? with
    | some ⟨k, .checking req⟩ =>
      decidable_of_iff (k = key → v.check config req = .refused) (by simp only [Refuses, h])
    | some ⟨_, .waiting _⟩ => .isTrue (by simp only [Refuses, h])
    | some ⟨_, .entered _⟩ => .isTrue (by simp only [Refuses, h])
    | some ⟨_, .replying _⟩ => .isTrue (by simp only [Refuses, h])
    | some ⟨_, .done _⟩ => .isTrue (by simp only [Refuses, h])
    | none => .isTrue (by simp only [Refuses, h])
  | .act _ .acquire => .isTrue trivial
  | .act _ .cancel => .isTrue trivial
  | .act _ (.reserve _) => .isTrue trivial
  | .act _ .release => .isTrue trivial

def decidableGuarded (v : Verifier) (key : String) : ∀ (s : Server) (run : List Event),
    Decidable (Guarded (Server.step v) (fun s => Refuses v s key) s run)
  | _, [] => .isTrue trivial
  | s, e :: run =>
    have := decidableGuarded v key (s.step v e) run
    inferInstanceAs (Decidable (Refuses v s key e ∧
      Guarded (Server.step v) (fun s => Refuses v s key) (s.step v e) run))

instance (v : Verifier) (key : String) (s : Server) (run : List Event) :
    Decidable (Guarded (Server.step v) (fun s => Refuses v s key) s run) :=
  decidableGuarded v key s run

theorem sixWrong_spaced :
    grants "192.0.2.7" newLoginLimiter (callsOf sharedAccount (start newLoginLimiter) sixWrong) =
        [0, 0, 0, 0, 0, 1000000000] ∧
      Spaced newLoginLimiter.toLimits [0, 0, 0, 0, 0, 1000000000] ∧
      ended sharedAccount "192.0.2.7" (start newLoginLimiter) sixWrong = 6 := by
  obtain ⟨hgrants, -, hspaced⟩ := guesses_spaced sharedAccount "192.0.2.7" sixWrong
  refine ⟨hgrants.symm.trans guesses_sixWrong, ?_, by decide +kernel⟩
  rw [← guesses_sixWrong]
  refine hspaced 0 (by decide +kernel) (by decide +kernel) ?_
  rw [guesses_sixWrong]
  decide

end Example

end VyosClient.LoginProtocol
