import Mathlib.Data.Rat.Floor
import VyosClient.ConfigHandlers

/-!
A commit on its way through the backend. The handler checks the operations
while it copies them, and the client for VyOS writes one operation in a shape of
its own and several as a list, leaving empty fields out. The server that the
backend is tested against reads both shapes back.
-/

namespace VyosClient.WireCommit

open ConfigTrees Configure Mask ConfigHandlers

inductive Json
  | str (s : String)
  | num (n : ℤ)
  | arr (elements : List Json)
  | obj (fields : List (String × Json))

/-- One operation as the client sends it, an empty value meaning none. -/
structure VyosOp where
  op : String
  path : Path
  value : String
  deriving DecidableEq, Repr

def encodePath (p : Path) : Json := .arr (p.map .str)

/-- `omitempty` -/
def omitEmpty (key value : String) : List (String × Json) :=
  if value = "" then [] else [(key, .str value)]

def omitZero (key : String) (value : ℤ) : List (String × Json) :=
  if value = 0 then [] else [(key, .num value)]

def VyosOp.fields (o : VyosOp) : List (String × Json) :=
  [("op", .str o.op), ("path", encodePath o.path)] ++ omitEmpty "value" o.value

def configureSingle (o : VyosOp) (confirmTime : ℤ) : Json :=
  .obj (o.fields ++ omitZero "confirm_time" confirmTime)

def configureList (commands : List VyosOp) (confirmTime : ℤ) : Json :=
  .obj ([("commands", .arr (commands.map fun o => .obj o.fields))] ++
    omitZero "confirm_time" confirmTime)

/-! The server that reads it, field by field: an absent field is empty. -/

def decodeString (fields : List (String × Json)) (key : String) : Option String :=
  match fields.lookup key with
  | none => some ""
  | some (.str s) => some s
  | some _ => none

def decodeInt (fields : List (String × Json)) (key : String) : Option ℤ :=
  match fields.lookup key with
  | none => some 0
  | some (.num n) => some n
  | some _ => none

def decodeSegments : List Json → Option Path
  | [] => some []
  | .str s :: es => (decodeSegments es).map (s :: ·)
  | _ :: _ => none

/-- An absent path is told apart from an empty one. -/
def decodePath (fields : List (String × Json)) (key : String) : Option (Option Path) :=
  match fields.lookup key with
  | none => some none
  | some (.arr es) => (decodeSegments es).map some
  | some _ => none

def decodeOp : Json → Option VyosOp
  | .obj fields => do
      let op ← decodeString fields "op"
      let path ← decodePath fields "path"
      let value ← decodeString fields "value"
      return ⟨op, path.getD [], value⟩
  | _ => none

def decodeOps : List Json → Option (List VyosOp)
  | [] => some []
  | e :: es => do
      let o ← decodeOp e
      let os ← decodeOps es
      return o :: os

def decodeCommands (fields : List (String × Json)) (key : String) : Option (Option (List VyosOp)) :=
  match fields.lookup key with
  | none => some none
  | some (.arr es) => (decodeOps es).map some
  | some _ => none

structure ConfigurePayload where
  op : String
  path : Option Path
  value : String
  confirmTime : ℤ
  commands : Option (List VyosOp)

def decodePayload : Json → Option ConfigurePayload
  | .obj fields => do
      let op ← decodeString fields "op"
      let path ← decodePath fields "path"
      let value ← decodeString fields "value"
      let confirmTime ← decodeInt fields "confirm_time"
      let commands ← decodeCommands fields "commands"
      return ⟨op, path, value, confirmTime, commands⟩
  | _ => none

/-- The commands a payload stands for. -/
def ConfigurePayload.ops (p : ConfigurePayload) : Except String (List VyosOp) :=
  match p.commands, p.path with
  | some commands, _ => .ok commands
  | none, some path => .ok [⟨p.op, path, p.value⟩]
  | none, none => .error "path is required"

def operations : List String := ["set", "delete", "comment"]

def commandError (o : VyosOp) : Option String :=
  if o.path = [] then
    some ("Malformed command '\x7b" ++ o.op ++ " [] " ++ o.value ++
      "\x7d': 'path' list must be non-empty")
  else if o.op ∉ operations then some ("'" ++ o.op ++ "' is not a valid operation")
  else none

/-- What the server makes of a payload: the commands it runs, in order, and the
minutes of the confirm window. -/
def handleConfigure (raw : Json) : Except String (List VyosOp × ℤ) :=
  match decodePayload raw with
  | none => .error "malformed request"
  | some p =>
      match p.ops with
      | .error message => .error message
      | .ok ops =>
          match ops.findSome? commandError with
          | some message => .error message
          | none => .ok (ops, p.confirmTime)

/-! The backend. -/

structure Request where
  endpoint : String
  payload : Json

/-- What comes back when VyOS refuses a request or cannot be reached. -/
inductive VyosError
  | unreachable
  | api (statusCode : ℕ) (message : String)

/-- A refusal the browser sees, with its status. -/
structure Refusal where
  status : ℕ
  message : String
  deriving DecidableEq, Repr

def handleVyOSError (action : String) : VyosError → Refusal
  | .unreachable => ⟨502, "failed " ++ action⟩
  | .api statusCode message =>
      if statusCode = 401 then
        ⟨500, "server is misconfigured (VyOS API key rejected); contact your administrator"⟩
      else if statusCode = 400 ∨ statusCode = 422 then ⟨422, message⟩
      else ⟨502, "failed " ++ action⟩

structure CommitOpRequest where
  op : String
  path : Path
  value : String
  deriving DecidableEq, Repr

structure CommitRequest where
  ops : List CommitOpRequest
  confirmSeconds : ℤ
  deriving DecidableEq, Repr

structure CommitResponse where
  pendingConfirm : Bool
  confirmSeconds : ℤ
  deriving DecidableEq, Repr

def newCommitResponse (confirmMinutes : ℤ) : CommitResponse where
  pendingConfirm := 0 < confirmMinutes
  confirmSeconds := confirmMinutes * 60

/-- The body of a request: its bytes up to the end of the first JSON value,
those after it, and what `encoding/json` makes of that value, `none` for
malformed text and for unknown fields. -/
structure Body where
  valueBytes : ℕ
  restBytes : ℕ
  value : Option CommitRequest

def maxRequestBodyBytes : ℕ := 2 * 1024 * 1024

/-- `MaxBytesReader` passes so many bytes on before it fails. -/
def Body.passedOn (body : Body) : ℕ :=
  min maxRequestBodyBytes (body.valueBytes + body.restBytes)

/-- The decoder stops at the end of the first value, and fails where the reader
does before it. -/
def decodeJSON (body : Body) : Option CommitRequest :=
  if body.valueBytes ≤ body.passedOn then body.value else none

/-- What reached VyOS, in order, and the answer to the browser. -/
structure Outcome where
  sent : List Request
  response : Except Refusal CommitResponse

def refuse (message : String) : Outcome := ⟨[], .error ⟨400, message⟩⟩

def opRequestError (o : CommitOpRequest) : Option String :=
  if o.path = [] then some "every operation must have a non-empty path"
  else if o.op ∉ operations then some "op must be one of set, delete, comment"
  else if o.op = "set" ∧ o.value = maskPlaceholder then some maskedPlaceholderError
  else none

/-- The loop that checks and copies the operations. -/
def copyOps : List CommitOpRequest → Except String (List VyosOp)
  | [] => .ok []
  | o :: os =>
      match opRequestError o with
      | some message => .error message
      | none =>
          match copyOps os with
          | .error message => .error message
          | .ok ops => .ok (⟨o.op, o.path, o.value⟩ :: ops)

section Handler

variable (vyos : Request → Except VyosError Unit)

/-- The client's `Configure`, for a VyOS that answers as `vyos` says. -/
def configure (ops : List VyosOp) (confirmTime : ℤ) : List Request × Except VyosError Unit :=
  match ops with
  | [] => ([], .error (.api 400 "no operations to apply"))
  | [o] =>
      let request : Request := ⟨"/configure", configureSingle o confirmTime⟩
      ([request], vyos request)
  | ops =>
      let request : Request := ⟨"/configure", configureList ops confirmTime⟩
      ([request], vyos request)

def handleCommit (body : Body) : Outcome :=
  match decodeJSON body with
  | none => refuse "malformed request"
  | some req =>
      if req.ops = [] then refuse "no operations to apply"
      else
        match confirmMinutesFromSeconds req.confirmSeconds with
        | .error message => refuse message
        | .ok confirmMinutes =>
            match copyOps req.ops with
            | .error message => refuse message
            | .ok ops =>
                match configure vyos ops confirmMinutes with
                | (sent, .error e) => ⟨sent, .error (handleVyOSError "applying configuration" e)⟩
                | (sent, .ok ()) => ⟨sent, .ok (newCommitResponse confirmMinutes)⟩

end Handler

/-- The requests that may be passed on. -/
structure Valid (req : CommitRequest) : Prop where
  nonempty : req.ops ≠ []
  path : ∀ o ∈ req.ops, o.path ≠ []
  op : ∀ o ∈ req.ops, o.op ∈ operations
  unmasked : ∀ o ∈ req.ops, o.op = "set" → o.value ≠ maskPlaceholder
  window : req.confirmSeconds = 0 ∨
    (minConfirmSeconds ≤ req.confirmSeconds ∧ req.confirmSeconds ≤ maxConfirmSeconds)

/-! Reading back what was written. -/

theorem decodeSegments_map_str (p : Path) : decodeSegments (p.map .str) = some p := by
  induction p with
  | nil => rfl
  | cons k p ih => simp [decodeSegments, ih]

theorem decodeOp_fields (o : VyosOp) : decodeOp (.obj o.fields) = some o := by
  obtain ⟨op, path, value⟩ := o
  by_cases hvalue : value = ""
  · simp [decodeOp, VyosOp.fields, omitEmpty, decodeString, decodePath, encodePath,
      decodeSegments_map_str, List.lookup_cons, hvalue]
  · simp [decodeOp, VyosOp.fields, omitEmpty, decodeString, decodePath, encodePath,
      decodeSegments_map_str, List.lookup_cons, hvalue]

theorem decodeOps_map_fields (ops : List VyosOp) :
    decodeOps (ops.map fun o => .obj o.fields) = some ops := by
  induction ops with
  | nil => rfl
  | cons o ops ih => simp [decodeOps, decodeOp_fields, ih]

theorem decodePayload_configureSingle (o : VyosOp) (confirmTime : ℤ) :
    decodePayload (configureSingle o confirmTime) =
      some ⟨o.op, some o.path, o.value, confirmTime, none⟩ := by
  obtain ⟨op, path, value⟩ := o
  by_cases hvalue : value = "" <;> by_cases htime : confirmTime = 0 <;>
    simp [decodePayload, configureSingle, VyosOp.fields, omitEmpty, omitZero, decodeString,
      decodePath, decodeInt, decodeCommands, encodePath, decodeSegments_map_str,
      List.lookup_cons, hvalue, htime]

theorem decodePayload_configureList (ops : List VyosOp) (confirmTime : ℤ) :
    decodePayload (configureList ops confirmTime) =
      some ⟨"", none, "", confirmTime, some ops⟩ := by
  by_cases htime : confirmTime = 0 <;>
    simp [decodePayload, configureList, omitZero, decodeString, decodePath, decodeInt,
      decodeCommands, decodeOps_map_fields, List.lookup_cons, htime]

theorem handleConfigure_configureSingle {o : VyosOp} (ho : commandError o = none)
    (confirmTime : ℤ) :
    handleConfigure (configureSingle o confirmTime) = .ok ([o], confirmTime) := by
  simp [handleConfigure, decodePayload_configureSingle, ConfigurePayload.ops, ho]

theorem handleConfigure_configureList {ops : List VyosOp} (hops : ∀ o ∈ ops, commandError o = none)
    (confirmTime : ℤ) :
    handleConfigure (configureList ops confirmTime) = .ok (ops, confirmTime) := by
  have hnone : ops.findSome? commandError = none := List.findSome?_eq_none_iff.mpr hops
  simp [handleConfigure, decodePayload_configureList, ConfigurePayload.ops, hnone]

/-- What the client writes the server reads back, in either shape. -/
theorem configure_readBack (vyos : Request → Except VyosError Unit) {ops : List VyosOp}
    (hne : ops ≠ []) (hops : ∀ o ∈ ops, commandError o = none) (confirmTime : ℤ) :
    ∃ payload, configure vyos ops confirmTime =
        ([⟨"/configure", payload⟩], vyos ⟨"/configure", payload⟩) ∧
      handleConfigure payload = .ok (ops, confirmTime) := by
  match ops, hne with
  | [o], _ => exact ⟨_, rfl, handleConfigure_configureSingle (hops o (by simp)) confirmTime⟩
  | o :: o' :: os, _ => exact ⟨_, rfl, handleConfigure_configureList hops confirmTime⟩

/-! The checks. -/

theorem opRequestError_eq_none_iff {o : CommitOpRequest} :
    opRequestError o = none ↔
      o.path ≠ [] ∧ o.op ∈ operations ∧ (o.op = "set" → o.value ≠ maskPlaceholder) := by
  unfold opRequestError
  by_cases hpath : o.path = []
  · simp [hpath]
  · by_cases hop : o.op ∈ operations
    · by_cases hset : o.op = "set" ∧ o.value = maskPlaceholder
      · rw [if_neg hpath, if_neg (not_not_intro hop), if_pos hset]
        exact ⟨fun h => absurd h (by simp), fun h => absurd hset.2 (h.2.2 hset.1)⟩
      · rw [if_neg hpath, if_neg (not_not_intro hop), if_neg hset]
        exact ⟨fun _ => ⟨hpath, hop, fun h hvalue => hset ⟨h, hvalue⟩⟩, fun _ => rfl⟩
    · simp [hpath, hop]

theorem copyOps_eq (ops : List CommitOpRequest) :
    copyOps ops =
      match ops.findSome? opRequestError with
      | some message => .error message
      | none => .ok (ops.map fun o => ⟨o.op, o.path, o.value⟩) := by
  induction ops with
  | nil => rfl
  | cons o ops ih =>
    unfold copyOps
    rw [ih, List.findSome?_cons]
    cases opRequestError o with
    | some message => rfl
    | none => cases ops.findSome? opRequestError <;> rfl

/-- An operation as the browser sends it. -/
def CommitOpRequest.ofOp (o : ConfigOp) : CommitOpRequest := ⟨o.op.text, o.path, o.value.getD ""⟩

theorem opRequestError_ofOp (o : ConfigOp) : opRequestError (.ofOp o) = opError o := by
  obtain ⟨kind, p, value⟩ := o
  have hop : kind.text ∈ operations := by cases kind <;> decide
  have hset : kind.text = "set" ↔ kind = .set := by cases kind <;> decide
  unfold opRequestError opError CommitOpRequest.ofOp
  simp only [hop, hset, not_true_eq_false, ↓reduceIte]

/-- On operations of the three kinds the loop makes the checks that typed
operations need. -/
theorem copyOps_map_ofOp (ops : List ConfigOp) :
    copyOps (ops.map .ofOp) =
      match ops.findSome? opError with
      | some message => .error message
      | none => .ok (ops.map fun o => ⟨o.op.text, o.path, o.value.getD ""⟩) := by
  rw [copyOps_eq, List.findSome?_map, List.map_map]
  have hcheck : opRequestError ∘ CommitOpRequest.ofOp = opError := funext opRequestError_ofOp
  rw [hcheck]
  rfl

/-- What follows the first value is never looked at. -/
theorem decodeJSON_eq (body : Body) :
    decodeJSON body = if body.valueBytes ≤ maxRequestBodyBytes then body.value else none := by
  have hpassed : body.valueBytes ≤ body.passedOn ↔ body.valueBytes ≤ maxRequestBodyBytes := by
    unfold Body.passedOn
    omega
  unfold decodeJSON
  simp only [hpassed]

/-- The handler on the operations of a queue: what it says of them before it sends anything is
`ConfigHandlers.handleCommit`, and what that passes on is what goes to VyOS. -/
theorem handleCommit_ofOps (vyos : Request → Except VyosError Unit) (ops : List ConfigOp)
    (confirmSeconds : ℤ) (restBytes : ℕ) {valueBytes : ℕ}
    (hbytes : valueBytes ≤ maxRequestBodyBytes) :
    handleCommit vyos ⟨valueBytes, restBytes, some ⟨ops.map .ofOp, confirmSeconds⟩⟩ =
      match ConfigHandlers.handleCommit ops confirmSeconds with
      | .error message => refuse message
      | .ok (ops, confirmMinutes) =>
          match configure vyos (ops.map fun o => ⟨o.op.text, o.path, o.value.getD ""⟩)
            confirmMinutes with
          | (sent, .error e) => ⟨sent, .error (handleVyOSError "applying configuration" e)⟩
          | (sent, .ok ()) => ⟨sent, .ok (newCommitResponse confirmMinutes)⟩ := by
  unfold handleCommit ConfigHandlers.handleCommit
  rw [decodeJSON_eq, if_pos hbytes]
  dsimp only
  by_cases hnil : ops = []
  · rw [if_pos hnil, hnil]
    rfl
  · rw [if_neg hnil, if_neg (by simpa using hnil), copyOps_map_ofOp]
    cases confirmMinutesFromSeconds confirmSeconds with
    | error message => rfl
    | ok confirmMinutes => cases ops.findSome? opError <;> rfl

theorem ceil_eq (seconds : ℤ) : ⌈(seconds : ℚ) / 60⌉ = (seconds + 59) / 60 := by
  have hle : seconds ≤ (seconds + 59) / 60 * 60 := by omega
  have hlt : ((seconds + 59) / 60 - 1) * 60 < seconds := by omega
  rw [Int.ceil_eq_iff]
  constructor
  · rw [lt_div_iff₀ (by norm_num)]
    exact_mod_cast hlt
  · rw [div_le_iff₀ (by norm_num)]
    exact_mod_cast hle

theorem confirmMinutesFromSeconds_eq (seconds : ℤ) :
    (∃ message, confirmMinutesFromSeconds seconds = .error message ∧
        ¬ (seconds = 0 ∨ (minConfirmSeconds ≤ seconds ∧ seconds ≤ maxConfirmSeconds))) ∨
      (confirmMinutesFromSeconds seconds = .ok ⌈(seconds : ℚ) / 60⌉ ∧
        (seconds = 0 ∨ (minConfirmSeconds ≤ seconds ∧ seconds ≤ maxConfirmSeconds))) := by
  rw [ceil_eq]
  unfold confirmMinutesFromSeconds
  split_ifs with hzero hrange
  · exact Or.inr ⟨by rw [hzero]; rfl, Or.inl hzero⟩
  · refine Or.inl ⟨_, rfl, ?_⟩
    omega
  · refine Or.inr ⟨rfl, Or.inr ?_⟩
    omega

/-- The window VyOS starts covers the one that was asked for, and by less than
a minute more. -/
theorem window_covers (seconds : ℤ) :
    seconds ≤ (newCommitResponse ⌈(seconds : ℚ) / 60⌉).confirmSeconds ∧
      (newCommitResponse ⌈(seconds : ℚ) / 60⌉).confirmSeconds < seconds + 60 := by
  rw [ceil_eq]
  simp only [newCommitResponse]
  omega

theorem handleCommit_of_valid (vyos : Request → Except VyosError Unit) {body : Body}
    {req : CommitRequest} (hvalue : body.value = some req)
    (hbytes : body.valueBytes ≤ maxRequestBodyBytes) (hvalid : Valid req) :
    ∃ payload, (handleCommit vyos body).sent = [⟨"/configure", payload⟩] ∧
      handleConfigure payload = .ok (req.ops.map fun o => ⟨o.op, o.path, o.value⟩,
        ⌈(req.confirmSeconds : ℚ) / 60⌉) ∧
      ∀ response, (handleCommit vyos body).response = .ok response →
        response = newCommitResponse ⌈(req.confirmSeconds : ℚ) / 60⌉ := by
  have hdecode : decodeJSON body = some req := by rw [decodeJSON_eq, if_pos hbytes, hvalue]
  have hminutes : confirmMinutesFromSeconds req.confirmSeconds =
      .ok ⌈(req.confirmSeconds : ℚ) / 60⌉ := by
    rcases confirmMinutesFromSeconds_eq req.confirmSeconds with ⟨_, _, hout⟩ | ⟨hok, _⟩
    · exact absurd hvalid.window hout
    · exact hok
  have hnone : req.ops.findSome? opRequestError = none :=
    List.findSome?_eq_none_iff.mpr fun o ho =>
      opRequestError_eq_none_iff.mpr ⟨hvalid.path o ho, hvalid.op o ho, hvalid.unmasked o ho⟩
  have hcopy : copyOps req.ops = .ok (req.ops.map fun o => ⟨o.op, o.path, o.value⟩) := by
    rw [copyOps_eq, hnone]
  have hcommands : ∀ o ∈ req.ops.map fun o => VyosOp.mk o.op o.path o.value,
      commandError o = none := by
    intro o ho
    obtain ⟨r, hr, rfl⟩ := List.mem_map.mp ho
    unfold commandError
    rw [if_neg (hvalid.path r hr), if_neg (not_not_intro (hvalid.op r hr))]
  obtain ⟨payload, hsend, hread⟩ := configure_readBack vyos
    (by simpa using hvalid.nonempty) hcommands ⌈(req.confirmSeconds : ℚ) / 60⌉
  refine ⟨payload, ?_, hread, fun response hresponse => ?_⟩
  · simp only [handleCommit, hdecode, if_neg hvalid.nonempty, hminutes, hcopy, hsend]
    cases vyos ⟨"/configure", payload⟩ <;> rfl
  · simp only [handleCommit, hdecode, if_neg hvalid.nonempty, hminutes, hcopy, hsend] at hresponse
    cases hanswer : vyos ⟨"/configure", payload⟩ with
    | error e => simp [hanswer] at hresponse
    | ok u =>
      simp only [hanswer, Except.ok.injEq] at hresponse
      exact hresponse.symm

theorem sent_of_not_valid (vyos : Request → Except VyosError Unit) {body : Body}
    {req : CommitRequest} (hvalue : body.value = some req)
    (hnot : ¬ (body.valueBytes ≤ maxRequestBodyBytes ∧ Valid req)) :
    (handleCommit vyos body).sent = [] := by
  by_cases hbytes : body.valueBytes ≤ maxRequestBodyBytes
  · have hdecode : decodeJSON body = some req := by rw [decodeJSON_eq, if_pos hbytes, hvalue]
    have hvalid : ¬ Valid req := fun hvalid => hnot ⟨hbytes, hvalid⟩
    simp only [handleCommit, hdecode]
    split_ifs with hnil
    · rfl
    · rcases confirmMinutesFromSeconds_eq req.confirmSeconds with ⟨message, herror, _⟩ | ⟨hok, hin⟩
      · rw [herror]
        rfl
      · rw [hok, copyOps_eq]
        cases hfound : req.ops.findSome? opRequestError with
        | some message => rfl
        | none =>
          have hall := fun o ho => opRequestError_eq_none_iff.mp
            (List.findSome?_eq_none_iff.mp hfound o ho)
          exact absurd ⟨hnil, fun o ho => (hall o ho).1, fun o ho => (hall o ho).2.1,
            fun o ho => (hall o ho).2.2, hin⟩ hvalid
  · have hdecode : decodeJSON body = none := by rw [decodeJSON_eq, if_neg hbytes]
    simp only [handleCommit, hdecode]
    rfl

/-- A commit request reaches VyOS as exactly one `/configure` request if it is
valid and ends within the limit of its body, and not at all otherwise, whatever
follows it there. What arrives reads back as the operations that were asked for,
in order, with the window in whole minutes, and the browser is told of a window
no shorter than the one it asked for and not a minute longer. -/
theorem handleCommit_faithful (vyos : Request → Except VyosError Unit) (valueBytes restBytes : ℕ)
    (req : CommitRequest) :
    let outcome := handleCommit vyos ⟨valueBytes, restBytes, some req⟩
    (outcome.sent.length = 1 ↔ valueBytes ≤ maxRequestBodyBytes ∧ Valid req) ∧
      (outcome.sent = [] ↔ ¬ (valueBytes ≤ maxRequestBodyBytes ∧ Valid req)) ∧
      ∀ request ∈ outcome.sent, request.endpoint = "/configure" ∧
        handleConfigure request.payload = .ok (req.ops.map fun o => ⟨o.op, o.path, o.value⟩,
          ⌈(req.confirmSeconds : ℚ) / 60⌉) ∧
        ∀ response, outcome.response = .ok response →
          req.confirmSeconds ≤ response.confirmSeconds ∧
            response.confirmSeconds < req.confirmSeconds + 60 := by
  intro outcome
  have hvalue : (Body.mk valueBytes restBytes (some req)).value = some req := rfl
  by_cases hok : valueBytes ≤ maxRequestBodyBytes ∧ Valid req
  · obtain ⟨payload, hsent, hread, hresponse⟩ := handleCommit_of_valid vyos hvalue hok.1 hok.2
    have houtcome : outcome.sent = [⟨"/configure", payload⟩] := hsent
    refine ⟨⟨fun _ => hok, fun _ => by rw [houtcome]; rfl⟩, ⟨?_, fun hnot => absurd hok hnot⟩, ?_⟩
    · intro hnil
      simp [houtcome] at hnil
    · intro request hrequest
      rw [houtcome] at hrequest
      rw [List.mem_singleton.mp hrequest]
      refine ⟨rfl, hread, fun response hanswer => ?_⟩
      rw [hresponse response hanswer]
      exact window_covers req.confirmSeconds
  · have houtcome : outcome.sent = [] := sent_of_not_valid vyos hvalue hok
    refine ⟨⟨fun hone => ?_, fun h => absurd h hok⟩, ⟨fun _ => hok, fun _ => houtcome⟩, ?_⟩
    · simp [houtcome] at hone
    · intro request hrequest
      rw [houtcome] at hrequest
      exact absurd hrequest List.not_mem_nil

theorem valid_setHostName {value : String} (hvalue : value ≠ maskPlaceholder) :
    Valid ⟨[⟨"set", ["system", "host-name"], value⟩], 0⟩ := by
  refine ⟨by simp, by simp, by simp [operations], fun o ho _ => ?_, Or.inl rfl⟩
  rw [List.mem_singleton.mp ho]
  exact hvalue

theorem replicate_ne_maskPlaceholder {n : ℕ} (hn : 8 < n) :
    String.ofList (List.replicate n 'a') ≠ maskPlaceholder := by
  intro heq
  have hlength := congrArg String.length heq
  rw [String.length_ofList, List.length_replicate] at hlength
  have hmask : maskPlaceholder.length = 8 := by decide
  omega

/-- Three MiB of text. -/
def hugeValue : String := String.ofList (List.replicate (3 * 1024 * 1024) 'a')

/-- A request that sets it, with its 63 bytes around the value. -/
def hugeBody : Body :=
  ⟨3 * 1024 * 1024 + 63, 0, some ⟨[⟨"set", ["system", "host-name"], hugeValue⟩], 0⟩⟩

theorem hugeBody_not_sent :
    (∃ req, hugeBody.value = some req ∧ Valid req) ∧
      (handleCommit (fun _ => .ok ()) hugeBody).sent = [] := by
  have hlong : ¬ 3 * 1024 * 1024 + 63 ≤ maxRequestBodyBytes := by
    unfold maxRequestBodyBytes
    omega
  refine ⟨⟨_, rfl, valid_setHostName (replicate_ne_maskPlaceholder (by omega))⟩, ?_⟩
  unfold hugeBody
  exact sent_of_not_valid _ rfl fun h => hlong h.1

/-- A short request with three MiB of blanks behind it is passed on. -/
example :
    let req : CommitRequest := ⟨[⟨"set", ["system", "host-name"], "edge"⟩], 0⟩
    (handleCommit (fun _ => .ok ()) ⟨67, 3 * 1024 * 1024, some req⟩).sent.length = 1 := by
  decide

end VyosClient.WireCommit
