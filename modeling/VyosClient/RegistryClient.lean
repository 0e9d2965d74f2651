import VyosClient.ImageReference

/-!
The registry client of the backend. Every request it sends is listed with the
answer it got, and the servers may choose each answer after all that was sent
before. What `net/url` and `encoding/json` compute is given; a request leaves
the client only for a host and over http or https, and one without an
authorization gets a Basic header when its URL carries a user, as `net/http`
sends it.
-/

namespace VyosClient.RegistryClient

open ImageReference

def https : Text := "https".toList

def http : Text := "http".toList

/-- A parsed URL. One like `mailto:a` has an opaque part and no host. -/
structure URL where
  scheme : Text
  opaquePart : Text
  user : Option (Text × Text)
  host : Text
  path : Text
  rawQuery : Text
deriving DecidableEq, Repr

abbrev Bytes := List UInt8

structure Credentials where
  username : Text
  password : Text
deriving DecidableEq, Repr

/-- `creds.empty()`, for a pointer that may be nil. -/
def Credentials.empty : Option Credentials → Bool
  | none => true
  | some c => c.username == [] && c.password == []

/-- The values of an `Authorization` header. -/
inductive Auth
  | basic (username password : Text)
  | bearer (token : Text)
deriving DecidableEq, Repr

/-- What a request is for: a page of tags or a manifest, the same again with the answer to a
challenge, or a token from the realm of a challenge. -/
inductive Purpose
  | first
  | retry
  | token (realm : Text)
deriving DecidableEq, Repr

structure Request where
  purpose : Purpose
  url : URL
  accept : Text
  authorization : Option Auth
deriving DecidableEq, Repr

inductive Failure
  | recordHeader
  | schemeMismatch
  | connectionRefused
  | other
deriving DecidableEq, Repr

/-- The body is `none` when reading it fails, as far as it is read. -/
structure Response where
  status : ℕ
  wwwAuthenticate : Text
  link : Text
  body : Option Bytes
deriving DecidableEq, Repr

inductive Outcome
  | failed (failure : Failure)
  | response (resp : Response)
deriving DecidableEq, Repr

structure Exchange where
  request : Request
  outcome : Outcome
deriving DecidableEq, Repr

inductive RegistryError
  | initialRequest (failure : Failure)
  | callingRegistry
  | readingBody
  | status (code : ℕ)
  | decodingBody
  | parsingLink
  | unrecognizedChallenge
  | noCredentials
  | parsingRealm
  | refusedRealm
  | fetchingToken
  | noToken
deriving DecidableEq, Repr

/-- `url.Parse`, the query with `service` and `scope` set, and the JSON decoders of both bodies. -/
structure Lib where
  parse : Text → Option URL
  setQuery : Text → Text → Text → Text
  decodeTags : Bytes → Option (List Text)
  decodeToken : Bytes → Option (Text × Text)

/-- One call of `ListTags` or `TagExists`: the servers answer each request after the exchanges so
far. -/
structure Call where
  lib : Lib
  peer : List Exchange → Request → Outcome
  creds : Option Credentials
  insecure : Bool

/-- The text after a given start. -/
def afterStart (start s : Text) : Option Text :=
  if start.isPrefixOf s then some (s.drop start.length) else none

/-- `([^"]*)"`, with what follows it. -/
def quoted (s : Text) : Option (Text × Text) :=
  match s.dropWhile (· ≠ '"') with
  | '"' :: rest => some (s.takeWhile (· ≠ '"'), rest)
  | _ => none

def optionalGroup (start s : Text) : Text × Text :=
  ((afterStart start s).bind quoted).getD ([], s)

/-- The first position in a text at which a pattern matches. -/
def findFirst {α : Type} (at? : Text → Option α) : Text → Option α
  | [] => at? []
  | c :: s => (at? (c :: s)).or (findFirst at? s)

/-- `realm="([^"]*)"(?:,service="([^"]*)")?(?:,scope="([^"]*)")?`. -/
def bearerChallengePattern : Text → Option (Text × Text × Text) :=
  findFirst fun s =>
    ((afterStart "realm=\"".toList s).bind quoted).map fun (realm, rest) =>
      let (service, rest) := optionalGroup ",service=\"".toList rest
      (realm, service, (optionalGroup ",scope=\"".toList rest).1)

/-- `<([^>]+)>;\s*rel="next"`. -/
def linkNextPattern : Text → Option Text :=
  findFirst fun s =>
    match s with
    | '<' :: rest =>
      match rest.dropWhile (· ≠ '>') with
      | '>' :: ';' :: rest' =>
        if rest.takeWhile (· ≠ '>') ≠ [] ∧ "rel=\"next\"".toList.isPrefixOf
            (rest'.dropWhile fun c => c ∈ ['\t', '\n', '\x0c', '\r', ' ']) then
          some (rest.takeWhile (· ≠ '>'))
        else none
      | _ => none
    | _ => none

def maxTagPages : ℕ := 10

def maxResponseBodyBytes : ℕ := 4194304

/-- `io.ReadAll` of the body, limited to one byte more than the maximum. -/
def readLimited (resp : Response) : Option Bytes := resp.body.map (·.take (maxResponseBodyBytes + 1))

/-- The body of a response, unless it cannot be read or is too long. -/
def readBody (resp : Response) : Option Bytes :=
  (readLimited resp).filter fun body => body.length ≤ maxResponseBodyBytes

/-- What `http.NewRequest` reads from the text of a URL: an opaque part leaves no host. -/
def newRequestURL (u : URL) : URL :=
  if u.opaquePart ≠ [] then { u with host := [], user := none } else u

/-- `Client.Do` sends a request to a host over http or https. -/
def URL.sendable (u : URL) : Bool := u.host != [] && (u.scheme == http || u.scheme == https)

/-- Without an authorization the user of the URL is sent as one. -/
def withUser (req : Request) : Request :=
  match req.authorization, req.url.user with
  | none, some (username, password) => { req with authorization := some (.basic username password) }
  | _, _ => req

namespace Call

variable (c : Call)

def send (trace : List Exchange) (req : Request) : Outcome × List Exchange :=
  if req.url.sendable then
    let req := withUser req
    (c.peer trace req, trace ++ [⟨req, c.peer trace req⟩])
  else (.failed .other, trace)

def doGet (trace : List Exchange) (purpose : Purpose) (reqURL : URL) (accept : Text)
    (authHeader : Option Auth) : Outcome × List Exchange :=
  c.send trace ⟨purpose, newRequestURL reqURL, accept, authHeader⟩

/-- The token of a response, from either of its fields. What a token body holds beyond the limit is
cut off, not refused. -/
def readToken (resp : Response) : Except RegistryError Auth :=
  match readLimited resp with
  | none => .error .readingBody
  | some body =>
    if resp.status ≠ 200 then .error (.status resp.status)
    else
      match c.lib.decodeToken body with
      | none => .error .decodingBody
      | some (token, accessToken) =>
        let token := if token = [] then accessToken else token
        if token = [] then .error .noToken else .ok (.bearer token)

/-- The header of a token request: Basic with the credentials, if there are any. -/
def tokenAuth : Option Auth :=
  match c.creds with
  | none => none
  | some creds => if Credentials.empty (some creds) then none
      else some (.basic creds.username creds.password)

def fetchBearerToken (trace : List Exchange) (realm service scope : Text) :
    Except RegistryError Auth × List Exchange :=
  match c.lib.parse realm with
  | none => (.error .parsingRealm, trace)
  | some u =>
    let u := { u with rawQuery := c.lib.setQuery u.rawQuery service scope }
    if ¬ Credentials.empty c.creds ∧ u.scheme ≠ https ∧ ¬ c.insecure then
      (.error .refusedRealm, trace)
    else
      match c.send trace ⟨.token realm, newRequestURL u, "application/json".toList,
          c.tokenAuth⟩ with
      | (.failed _, trace) => (.error .fetchingToken, trace)
      | (.response resp, trace) => (c.readToken resp, trace)

def authenticate (trace : List Exchange) (challenge : Text) :
    Except RegistryError Auth × List Exchange :=
  if "Bearer ".toList.isPrefixOf challenge then
    match bearerChallengePattern challenge with
    | none => (.error .unrecognizedChallenge, trace)
    | some (realm, service, scope) =>
      if realm = [] then (.error .unrecognizedChallenge, trace)
      else c.fetchBearerToken trace realm service scope
  else if "Basic ".toList.isPrefixOf challenge then
    match c.tokenAuth with
    | none => (.error .noCredentials, trace)
    | some auth => (.ok auth, trace)
  else (.error .unrecognizedChallenge, trace)

/-- A result with the header that is kept for the next page, and the exchanges so far. -/
structure Fetched (α : Type) where
  result : Except RegistryError α
  authHeader : Option Auth
  trace : List Exchange

/-- The shared body of `fetchTagsPage` and `fetchManifestExists`: a first request, and after a
challenge the same one with a new header. -/
def fetch {α : Type} (accept : Text) (decode : Response → Except RegistryError α)
    (trace : List Exchange) (url : URL) (authHeader : Option Auth) : Fetched α :=
  match c.doGet trace .first url accept authHeader with
  | (.failed failure, trace) => ⟨.error (.initialRequest failure), authHeader, trace⟩
  | (.response resp, trace) =>
    if resp.status = 401 then
      match c.authenticate trace resp.wwwAuthenticate with
      | (.error err, trace) => ⟨.error err, authHeader, trace⟩
      | (.ok newAuth, trace) =>
        match c.doGet trace .retry url accept (some newAuth) with
        | (.failed _, trace) => ⟨.error .callingRegistry, some newAuth, trace⟩
        | (.response resp2, trace) => ⟨decode resp2, some newAuth, trace⟩
    else ⟨decode resp, authHeader, trace⟩

/-- The tags of a page and the target of its link to the next one, empty when there is none. -/
def decodeTagsResponse (resp : Response) : Except RegistryError (List Text × Text) :=
  match readBody resp with
  | none => .error .readingBody
  | some body =>
    if resp.status ≠ 200 then .error (.status resp.status)
    else
      match c.lib.decodeTags body with
      | none => .error .decodingBody
      | some tags => .ok (tags, (linkNextPattern resp.link).getD [])

def decodeManifestExists (resp : Response) : Except RegistryError Bool :=
  match readBody resp with
  | none => .error .readingBody
  | some _ =>
    if resp.status = 200 then .ok true
    else if resp.status = 404 then .ok false
    else .error (.status resp.status)

def fetchTagsPage : List Exchange → URL → Option Auth → Fetched (List Text × Text) :=
  c.fetch "application/json".toList c.decodeTagsResponse

def manifestAcceptHeader : Text :=
  ("application/vnd.oci.image.manifest.v1+json, application/vnd.oci.image.index.v1+json, " ++
    "application/vnd.docker.distribution.manifest.v2+json, " ++
    "application/vnd.docker.distribution.manifest.list.v2+json").toList

def fetchManifestExists : List Exchange → URL → Option Auth → Fetched Bool :=
  c.fetch manifestAcceptHeader decodeManifestExists

/-- The failure of a first request that shows that the port does not speak TLS. -/
def shouldFallBackToHTTP : RegistryError → Bool
  | .initialRequest .recordHeader => true
  | .initialRequest .schemeMismatch => true
  | .initialRequest .connectionRefused => true
  | _ => false

/-- The fetch over https, and over http with a fresh header when an insecure registry does not speak
TLS. The scheme that was used comes along. -/
def withFallback {α : Type} (fetchURL : List Exchange → URL → Option Auth → Fetched α)
    (firstURL : Text → URL) : Text × Fetched α :=
  let fetched := fetchURL [] (firstURL https) none
  match fetched.result with
  | .ok _ => (https, fetched)
  | .error err =>
    if c.insecure ∧ shouldFallBackToHTTP err then
      (http, fetchURL fetched.trace (firstURL http) none)
    else (https, fetched)

def tagsURL (ref : Reference) (scheme : Text) : URL :=
  ⟨scheme, [], none, ref.apiHost, "/v2/".toList ++ ref.repository ++ "/tags/list".toList,
    "n=1000".toList⟩

def manifestURL (ref : Reference) (scheme : Text) : URL :=
  ⟨scheme, [], none, ref.apiHost,
    "/v2/".toList ++ ref.repository ++ "/manifests/".toList ++ ref.tag, []⟩

/-- A link keeps its path and query: scheme and host are those of the first page. -/
def resolvePageURL (scheme apiHost ref : Text) : Option URL :=
  (c.lib.parse ref).map fun u => { u with scheme := scheme, host := apiHost, user := none }

/-- The loop over the pages after the first one, with the number of pages that may follow. -/
def followPages (scheme apiHost : Text) :
    ℕ → List Text → Text → Option Auth → List Exchange →
      Except RegistryError (List Text) × List Exchange
  | 0, all, _, _, trace => (.ok all, trace)
  | n + 1, all, pageURL, authHeader, trace =>
    if pageURL = [] then (.ok all, trace)
    else
      match c.resolvePageURL scheme apiHost pageURL with
      | none => (.error .parsingLink, trace)
      | some resolved =>
        let fetched := c.fetchTagsPage trace resolved authHeader
        match fetched.result with
        | .error err => (.error err, fetched.trace)
        | .ok (pageTags, next) =>
          followPages scheme apiHost n (all ++ pageTags) next fetched.authHeader fetched.trace

def listTags (ref : Reference) : Except RegistryError (List Text) × List Exchange :=
  let (scheme, fetched) := c.withFallback c.fetchTagsPage (tagsURL ref)
  match fetched.result with
  | .error err => (.error err, fetched.trace)
  | .ok (tags, next) =>
    c.followPages scheme ref.apiHost (maxTagPages - 1) tags next fetched.authHeader fetched.trace

def tagExists (ref : Reference) : Except RegistryError Bool × List Exchange :=
  let (_, fetched) := c.withFallback c.fetchManifestExists (manifestURL ref)
  (fetched.result, fetched.trace)

end Call

end VyosClient.RegistryClient
