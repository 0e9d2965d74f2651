import VyosClient.RegistryPages

/-!
Where the requests of the registry client go, and what they carry, whatever the
servers answer. Pages go to the host of the reference, a token request to the
realm of a challenge; the credentials leave for these over https, a bearer
token for the pages alone. Without credentials a Basic header is sent just when
a realm is named whose URL carries a user.
-/

namespace VyosClient.RegistryConfinement

open ImageReference RegistryClient RegistryPages

variable {c : Call}

/-- All exchanges of a call: at most one failed attempt over https, and the pages in their order. -/
def CallRun (c : Call) (apiHost : Text) (trace : List Exchange) : Prop :=
  ∃ scheme failed, ∃ pages : List (List Exchange), trace = failed ++ pages.flatten ∧
    Chosen c apiHost failed scheme ∧ pages.length ≤ maxTagPages ∧
    ∀ page ∈ pages, PageRun c scheme apiHost page

theorem listTags_run (c : Call) (ref : Reference) :
    CallRun c ref.apiHost (c.listTags ref).2 := by
  obtain ⟨failed, page, htrace, hchosen, hrun, hauth⟩ :=
    withFallback_run c "application/json".toList (decodeTagsResponse_ne c)
      (fun scheme => rfl : ∀ scheme, (Call.tagsURL ref scheme).user = none) (fun _ => rfl)
      (fun _ => rfl)
  unfold Call.listTags
  change ∃ scheme, _
  generalize hfetched : c.withFallback c.fetchTagsPage (Call.tagsURL ref) = fetched
  change c.withFallback (c.fetch "application/json".toList c.decodeTagsResponse)
    (Call.tagsURL ref) = fetched at hfetched
  rw [hfetched] at htrace hchosen hrun hauth
  obtain ⟨scheme, result, authHeader, trace⟩ := fetched
  dsimp only at htrace hchosen hrun hauth ⊢
  cases result with
  | error err =>
    refine ⟨scheme, failed, [page], by simpa using htrace, hchosen, Nat.le_add_left 1 9, ?_⟩
    intro page' hmem
    rw [List.mem_singleton.mp hmem]
    exact hrun
  | ok tags =>
    obtain ⟨pageTags, next⟩ := tags
    obtain ⟨pages, htrace', hlen, hruns⟩ := followPages_run c scheme ref.apiHost (maxTagPages - 1)
      pageTags next hauth trace
    refine ⟨scheme, failed, page :: pages, ?_, hchosen, Nat.succ_le_succ hlen, ?_⟩
    · rw [List.flatten_cons, ← List.append_assoc, ← htrace]
      exact htrace'
    · rintro page' (_ | ⟨_, hmem⟩)
      · exact hrun
      · exact hruns page' hmem

theorem tagExists_run (c : Call) (ref : Reference) :
    CallRun c ref.apiHost (c.tagExists ref).2 := by
  obtain ⟨failed, page, htrace, hchosen, hrun, -⟩ :=
    withFallback_run c Call.manifestAcceptHeader decodeManifestExists_ne
      (fun scheme => rfl : ∀ scheme, (Call.manifestURL ref scheme).user = none) (fun _ => rfl)
      (fun _ => rfl)
  refine ⟨_, failed, [page], ?_, hchosen, Nat.le_add_left 1 9, ?_⟩
  · rw [List.flatten_cons, List.flatten_nil, List.append_nil]
    exact htrace
  · intro page' hmem
    rw [List.mem_singleton.mp hmem]
    exact hrun

/-- A request for tags or a manifest, and not for a token. -/
def ForPage (e : Exchange) : Prop := e.request.purpose = .first ∨ e.request.purpose = .retry

/-- The very first request went over https and failed at connection level. -/
def FirstFailed (trace : List Exchange) : Prop :=
  ∃ e rest f, trace = e :: rest ∧ ForPage e ∧ e.request.url.scheme = https ∧
    e.outcome = .failed f ∧ Call.shouldFallBackToHTTP (.initialRequest f) = true

/-- A token request over https to a realm that an answer of the registry names. -/
def AtRealm (c : Call) (ref : Reference) (trace : List Exchange) (e : Exchange) : Prop :=
  ∃ first ∈ trace, ∃ challenge realm u, first.request.url.host = ref.apiHost ∧
    Challenged first challenge ∧ NamesRealm c challenge realm u ∧ e.request.purpose = .token realm ∧
    e.request.url.scheme = https ∧ e.request.url.host = u.host

/-- Pages are asked of the registry alone, over https where it can be; the credentials and the tokens
they buy stay with it and its realm; without credentials no Basic header leaves; and the run is
short. -/
structure Confined (c : Call) (ref : Reference) (trace : List Exchange) : Prop where
  page : ∀ e ∈ trace, ForPage e → e.request.url.host = ref.apiHost ∧
    (e.request.url.scheme = https ∨
      c.insecure = true ∧ e.request.url.scheme = http ∧ FirstFailed trace)
  credentials : c.insecure = false → ∀ creds, c.creds = some creds → ∀ e ∈ trace,
    e.request.authorization = some (.basic creds.username creds.password) →
      e.request.url.scheme = https ∧
        (e.request.url.host = ref.apiHost ∨ AtRealm c ref trace e)
  bearer : ∀ e ∈ trace, ∀ token, e.request.authorization = some (.bearer token) →
    e.request.url.host = ref.apiHost
  anonymous : Credentials.empty c.creds = true → ∀ e ∈ trace, ∀ username password,
    e.request.authorization ≠ some (.basic username password)
  bounded : ∃ failed, ∃ pages : List (List Exchange), trace = failed ++ pages.flatten ∧
    (failed = [] ∨ failed.length = 1 ∧ FirstFailed trace) ∧ pages.length ≤ maxTagPages ∧
    ∀ page ∈ pages, page.length ≤ 3 ∧ ∀ e ∈ page.tail, e.request.purpose ≠ .first

/-- A challenge that names a realm whose URL carries a user. -/
def NamesUser (c : Call) (e : Exchange) : Prop :=
  ∃ challenge realm u, Challenged e challenge ∧ NamesRealm c challenge realm u ∧
    (newRequestURL u).sendable = true ∧ u.user ≠ none

theorem firstFailed_of_chosen {apiHost scheme : Text} {failed rest : List Exchange}
    (h : Chosen c apiHost failed scheme) :
    failed = [] ∧ scheme = https ∨
      c.insecure = true ∧ scheme = http ∧ failed.length = 1 ∧ FirstFailed (failed ++ rest) := by
  obtain h | ⟨hinsecure, hscheme, e, f, rfl, he, -, hout, hback⟩ := h
  · exact Or.inl h
  · exact Or.inr ⟨hinsecure, hscheme, rfl, e, rest, f, rfl, he.purpose, he.scheme_eq, hout, hback⟩

/-- Every exchange of a run asks for a page of the registry, or for a token at the realm of a challenge
by it. -/
theorem exchange_cases {apiHost : Text} {trace : List Exchange} (h : CallRun c apiHost trace)
    {e : Exchange} (he : e ∈ trace) :
    (∃ scheme, PageExchange c scheme apiHost e ∧
      (scheme = https ∨ c.insecure = true ∧ scheme = http ∧ FirstFailed trace)) ∨
    ∃ first ∈ trace, ∃ challenge u, first.request.url.host = apiHost ∧
      Challenged first challenge ∧ TokenExchange c challenge u e := by
  obtain ⟨scheme, failed, pages, rfl, hchosen, -, hruns⟩ := h
  rcases List.mem_append.mp he with he | he
  · obtain ⟨rfl, -⟩ | ⟨-, -, e', f, rfl, he', -⟩ := hchosen
    · cases he
    · rw [List.mem_singleton.mp he]
      exact Or.inl ⟨https, he', Or.inl rfl⟩
  · obtain ⟨page, hpage, he⟩ := List.mem_flatten.mp he
    obtain hexchange | ⟨first, hmem, challenge, u, hfirst, hch, htoken⟩ :=
      (hruns page hpage).exchange e he
    · refine Or.inl ⟨scheme, hexchange, ?_⟩
      obtain ⟨-, hscheme⟩ | ⟨hinsecure, hscheme, -, hfailed⟩ := firstFailed_of_chosen hchosen
      · exact Or.inl hscheme
      · exact Or.inr ⟨hinsecure, hscheme, hfailed⟩
    · exact Or.inr ⟨first, List.mem_append_right _ (List.mem_flatten_of_mem hpage hmem), challenge,
        u, hfirst.host_eq, hch, htoken⟩

theorem not_forPage_of_token {challenge : Text} {u : URL} {e : Exchange}
    (h : TokenExchange c challenge u e) : ¬ ForPage e := by
  obtain ⟨realm, -, hpurpose⟩ := h.names
  rintro (hfirst | hretry)
  · rw [hpurpose] at hfirst
    cases hfirst
  · rw [hpurpose] at hretry
    cases hretry

theorem tokenAuth_ne_bearer (c : Call) (token : Text) : c.tokenAuth ≠ some (.bearer token) := by
  unfold Call.tokenAuth
  cases c.creds with
  | none => exact fun h => by cases h
  | some creds =>
    dsimp only
    split <;> exact fun h => by cases h

theorem authorization_ne_bearer {challenge : Text} {u : URL} {e : Exchange}
    (h : TokenExchange c challenge u e) (token : Text) :
    e.request.authorization ≠ some (.bearer token) := by
  rw [h.auth]
  have hown := tokenAuth_ne_bearer c token
  cases hauth : c.tokenAuth with
  | none =>
    rw [Option.none_or]
    cases u.user <;> exact fun hbearer => by cases hbearer
  | some auth =>
    rw [Option.some_or, ← hauth]
    exact hown

/-- A token request without credentials carries the user of its realm. -/
theorem authorization_of_anonymous {challenge : Text} {u : URL} {e : Exchange}
    (h : TokenExchange c challenge u e) (hnone : c.tokenAuth = none) :
    e.request.authorization = u.user.map fun user => .basic user.1 user.2 := by
  rw [h.auth, hnone, Option.none_or]

/-- A user in the URL of a realm is sent, so a run without credentials must not meet one. -/
theorem not_namesUser_of_confined {ref : Reference} {trace : List Exchange}
    (h : CallRun c ref.apiHost trace) (hconfined : Confined c ref trace)
    (hempty : Credentials.empty c.creds = true) : ∀ e ∈ trace, ¬ NamesUser c e := by
  rintro e he ⟨challenge, realm, u, hch, hnames, hsendable, huser⟩
  have hnone := tokenAuth_eq_none.mpr hempty
  obtain ⟨scheme, failed, pages, rfl, hchosen, -, hruns⟩ := h
  rcases List.mem_append.mp he with he | he
  · obtain ⟨rfl, -⟩ | ⟨-, -, e', f, rfl, -, -, hout, -⟩ := hchosen
    · cases he
    · rw [List.mem_singleton.mp he] at hch
      obtain ⟨-, resp, hresp, -⟩ := hch
      rw [hout] at hresp
      cases hresp
  · obtain ⟨page, hpage, he⟩ := List.mem_flatten.mp he
    obtain ⟨e', he', htoken⟩ := (hruns page hpage).sent e he challenge realm u hch hnames hnone
      hsendable
    have hmem := List.mem_append_right failed (List.mem_flatten_of_mem hpage he')
    obtain ⟨user, huser⟩ := Option.ne_none_iff_exists'.mp huser
    have hauth := authorization_of_anonymous htoken hnone
    rw [huser] at hauth
    exact hconfined.anonymous hempty e' hmem user.1 user.2 hauth

/-- A challenge that is followed by a token request without credentials names no user. -/
theorem authorization_eq_none {trace : List Exchange} {first e : Exchange} {challenge : Text}
    {u : URL} (hquiet : ∀ e ∈ trace, ¬ NamesUser c e) (hmem : first ∈ trace)
    (hch : Challenged first challenge) (htoken : TokenExchange c challenge u e)
    (hnone : c.tokenAuth = none) : e.request.authorization = none := by
  rw [authorization_of_anonymous htoken hnone]
  cases huser : u.user with
  | none => rfl
  | some user =>
    obtain ⟨realm, hnames, -⟩ := htoken.names
    refine absurd ⟨challenge, realm, u, hch, hnames, htoken.sendable, ?_⟩ (hquiet first hmem)
    rw [huser]
    exact Option.some_ne_none user

theorem confined_of_quiet {ref : Reference} {trace : List Exchange}
    (h : CallRun c ref.apiHost trace)
    (hquiet : Credentials.empty c.creds = true → ∀ e ∈ trace, ¬ NamesUser c e) :
    Confined c ref trace := by
  refine ⟨fun e he hpage => ?_, fun hsecure creds hcreds e he hauth => ?_,
    fun e he token hauth => ?_, fun hempty e he username password hauth => ?_, ?_⟩
  · obtain ⟨scheme, hexchange, hscheme⟩ | ⟨_, _, _, _, _, _, htoken⟩ := exchange_cases h he
    · rw [hexchange.scheme_eq]
      exact ⟨hexchange.host_eq, hscheme⟩
    · exact absurd hpage (not_forPage_of_token htoken)
  · obtain ⟨scheme, hexchange, hscheme⟩ | ⟨first, hmem, challenge, u, hhost, hch, htoken⟩ :=
      exchange_cases h he
    · obtain rfl | ⟨hinsecure, -⟩ := hscheme
      · exact ⟨hexchange.scheme_eq, Or.inl hexchange.host_eq⟩
      · rw [hsecure] at hinsecure
        cases hinsecure
    · have hsome : c.tokenAuth ≠ none := by
        intro hnone
        rw [authorization_eq_none (hquiet (tokenAuth_eq_none.mp hnone)) hmem hch htoken hnone] at hauth
        cases hauth
      have hscheme : e.request.url.scheme = https := by
        rw [htoken.scheme_eq]
        obtain hhttps | hinsecure := htoken.guarded hsome
        · exact hhttps
        · rw [hsecure] at hinsecure
          cases hinsecure
      obtain ⟨realm, hnames, hpurpose⟩ := htoken.names
      exact ⟨hscheme, Or.inr ⟨first, hmem, challenge, realm, u, hhost, hch, hnames, hpurpose, hscheme,
        htoken.host_eq⟩⟩
  · obtain ⟨scheme, hexchange, -⟩ | ⟨_, _, _, _, _, _, htoken⟩ := exchange_cases h he
    · exact hexchange.host_eq
    · exact absurd hauth (authorization_ne_bearer htoken token)
  · have hnone := tokenAuth_eq_none.mpr hempty
    obtain ⟨scheme, hexchange, -⟩ | ⟨first, hmem, challenge, u, -, hch, htoken⟩ :=
      exchange_cases h he
    · have hown := hexchange.auth username password hauth
      rw [hnone, hauth] at hown
      cases hown
    · rw [authorization_eq_none (hquiet hempty) hmem hch htoken hnone] at hauth
      cases hauth
  · obtain ⟨scheme, failed, pages, rfl, hchosen, hlen, hruns⟩ := h
    refine ⟨failed, pages, rfl, ?_, hlen, fun page hpage =>
      ⟨(hruns page hpage).length_le, (hruns page hpage).continued⟩⟩
    obtain ⟨hfailed, -⟩ | ⟨-, -, hfailed⟩ := firstFailed_of_chosen hchosen
    · exact Or.inl hfailed
    · exact Or.inr hfailed

theorem confined_iff_of_run {ref : Reference} {trace : List Exchange}
    (h : CallRun c ref.apiHost trace) :
    Confined c ref trace ↔ (Credentials.empty c.creds = true → ∀ e ∈ trace, ¬ NamesUser c e) :=
  ⟨not_namesUser_of_confined h, confined_of_quiet h⟩

/-- Both calls keep what they send to the registry and its realm, whatever the servers answer, just
when no challenge to a call without credentials names a realm whose URL carries a user. -/
theorem confined_iff (c : Call) (ref : Reference) :
    (Confined c ref (c.listTags ref).2 ↔
      (Credentials.empty c.creds = true → ∀ e ∈ (c.listTags ref).2, ¬ NamesUser c e)) ∧
    (Confined c ref (c.tagExists ref).2 ↔
      (Credentials.empty c.creds = true → ∀ e ∈ (c.tagExists ref).2, ¬ NamesUser c e)) :=
  ⟨confined_iff_of_run (listTags_run c ref), confined_iff_of_run (tagExists_run c ref)⟩

/-- A registry whose challenge names a realm with a user. -/
def namingUser : Call where
  lib :=
    { parse := fun s =>
        if s = "https://u:p@auth.example/token".toList then
          some ⟨https, [], some ("u".toList, "p".toList), "auth.example".toList, "/token".toList, []⟩
        else none
      setQuery := fun query _ _ => query
      decodeTags := fun _ => none
      decodeToken := fun _ => none }
  peer := fun _ _ => .response ⟨401, "Bearer realm=\"https://u:p@auth.example/token\"".toList, [],
    some []⟩
  creds := none
  insecure := false

def exampleRef : Reference :=
  ⟨"registry.example".toList, "registry.example".toList, "app".toList, "1".toList, false⟩

/-- Without credentials a Basic header goes to the realm, with the user of its URL. -/
theorem basic_without_credentials :
    Credentials.empty namingUser.creds = true ∧
      (∃ e ∈ (namingUser.tagExists exampleRef).2,
        e.request.authorization = some (.basic "u".toList "p".toList)) ∧
      ¬ Confined namingUser exampleRef (namingUser.tagExists exampleRef).2 := by
  have hbasic : ∃ e ∈ (namingUser.tagExists exampleRef).2,
      e.request.authorization = some (.basic "u".toList "p".toList) := by decide
  obtain ⟨e, he, hauth⟩ := hbasic
  exact ⟨rfl, ⟨e, he, hauth⟩, fun h => h.anonymous rfl e he _ _ hauth⟩

end VyosClient.RegistryConfinement
