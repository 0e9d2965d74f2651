import VyosClient.RegistryClient

/-!
What the fetch of one page or manifest sends, whatever the servers answer: the
request to the host of the reference, after a challenge one token request to the
realm that it names, and the request again. The pages of a call follow each
other, after at most one attempt over https that failed.
-/

namespace VyosClient.RegistryPages

open ImageReference RegistryClient

variable {c : Call}

/-- A Bearer challenge that names a realm with a URL. -/
def NamesRealm (c : Call) (challenge realm : Text) (u : URL) : Prop :=
  "Bearer ".toList.isPrefixOf challenge = true ∧ ∃ service scope,
    bearerChallengePattern challenge = some (realm, service, scope) ∧ realm ≠ [] ∧
      c.lib.parse realm = some u

/-- A challenge in answer to the first request of a page or manifest. -/
def Challenged (e : Exchange) (challenge : Text) : Prop :=
  e.request.purpose = .first ∧ ∃ resp, e.outcome = .response resp ∧ resp.status = 401 ∧
    resp.wwwAuthenticate = challenge

/-- No Basic header but one with the credentials. -/
def OwnAuth (c : Call) (auth : Option Auth) : Prop :=
  ∀ username password, auth = some (.basic username password) → c.tokenAuth = auth

/-- A request for a page or manifest. -/
structure PageExchange (c : Call) (scheme apiHost : Text) (e : Exchange) : Prop where
  purpose : e.request.purpose = .first ∨ e.request.purpose = .retry
  scheme_eq : e.request.url.scheme = scheme
  host_eq : e.request.url.host = apiHost
  auth : OwnAuth c e.request.authorization

/-- A token request to the realm of a challenge. -/
structure TokenExchange (c : Call) (challenge : Text) (u : URL) (e : Exchange) : Prop where
  names : ∃ realm, NamesRealm c challenge realm u ∧ e.request.purpose = .token realm
  scheme_eq : e.request.url.scheme = u.scheme
  host_eq : e.request.url.host = u.host
  guarded : c.tokenAuth ≠ none → u.scheme = https ∨ c.insecure = true
  sendable : (newRequestURL u).sendable = true
  auth : e.request.authorization =
    c.tokenAuth.or (u.user.map fun user => .basic user.1 user.2)

theorem newRequestURL_of_sendable {u : URL} (h : (newRequestURL u).sendable = true) :
    newRequestURL u = u := by
  unfold newRequestURL at h ⊢
  by_cases hopaque : u.opaquePart ≠ []
  · rw [if_pos hopaque] at h
    unfold URL.sendable at h
    simp at h
  · exact if_neg hopaque

theorem sendable_setQuery (u : URL) (query : Text) :
    (newRequestURL { u with rawQuery := query }).sendable = (newRequestURL u).sendable := by
  unfold newRequestURL
  dsimp only
  split <;> rfl

/-- A request that leaves the client is listed with its answer. -/
theorem send_cases (c : Call) (trace : List Exchange) (req : Request) :
    (req.url.sendable = false ∧ c.send trace req = (.failed .other, trace)) ∨
      (req.url.sendable = true ∧ ∃ e : Exchange, e.request = withUser req ∧
        c.send trace req = (e.outcome, trace ++ [e])) := by
  unfold Call.send
  cases hsend : req.url.sendable with
  | false => exact Or.inl ⟨rfl, by simp⟩
  | true => exact Or.inr ⟨rfl, ⟨withUser req, c.peer trace (withUser req)⟩, rfl, by simp⟩

theorem withUser_of_user_none {req : Request} (h : req.url.user = none) : withUser req = req := by
  unfold withUser
  rw [h]
  cases req.authorization <;> rfl

theorem url_withUser (req : Request) : (withUser req).url = req.url := by
  unfold withUser
  split <;> rfl

theorem purpose_withUser (req : Request) : (withUser req).purpose = req.purpose := by
  unfold withUser
  split <;> rfl

theorem authorization_withUser (req : Request) : (withUser req).authorization =
    req.authorization.or (req.url.user.map fun user => .basic user.1 user.2) := by
  obtain ⟨purpose, ⟨scheme, opaquePart, user, host, path, rawQuery⟩, accept, auth⟩ := req
  cases auth <;> cases user <;> rfl

theorem tokenAuth_eq_none : c.tokenAuth = none ↔ Credentials.empty c.creds = true := by
  unfold Call.tokenAuth
  cases c.creds with
  | none => exact iff_of_true rfl rfl
  | some creds =>
    dsimp only
    split
    · rename_i h
      exact iff_of_true rfl h
    · rename_i h
      exact iff_of_false (fun hnone => (nomatch hnone)) h

/-- A request for a page, when it is sent at all. -/
theorem doGet_cases (c : Call) (trace : List Exchange) {purpose : Purpose} {url : URL}
    (accept : Text) {auth : Option Auth} (hpurpose : purpose = .first ∨ purpose = .retry)
    (huser : url.user = none) (hauth : OwnAuth c auth) :
    c.doGet trace purpose url accept auth = (.failed .other, trace) ∨
      ∃ e, e.request.purpose = purpose ∧ PageExchange c url.scheme url.host e ∧
        c.doGet trace purpose url accept auth = (e.outcome, trace ++ [e]) := by
  unfold Call.doGet
  rcases send_cases c trace ⟨purpose, newRequestURL url, accept, auth⟩ with
    ⟨-, hsend⟩ | ⟨hsendable, e, he, hsend⟩
  · exact Or.inl hsend
  · have hurl : newRequestURL url = url := newRequestURL_of_sendable hsendable
    rw [hurl] at he hsend
    rw [withUser_of_user_none huser] at he
    rw [hurl]
    refine Or.inr ⟨e, by rw [he], ⟨by rw [he]; exact hpurpose, by rw [he], by rw [he], ?_⟩, hsend⟩
    rw [he]
    exact hauth

theorem ownAuth_bearer (c : Call) (token : Text) : OwnAuth c (some (.bearer token)) :=
  fun _ _ h => by cases h

/-- A header fit to be sent, or an error that is not one of a first request. -/
def Fit (c : Call) : Except RegistryError Auth → Prop
  | .ok auth => OwnAuth c (some auth)
  | .error err => ∀ f, err ≠ .initialRequest f

/-- A token response gives a bearer token or an error of its own. -/
theorem fit_readToken (c : Call) (resp : Response) : Fit c (c.readToken resp) := by
  unfold Call.readToken
  cases readLimited resp with
  | none => exact fun _ h => by cases h
  | some body =>
    dsimp only
    by_cases hstatus : resp.status ≠ 200
    · rw [if_pos hstatus]
      exact fun _ h => by cases h
    · rw [if_neg hstatus]
      cases c.lib.decodeToken body with
      | none => exact fun _ h => by cases h
      | some tokens =>
        dsimp only
        by_cases hnone : (if tokens.1 = [] then tokens.2 else tokens.1) = []
        · rw [if_pos hnone]
          exact fun _ h => by cases h
        · rw [if_neg hnone]
          exact ownAuth_bearer c _

/-- What a challenge leads to: at most one token request, to the realm it names, and none of the
headers it yields is a Basic one but the credentials'. -/
structure Answered (c : Call) (challenge : Text) (tokens : List Exchange)
    (result : Except RegistryError Auth) : Prop where
  length_le : tokens.length ≤ 1
  token : ∀ e ∈ tokens, ∃ u, TokenExchange c challenge u e
  sent : ∀ realm u, NamesRealm c challenge realm u → c.tokenAuth = none →
    (newRequestURL u).sendable = true → tokens ≠ []
  fit : Fit c result

/-- No token request, and an error or a header that is fit to be sent. -/
theorem answered_nil {challenge : Text} {result : Except RegistryError Auth}
    (hquiet : ∀ realm u, NamesRealm c challenge realm u → c.tokenAuth = none →
      (newRequestURL u).sendable = false)
    (hfit : Fit c result) : Answered c challenge [] result := by
  refine ⟨Nat.zero_le 1, ?_, ?_, hfit⟩
  · intro e he
    cases he
  · intro realm u hnames hnone hsendable
    rw [hquiet realm u hnames hnone] at hsendable
    cases hsendable

theorem namesRealm_unique {challenge realm realm' : Text} {u u' : URL}
    (h : NamesRealm c challenge realm u) (h' : NamesRealm c challenge realm' u') :
    realm = realm' ∧ u = u' := by
  obtain ⟨-, service, scope, hpattern, -, hparse⟩ := h
  obtain ⟨-, service', scope', hpattern', -, hparse'⟩ := h'
  rw [hpattern] at hpattern'
  cases hpattern'
  rw [hparse] at hparse'
  cases hparse'
  exact ⟨rfl, rfl⟩

/-- The token request that leaves the client, unless the credentials were refused to the realm. -/
theorem tokenExchange_of_send {challenge realm query : Text} {u : URL} {e : Exchange}
    (hnames : NamesRealm c challenge realm u)
    (hguard : ¬ (¬ Credentials.empty c.creds = true ∧ u.scheme ≠ https ∧ ¬ c.insecure = true))
    (hsendable : (newRequestURL { u with rawQuery := query }).sendable = true)
    (he : e.request = withUser ⟨.token realm, newRequestURL { u with rawQuery := query },
      "application/json".toList, c.tokenAuth⟩) : TokenExchange c challenge u e := by
  have hurl := newRequestURL_of_sendable hsendable
  refine ⟨⟨realm, hnames, ?_⟩, ?_, ?_, ?_, ?_, ?_⟩
  · rw [he, purpose_withUser]
  · rw [he, url_withUser]
    dsimp only
    rw [hurl]
  · rw [he, url_withUser]
    dsimp only
    rw [hurl]
  · intro hsome
    by_contra hbad
    rw [not_or] at hbad
    exact hguard ⟨fun hempty => hsome (tokenAuth_eq_none.mpr hempty), hbad⟩
  · rw [← hsendable]
    exact (sendable_setQuery u query).symm
  · rw [he, authorization_withUser]
    dsimp only
    rw [hurl]

theorem answered_singleton {challenge : Text} {u : URL} {e : Exchange}
    {result : Except RegistryError Auth} (he : TokenExchange c challenge u e) (hfit : Fit c result) :
    Answered c challenge [e] result := by
  refine ⟨Nat.le_refl 1, fun e' he' => ?_, fun _ _ _ _ _ hnil => ?_, hfit⟩
  · rw [List.mem_singleton.mp he']
    exact ⟨u, he⟩
  · cases hnil

theorem fetchBearerToken_answered (trace : List Exchange) {challenge realm service scope : Text}
    (hbearer : "Bearer ".toList.isPrefixOf challenge = true)
    (hpattern : bearerChallengePattern challenge = some (realm, service, scope))
    (hrealm : realm ≠ []) :
    ∃ tokens, (c.fetchBearerToken trace realm service scope).2 = trace ++ tokens ∧
      Answered c challenge tokens (c.fetchBearerToken trace realm service scope).1 := by
  unfold Call.fetchBearerToken
  cases hparse : c.lib.parse realm with
  | none =>
    refine ⟨[], (List.append_nil trace).symm, answered_nil ?_ fun _ h => by cases h⟩
    rintro realm' u ⟨-, service', scope', hpattern', -, hparse'⟩
    rw [hpattern] at hpattern'
    cases hpattern'
    rw [hparse] at hparse'
    cases hparse'
  | some u =>
    have hnames : NamesRealm c challenge realm u :=
      ⟨hbearer, service, scope, hpattern, hrealm, hparse⟩
    dsimp only
    by_cases hrefuse : ¬ Credentials.empty c.creds = true ∧ u.scheme ≠ https ∧ ¬ c.insecure = true
    · rw [if_pos hrefuse]
      refine ⟨[], (List.append_nil trace).symm, answered_nil ?_ fun _ h => by cases h⟩
      exact fun _ _ _ hnone => absurd (tokenAuth_eq_none.mp hnone) hrefuse.1
    · rw [if_neg hrefuse]
      rcases send_cases c trace ⟨.token realm,
        newRequestURL { u with rawQuery := c.lib.setQuery u.rawQuery service scope },
        "application/json".toList, c.tokenAuth⟩ with ⟨hunsent, hsend⟩ | ⟨hsendable, e, he, hsend⟩
      · rw [hsend]
        refine ⟨[], (List.append_nil trace).symm, answered_nil ?_ fun _ h => by cases h⟩
        intro realm' u' hnames' _
        rw [← (namesRealm_unique hnames hnames').2, ← hunsent]
        exact (sendable_setQuery u _).symm
      · have htoken := tokenExchange_of_send hnames hrefuse hsendable he
        rw [hsend]
        refine ⟨[e], ?_, answered_singleton htoken ?_⟩
        · cases e.outcome <;> rfl
        · cases e.outcome with
          | failed f => exact fun _ h => by cases h
          | response resp => exact fit_readToken c resp

theorem authenticate_answered (c : Call) (trace : List Exchange) (challenge : Text) :
    ∃ tokens, (c.authenticate trace challenge).2 = trace ++ tokens ∧
      Answered c challenge tokens (c.authenticate trace challenge).1 := by
  unfold Call.authenticate
  by_cases hbearer : "Bearer ".toList.isPrefixOf challenge = true
  · rw [if_pos hbearer]
    cases hpattern : bearerChallengePattern challenge with
    | none =>
      refine ⟨[], (List.append_nil trace).symm, answered_nil ?_ fun _ h => by cases h⟩
      rintro realm u ⟨-, service, scope, hsome, -⟩
      rw [hpattern] at hsome
      cases hsome
    | some groups =>
      obtain ⟨realm, service, scope⟩ := groups
      dsimp only
      by_cases hrealm : realm = []
      · rw [if_pos hrealm]
        refine ⟨[], (List.append_nil trace).symm, answered_nil ?_ fun _ h => by cases h⟩
        rintro realm' u ⟨-, service', scope', hsome, hne, -⟩
        rw [hpattern] at hsome
        cases hsome
        exact absurd hrealm hne
      · rw [if_neg hrealm]
        exact fetchBearerToken_answered trace hbearer hpattern hrealm
  · rw [if_neg hbearer]
    have hquiet : ∀ realm u, NamesRealm c challenge realm u → c.tokenAuth = none →
        (newRequestURL u).sendable = false := fun _ _ hnames _ => absurd hnames.1 hbearer
    by_cases hbasic : "Basic ".toList.isPrefixOf challenge = true
    · rw [if_pos hbasic]
      refine ⟨[], ?_, answered_nil hquiet ?_⟩
      · cases c.tokenAuth <;> exact (List.append_nil trace).symm
      · cases hauth : c.tokenAuth with
        | none => exact fun _ h => by cases h
        | some auth => exact fun _ _ _ => hauth
    · rw [if_neg hbasic]
      exact ⟨[], (List.append_nil trace).symm, answered_nil hquiet fun _ h => by cases h⟩

/-- The exchanges of one page or manifest. -/
structure PageRun (c : Call) (scheme apiHost : Text) (page : List Exchange) : Prop where
  exchange : ∀ e ∈ page, PageExchange c scheme apiHost e ∨ ∃ first ∈ page, ∃ challenge u,
    PageExchange c scheme apiHost first ∧ Challenged first challenge ∧ TokenExchange c challenge u e
  sent : ∀ first ∈ page, ∀ challenge realm u, Challenged first challenge →
    NamesRealm c challenge realm u → c.tokenAuth = none → (newRequestURL u).sendable = true →
      ∃ e ∈ page, TokenExchange c challenge u e
  continued : ∀ e ∈ page.tail, e.request.purpose ≠ .first
  length_le : page.length ≤ 3

theorem challenged_unique {e : Exchange} {challenge challenge' : Text} (h : Challenged e challenge)
    (h' : Challenged e challenge') : challenge = challenge' := by
  obtain ⟨-, resp, hout, -, rfl⟩ := h
  obtain ⟨-, resp', hout', -, rfl⟩ := h'
  rw [hout] at hout'
  cases hout'
  rfl

theorem pageRun_nil (c : Call) (scheme apiHost : Text) : PageRun c scheme apiHost [] :=
  ⟨fun _ h => absurd h List.not_mem_nil, fun _ h => absurd h List.not_mem_nil,
    fun _ h => absurd h List.not_mem_nil, Nat.zero_le 3⟩

/-- A first request that is not challenged. -/
theorem pageRun_singleton {scheme apiHost : Text} {e : Exchange}
    (he : PageExchange c scheme apiHost e) (hplain : ∀ challenge, ¬ Challenged e challenge) :
    PageRun c scheme apiHost [e] := by
  refine ⟨fun e' he' => Or.inl ?_, fun first hfirst challenge realm u hch => ?_,
    fun _ h => absurd h List.not_mem_nil, Nat.le_add_left 1 2⟩
  · rw [List.mem_singleton.mp he']
    exact he
  · rw [List.mem_singleton.mp hfirst] at hch
    exact absurd hch (hplain challenge)

/-- A challenged first request, the token request its challenge leads to, and the retry. -/
theorem pageRun_challenged {scheme apiHost challenge : Text} {first : Exchange}
    {tokens retry : List Exchange} {result : Except RegistryError Auth}
    (hfirst : PageExchange c scheme apiHost first) (hch : Challenged first challenge)
    (htokens : Answered c challenge tokens result)
    (hretry : ∀ e ∈ retry, PageExchange c scheme apiHost e ∧ e.request.purpose = .retry)
    (hlen : retry.length ≤ 1) : PageRun c scheme apiHost (first :: (tokens ++ retry)) := by
  have hcontinued : ∀ e ∈ tokens ++ retry, e.request.purpose ≠ .first := by
    intro e he hpurpose
    rcases List.mem_append.mp he with he | he
    · obtain ⟨u, htok⟩ := htokens.token e he
      obtain ⟨realm, -, hpurpose'⟩ := htok.names
      rw [hpurpose] at hpurpose'
      cases hpurpose'
    · have hpurpose' := (hretry e he).2
      rw [hpurpose] at hpurpose'
      cases hpurpose'
  refine ⟨fun e he => ?_, fun first' hmem challenge' realm u hch' hnames hnone hsendable => ?_,
    hcontinued, ?_⟩
  · rcases List.mem_cons.mp he with rfl | he
    · exact Or.inl hfirst
    · rcases List.mem_append.mp he with he | he
      · obtain ⟨u, hu⟩ := htokens.token e he
        exact Or.inr ⟨first, List.mem_cons_self, challenge, u, hfirst, hch, hu⟩
      · exact Or.inl (hretry e he).1
  · have hsame : first' = first := by
      rcases List.mem_cons.mp hmem with rfl | hmem
      · rfl
      · exact absurd hch'.1 (hcontinued first' hmem)
    subst hsame
    rw [← challenged_unique hch hch'] at hnames ⊢
    obtain ⟨e, rest, htok⟩ := List.exists_cons_of_ne_nil (htokens.sent realm u hnames hnone hsendable)
    have he : e ∈ tokens := by
      rw [htok]
      exact List.mem_cons_self
    obtain ⟨u', hu'⟩ := htokens.token e he
    obtain ⟨realm', hnames', -⟩ := hu'.names
    rw [(namesRealm_unique hnames hnames').2]
    exact ⟨e, List.mem_cons_of_mem _ (List.mem_append_left _ he), hu'⟩
  · have htok := htokens.length_le
    simp only [List.length_cons, List.length_append]
    omega

/-- The fetch of one page or manifest adds its exchanges to the trace. It keeps a header that is fit to
be sent, and an error of a first request is that of its one exchange. -/
def FetchRun {α : Type} (c : Call) (url : URL) (trace : List Exchange) (fetched : Call.Fetched α) :
    Prop :=
  ∃ page, fetched.trace = trace ++ page ∧ PageRun c url.scheme url.host page ∧
    OwnAuth c fetched.authHeader ∧
    ∀ f, fetched.result = .error (.initialRequest f) →
      f = .other ∨ ∃ e, page = [e] ∧ e.request.purpose = .first ∧ e.outcome = .failed f

section Fetch

variable {α : Type} {accept : Text} {decode : Response → Except RegistryError α}
  {trace : List Exchange} {url : URL} {auth : Option Auth} {first : Exchange}

/-- A first request that fails, or that is answered with anything but a challenge. -/
theorem fetch_plain (hdecode : ∀ resp f, decode resp ≠ .error (.initialRequest f))
    (hauth : OwnAuth c auth) (hpurpose : first.request.purpose = .first)
    (hfirst : PageExchange c url.scheme url.host first)
    (hget : c.doGet trace .first url accept auth = (first.outcome, trace ++ [first]))
    (hplain : ∀ resp, first.outcome = .response resp → resp.status ≠ 401) :
    FetchRun c url trace (c.fetch accept decode trace url auth) := by
  have hchallenged : ∀ challenge, ¬ Challenged first challenge := by
    rintro challenge ⟨-, resp, hresp, hstatus, -⟩
    exact hplain resp hresp hstatus
  unfold Call.fetch
  rw [hget]
  cases hout : first.outcome with
  | failed f =>
    refine ⟨[first], rfl, pageRun_singleton hfirst hchallenged, hauth, fun f' h => Or.inr ?_⟩
    cases h
    exact ⟨first, rfl, hpurpose, hout⟩
  | response resp =>
    dsimp only
    rw [if_neg (hplain resp hout)]
    exact ⟨[first], rfl, pageRun_singleton hfirst hchallenged, hauth,
      fun f h => absurd h (hdecode resp f)⟩

/-- A first request that is answered with a challenge. -/
theorem fetch_challenged (hdecode : ∀ resp f, decode resp ≠ .error (.initialRequest f))
    (huser : url.user = none) (hauth : OwnAuth c auth) (hpurpose : first.request.purpose = .first)
    (hfirst : PageExchange c url.scheme url.host first)
    (hget : c.doGet trace .first url accept auth = (first.outcome, trace ++ [first]))
    {resp : Response} (hout : first.outcome = .response resp) (hstatus : resp.status = 401) :
    FetchRun c url trace (c.fetch accept decode trace url auth) := by
  have hch : Challenged first resp.wwwAuthenticate := ⟨hpurpose, resp, hout, hstatus, rfl⟩
  obtain ⟨tokens, htrace, htokens⟩ :=
    authenticate_answered c (trace ++ [first]) resp.wwwAuthenticate
  have hfit := htokens.fit
  have hnoRetry : PageRun c url.scheme url.host (first :: (tokens ++ [])) :=
    pageRun_challenged hfirst hch htokens (fun _ h => absurd h List.not_mem_nil) (Nat.zero_le 1)
  unfold Call.fetch
  rw [hget, hout]
  dsimp only
  rw [if_pos hstatus]
  cases hresult : c.authenticate (trace ++ [first]) resp.wwwAuthenticate with
  | mk result trace' =>
    rw [hresult] at htrace htokens hfit
    dsimp only at htrace hfit
    subst htrace
    cases result with
    | error err =>
      refine ⟨first :: (tokens ++ []), by simp, hnoRetry, hauth, fun f h => ?_⟩
      cases h
      exact absurd rfl (hfit f)
    | ok newAuth =>
      dsimp only
      rcases doGet_cases c (trace ++ [first] ++ tokens) accept (Or.inr rfl) huser hfit with
        hget' | ⟨retry, hpurpose', hretry, hget'⟩
      · rw [hget']
        exact ⟨first :: (tokens ++ []), by simp, hnoRetry, hfit, fun f h => by cases h⟩
      · rw [hget']
        have hpage : PageRun c url.scheme url.host (first :: (tokens ++ [retry])) :=
          pageRun_challenged hfirst hch htokens
            (fun e he => by rw [List.mem_singleton.mp he]; exact ⟨hretry, hpurpose'⟩) le_rfl
        refine ⟨first :: (tokens ++ [retry]), ?_, hpage, ?_, ?_⟩
        · cases retry.outcome <;> simp
        · cases retry.outcome <;> exact hfit
        · intro f h
          cases hout' : retry.outcome with
          | failed f' =>
            rw [hout'] at h
            cases h
          | response resp2 =>
            rw [hout'] at h
            exact absurd h (hdecode resp2 f)

end Fetch

theorem fetch_run {α : Type} (c : Call) (accept : Text) {decode : Response → Except RegistryError α}
    (hdecode : ∀ resp f, decode resp ≠ .error (.initialRequest f)) (trace : List Exchange) {url : URL}
    {auth : Option Auth} (huser : url.user = none) (hauth : OwnAuth c auth) :
    FetchRun c url trace (c.fetch accept decode trace url auth) := by
  rcases doGet_cases c trace accept (Or.inl rfl) huser hauth with
    hget | ⟨first, hpurpose, hfirst, hget⟩
  · unfold Call.fetch
    rw [hget]
    refine ⟨[], (List.append_nil trace).symm, pageRun_nil c _ _, hauth, fun f h => Or.inl ?_⟩
    cases h
    rfl
  · by_cases hchallenge : ∃ resp, first.outcome = .response resp ∧ resp.status = 401
    · obtain ⟨resp, hout, hstatus⟩ := hchallenge
      exact fetch_challenged hdecode huser hauth hpurpose hfirst hget hout hstatus
    · exact fetch_plain hdecode hauth hpurpose hfirst hget
        fun resp hout hstatus => hchallenge ⟨resp, hout, hstatus⟩

theorem decodeTagsResponse_ne (c : Call) (resp : Response) (f : Failure) :
    c.decodeTagsResponse resp ≠ .error (.initialRequest f) := by
  unfold Call.decodeTagsResponse
  cases readBody resp with
  | none => exact fun h => by cases h
  | some body =>
    dsimp only
    by_cases hstatus : resp.status ≠ 200
    · rw [if_pos hstatus]
      exact fun h => by cases h
    · rw [if_neg hstatus]
      cases c.lib.decodeTags body <;> exact fun h => by cases h

theorem decodeManifestExists_ne (resp : Response) (f : Failure) :
    Call.decodeManifestExists resp ≠ .error (.initialRequest f) := by
  unfold Call.decodeManifestExists
  cases readBody resp with
  | none => exact fun h => by cases h
  | some body =>
    dsimp only
    by_cases hok : resp.status = 200
    · rw [if_pos hok]
      exact fun h => by cases h
    · rw [if_neg hok]
      by_cases hmissing : resp.status = 404
      · rw [if_pos hmissing]
        exact fun h => by cases h
      · rw [if_neg hmissing]
        exact fun h => by cases h

/-- The scheme of a run: http only after one attempt over https that failed at connection level. -/
def Chosen (c : Call) (apiHost : Text) (failed : List Exchange) (scheme : Text) : Prop :=
  failed = [] ∧ scheme = https ∨
    c.insecure = true ∧ scheme = http ∧ ∃ e f, failed = [e] ∧ PageExchange c https apiHost e ∧
      e.request.purpose = .first ∧ e.outcome = .failed f ∧
      Call.shouldFallBackToHTTP (.initialRequest f) = true

theorem initialRequest_of_fallBack {err : RegistryError}
    (h : Call.shouldFallBackToHTTP err = true) : ∃ f, err = .initialRequest f ∧ f ≠ .other := by
  cases err with
  | initialRequest f =>
    refine ⟨f, rfl, ?_⟩
    rintro rfl
    cases h
  | _ => cases h

theorem withFallback_run {α : Type} (c : Call) (accept : Text)
    {decode : Response → Except RegistryError α}
    (hdecode : ∀ resp f, decode resp ≠ .error (.initialRequest f)) {firstURL : Text → URL}
    {apiHost : Text} (huser : ∀ scheme, (firstURL scheme).user = none)
    (hscheme : ∀ scheme, (firstURL scheme).scheme = scheme)
    (hhost : ∀ scheme, (firstURL scheme).host = apiHost) :
    ∃ failed page, (c.withFallback (c.fetch accept decode) firstURL).2.trace = failed ++ page ∧
      Chosen c apiHost failed (c.withFallback (c.fetch accept decode) firstURL).1 ∧
      PageRun c (c.withFallback (c.fetch accept decode) firstURL).1 apiHost page ∧
      OwnAuth c (c.withFallback (c.fetch accept decode) firstURL).2.authHeader := by
  have hnoAuth : OwnAuth c none := fun _ _ h => by cases h
  obtain ⟨page, htrace, hrun, hauth, hfail⟩ :=
    fetch_run c accept hdecode [] (huser https) hnoAuth
  rw [hscheme, hhost] at hrun
  unfold Call.withFallback
  dsimp only
  cases hresult : (c.fetch accept decode [] (firstURL https) none).result with
  | ok tags => exact ⟨[], page, htrace, Or.inl ⟨rfl, rfl⟩, hrun, hauth⟩
  | error err =>
    dsimp only
    by_cases hback : c.insecure = true ∧ Call.shouldFallBackToHTTP err = true
    · rw [if_pos hback]
      obtain ⟨page', htrace', hrun', hauth', -⟩ := fetch_run c accept hdecode
        (c.fetch accept decode [] (firstURL https) none).trace (huser http) hnoAuth
      rw [hscheme, hhost] at hrun'
      obtain ⟨f, rfl, hother⟩ := initialRequest_of_fallBack hback.2
      obtain hf | ⟨e, rfl, hpurpose, hout⟩ := hfail f hresult
      · exact absurd hf hother
      · have he : PageExchange c https apiHost e := by
          obtain he | ⟨first, hmem, challenge, u, -, hch, -⟩ := hrun.exchange e List.mem_cons_self
          · exact he
          · rw [List.mem_singleton.mp hmem] at hch
            obtain ⟨-, resp, hresp, -⟩ := hch
            rw [hout] at hresp
            cases hresp
        refine ⟨[e], page', ?_, Or.inr ⟨hback.1, rfl, e, f, rfl, he, hpurpose, hout, hback.2⟩, hrun',
          hauth'⟩
        rw [htrace', htrace, List.nil_append]
    · rw [if_neg hback]
      exact ⟨[], page, htrace, Or.inl ⟨rfl, rfl⟩, hrun, hauth⟩

/-- Every further page is fetched from the host of the first one, whatever its link says. -/
theorem followPages_run (c : Call) (scheme apiHost : Text) (n : ℕ) (all : List Text)
    (pageURL : Text) {auth : Option Auth} (hauth : OwnAuth c auth) (trace : List Exchange) :
    ∃ pages : List (List Exchange),
      (c.followPages scheme apiHost n all pageURL auth trace).2 = trace ++ pages.flatten ∧
      pages.length ≤ n ∧ ∀ page ∈ pages, PageRun c scheme apiHost page := by
  have hstop : ∃ pages : List (List Exchange), trace = trace ++ pages.flatten ∧
      pages.length ≤ n ∧ ∀ page ∈ pages, PageRun c scheme apiHost page :=
    ⟨[], (List.append_nil trace).symm, Nat.zero_le n, fun _ h => absurd h List.not_mem_nil⟩
  induction n generalizing all pageURL auth trace with
  | zero => exact hstop
  | succ n ih =>
    unfold Call.followPages
    by_cases hlast : pageURL = []
    · rw [if_pos hlast]
      exact hstop
    · rw [if_neg hlast]
      cases hurl : c.resolvePageURL scheme apiHost pageURL with
      | none => exact hstop
      | some resolved =>
        obtain ⟨u, -, hresolved⟩ := Option.map_eq_some_iff.mp hurl
        have huser : resolved.user = none := by rw [← hresolved]
        have hscheme : resolved.scheme = scheme := by rw [← hresolved]
        have hhost : resolved.host = apiHost := by rw [← hresolved]
        obtain ⟨page, htrace, hrun, hauth', -⟩ := fetch_run c "application/json".toList
          (decodeTagsResponse_ne c) trace huser hauth
        rw [hscheme, hhost] at hrun
        change (c.fetchTagsPage trace resolved auth).trace = trace ++ page at htrace
        dsimp only
        cases hresult : (c.fetchTagsPage trace resolved auth).result with
        | error err =>
          refine ⟨[page], ?_, Nat.le_add_left 1 n, fun page' hmem => ?_⟩
          · simpa using htrace
          · rw [List.mem_singleton.mp hmem]
            exact hrun
        | ok tags =>
          obtain ⟨pageTags, next⟩ := tags
          dsimp only
          obtain ⟨pages, htrace', hlen, hruns⟩ := ih (all ++ pageTags) next hauth'
            (c.fetchTagsPage trace resolved auth).trace
            ⟨[], (List.append_nil _).symm, Nat.zero_le n, fun _ h => absurd h List.not_mem_nil⟩
          refine ⟨page :: pages, ?_, Nat.succ_le_succ hlen, ?_⟩
          · rw [List.flatten_cons, ← List.append_assoc, ← htrace]
            exact htrace'
          · rintro page' (_ | ⟨_, hmem⟩)
            · exact hrun
            · exact hruns page' hmem

end VyosClient.RegistryPages
