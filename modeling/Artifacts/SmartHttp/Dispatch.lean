import Artifacts.Auth
import Artifacts.Foundation.Separators
import Artifacts.GitWire.Fetch
import Artifacts.Rust.Base64

/-!
# Dispatch of the git requests

`gitHandler` is the entry of everything under `/git/:id/*rest`: it picks a scope, has the
token checked against it, and hands the request over to the code of one of git's two pack
services.  The scope is read off the request in one way (`requiredScope`), the service in
another (`serviceFromQuery` and the path).

`Reached` is the code a request ends in, down to the choice between the native handlers
and a `git` subprocess.

The scope is said to be enough for what is reached, for every method and every rest of a path;
that it is never more than enough is not claimed.  Rate limits and the bodies of the requests
are looked at elsewhere.
-/

namespace Artifacts
namespace SmartHttp

open Auth Foundation GitWire Rust Tokens

/-! ### Headers -/

/-- `HeaderMap::get`. -/
abbrev HeaderMap := String → Option (List UInt8)

/-- `HeaderValue::to_str`: visible ASCII, blanks and tabs. -/
def toStr (value : List UInt8) : Option String :=
  if value.all fun b => (32 ≤ b && b < 127) || b == 9 then fromUtf8 value else none

/-- `basic_token`: what stands behind the first colon of the decoded header. The user name is not
looked at. -/
def basicToken (headers : HeaderMap) : Result String :=
  let pass : Option String := do
    let value ← (headers "authorization").bind toStr
    let b64 ← stripPrefix value "Basic "
    let decoded ← (Base64.standard.decode b64).bind fromUtf8
    (splitOnce decoded ':').map Prod.snd
  match pass with
  | none => .error .unauthorizedBasic
  | some pass => .ok pass

/-- The value of `Git-Protocol`, as it is passed on to git. -/
def gitProtocol (headers : HeaderMap) : Option String := (headers "git-protocol").bind toStr

/-- `wants_v2`: some part of the protocol header, blanks aside, is `version=2`. -/
def wantsV2 (headers : HeaderMap) : Bool :=
  match gitProtocol headers with
  | none => false
  | some value =>
      (value.toList.splitOnP fun c => c == ':' || c == ',').any fun s =>
        trim (String.ofList s) == "version=2"

/-! ### Scope and service -/

/-- The two smart-HTTP services. -/
inductive Service where
  | uploadPack
  | receivePack
  deriving DecidableEq, Repr

def Service.asStr : Service → String
  | .uploadPack => "git-upload-pack"
  | .receivePack => "git-receive-pack"

/-- `required_scope`. A POST to receive-pack needs to write, and so does the listing that comes
before it; all else needs to read. -/
def requiredScope (method rest : String) (query : Option String) : Scope :=
  if endsWith rest "git-receive-pack" ∧ method = "POST" then .write
  else if endsWith rest "info/refs" then
    match query with
    | some q => if contains q "service=git-receive-pack" then .write else .read
    | none => .read
  else .read

/-- The service a parameter names. -/
def serviceNamed (printable : Char → Bool) (v : String) : Result Service :=
  if v = "git-upload-pack" then .ok .uploadPack
  else if v = "git-receive-pack" then .ok .receivePack
  else .error (.badRequest ("unsupported service " ++ debugStr printable v))

/-- `service_from_query`: the first `service` parameter counts. -/
def serviceFromQuery (printable : Char → Bool) (query : String) : Result Service :=
  match (split query '&').findSome? fun kv => stripPrefix kv "service=" with
  | some v => serviceNamed printable v
  | none => .error (.badRequest "missing ?service=... on info/refs")

/-! ### The handler -/

structure GitRequest where
  method : String
  query : Option String
  headers : HeaderMap
  /-- What `to_bytes` collects. -/
  body : Result (List UInt8)

/-- What the handler asks before it serves: the tokens, the disk and the configuration. It changes
none of them. -/
structure GitState where
  lib : Library
  tokens : TokenStore
  /-- The directory of the repo is there. -/
  isDir : String → Bool
  /-- `check_repo_byte_quota_async`. -/
  checkRepoByteQuota : String → Result Unit
  disableNative : Bool

/-- The code a request ends in, with what it is given: a native handler with the request it parsed,
or git itself. -/
inductive Reached where
  | nativeV2InfoRefs (service : Service)
  | packHandlerAdvertise (service : Service) (gitProtocol : Option String)
  | nativeLsRefs (args : LsRefsArgs)
  | nativeV2Fetch (req : V2FetchRequest)
  | nativeReceivePack (req : ReceivePackRequest)
  | packHandlerServe (service : Service) (gitProtocol : Option String) (body : List UInt8)
  deriving DecidableEq

/-- The service whose code it is. -/
def Reached.service : Reached → Service
  | .nativeV2InfoRefs service => service
  | .packHandlerAdvertise service _ => service
  | .nativeLsRefs _ => .uploadPack
  | .nativeV2Fetch _ => .uploadPack
  | .nativeReceivePack _ => .receivePack
  | .packHandlerServe service _ _ => service

/-- `info_refs`: the listing of the server's capabilities, native for the second protocol unless
that is turned off. -/
def infoRefs (service : Service) (headers : HeaderMap) (forceSubprocess : Bool) : Reached :=
  if !forceSubprocess && wantsV2 headers then .nativeV2InfoRefs service
  else .packHandlerAdvertise service (gitProtocol headers)

/-- The fetches of a body that `pack_handler` serves natively. -/
def nativeFetch (body : List UInt8) : Option Reached :=
  match parseLsRefsOnly body with
  | some args => some (.nativeLsRefs args)
  | none =>
      match parseV2Fetch body with
      | some req => if req.isSimple then some (.nativeV2Fetch req) else none
      | none => none

/-- `pack_handler`. What the native handlers cannot read goes to git, with the body as it came. -/
def packHandler (service : Service) (request : GitRequest) (native : Bool) : Result Reached := do
  let body ← request.body
  let handled : Option Reached :=
    if native then
      match service with
      | .uploadPack => nativeFetch body
      | .receivePack => (nativeRequest body).map .nativeReceivePack
    else none
  match handled with
  | some reached => .ok reached
  | none => .ok (.packHandlerServe service (gitProtocol request.headers) body)

/-- The repo id in a path. -/
def repoIdOf (id : String) : String :=
  if endsWith id ".git" then String.ofList (id.toList.take (id.toList.length - 4)) else id

/-- The dispatch on method and path, behind the authorization. -/
def dispatch (state : GitState) (repoId rest : String) (request : GitRequest) : Result Reached :=
  if request.method = "GET" ∧ rest = "info/refs" then do
    let service ← serviceFromQuery state.lib.printable (request.query.getD "")
    .ok (infoRefs service request.headers state.disableNative)
  else if request.method = "POST" ∧ rest = "git-upload-pack" then
    packHandler .uploadPack request !state.disableNative
  else if request.method = "POST" ∧ rest = "git-receive-pack" then do
    state.checkRepoByteQuota repoId
    packHandler .receivePack request !state.disableNative
  else
    .error (.badRequest ("unsupported git endpoint: " ++ request.method ++ " /" ++ rest))

/-- `git_handler`: the repo, and the code that was reached on it. -/
def gitHandler (state : GitState) (now : Int64) (id rest : String) (request : GitRequest) :
    Result (String × Reached) := do
  let repoId := repoIdOf id
  validateRepoId repoId
  if state.isDir repoId then
    let scope := requiredScope request.method rest (some (request.query.getD ""))
    let _ ← authorizeGit state.lib state.tokens now (basicToken request.headers) repoId scope
    let reached ← dispatch state repoId rest request
    .ok (repoId, reached)
  else .error (.repoNotFound repoId)

/-! ### Both readings agree -/

theorem stripPrefix_eq_some {s pat rest : String} (h : stripPrefix s pat = some rest) :
    s = pat ++ rest := by
  unfold stripPrefix at h
  split_ifs at h with hstarts
  obtain rfl := Option.some.inj h
  obtain ⟨tail, htail⟩ := List.isPrefixOf_iff_prefix.mp hstarts
  apply String.toList_inj.mp
  rw [String.toList_append, String.toList_ofList, ← htail, List.drop_left]

/-- A parameter that names the service of pushes stands somewhere in the query, which is
all that the scope looks for. -/
theorem contains_of_serviceFromQuery {printable : Char → Bool} {query : String}
    (h : serviceFromQuery printable query = .ok .receivePack) :
    contains query "service=git-receive-pack" = true := by
  unfold serviceFromQuery at h
  split at h
  · rename_i v hv
    obtain ⟨kv, hkv, hstrip⟩ := List.exists_of_findSome?_eq_some hv
    have hname : v = "git-receive-pack" := by
      unfold serviceNamed at h
      split_ifs at h with hupload hreceive
      · cases h
      · exact hreceive
    obtain ⟨piece, hpiece, rfl⟩ := List.mem_map.mp hkv
    have htext : piece = "service=git-receive-pack".toList := by
      rw [← @String.toList_ofList piece, stripPrefix_eq_some hstrip, hname]
      rfl
    unfold contains
    rw [decide_eq_true_eq, ← htext]
    exact infix_of_mem_splitOn hpiece
  · cases h

/-- The scope that the code of a service needs. -/
def Service.scope : Service → Scope
  | .uploadPack => .read
  | .receivePack => .write

theorem packHandler_service {service : Service} {request : GitRequest} {native : Bool}
    {reached : Reached} (h : packHandler service request native = .ok reached) :
    reached.service = service := by
  obtain ⟨body, -, h⟩ := Result.bind_eq_ok.mp h
  dsimp only at h
  split at h
  · rename_i reached' hhandled
    obtain rfl := Except.ok.inj h
    split_ifs at hhandled
    cases service with
    | uploadPack =>
        unfold nativeFetch at hhandled
        dsimp only at hhandled
        split at hhandled
        · obtain rfl := Option.some.inj hhandled
          rfl
        · split at hhandled
          · split_ifs at hhandled
            obtain rfl := Option.some.inj hhandled
            rfl
          · cases hhandled
    | receivePack =>
        obtain ⟨req, -, rfl⟩ := Option.map_eq_some_iff.mp hhandled
        rfl
  · obtain rfl := Except.ok.inj h
    rfl

/-- Whatever path and query lead to the code of the push service, the scope picked for
them is the one of writers. -/
theorem requiredScope_of_dispatch {state : GitState} {repoId rest : String} {request : GitRequest}
    {reached : Reached} (h : dispatch state repoId rest request = .ok reached)
    (hservice : reached.service = .receivePack) :
    requiredScope request.method rest (some (request.query.getD "")) = .write := by
  unfold dispatch at h
  split_ifs at h with hinfo hupload hreceive
  · obtain ⟨service, hquery, h⟩ := Result.bind_eq_ok.mp h
    obtain rfl := Except.ok.inj h
    have hpush : service = .receivePack := by
      unfold infoRefs at hservice
      split_ifs at hservice
      · exact hservice
      · exact hservice
    rw [hpush] at hquery
    have hcontains := contains_of_serviceFromQuery hquery
    obtain ⟨hmethod, hrest⟩ := hinfo
    have hends : endsWith "info/refs" "info/refs" = true := by decide
    unfold requiredScope
    rw [hmethod, hrest, if_neg (by decide), if_pos hends]
    dsimp only
    rw [if_pos hcontains]
  · have hnot := packHandler_service h
    rw [hservice] at hnot
    cases hnot
  · obtain ⟨hmethod, hrest⟩ := hreceive
    have hends : endsWith "git-receive-pack" "git-receive-pack" = true := by decide
    unfold requiredScope
    rw [hmethod, hrest, if_pos ⟨hends, rfl⟩]

/-- **No push without the scope for it.** Whatever the method, the path and the query of
a request, if it reaches the code of a service on a repo, then the token it carries is
live, bound to that repo, and of the scope the service needs. -/
theorem gitHandler_authorized (state : GitState) (now : Int64) (id rest : String)
    (request : GitRequest) {repoId : String} {reached : Reached}
    (h : gitHandler state now id rest request = .ok (repoId, reached)) :
    ∃ (token : Token) (record : TokenRecord),
      basicToken request.headers = .ok token.text ∧
        authorizeGit state.lib state.tokens now (.ok token.text) repoId reached.service.scope =
          .ok record ∧
        state.tokens.lookup state.lib now token = .ok (some record) ∧
        record.repoId.text = repoId ∧
        (reached.service = .receivePack → record.scope = .write) := by
  obtain ⟨-, -, h⟩ := Result.bind_eq_ok.mp h
  split_ifs at h
  obtain ⟨granted, hauth, h⟩ := Result.bind_eq_ok.mp h
  obtain ⟨reached', hdispatch, h⟩ := Result.bind_eq_ok.mp h
  obtain ⟨rfl, rfl⟩ := Prod.mk.inj (Except.ok.inj h)
  obtain ⟨token, htoken⟩ := exists_token_of_authorizeGit hauth
  rw [htoken] at hauth
  obtain ⟨hlookup, hrepo, hscope⟩ := authorizeGit_eq_ok.mp hauth
  have hwrite : reached'.service = .receivePack → granted.scope = .write := by
    intro hservice
    exact hscope (requiredScope_of_dispatch hdispatch hservice)
  refine ⟨token, granted, htoken, authorizeGit_eq_ok.mpr ⟨hlookup, hrepo, ?_⟩, hlookup, hrepo,
    hwrite⟩
  cases hservice : reached'.service with
  | uploadPack => exact nofun
  | receivePack => exact fun _ => hwrite hservice

/-! ### A push with a token -/

def pushToken : Token := ⟨"Vb3Nq8Zt5Lk0Wc7Rj2Hd9Xs4Fm6Gy1PaEoIuTzQxKvM", rfl⟩

/-- SHA-256 of the token. -/
def pushLibrary : Library where
  sha256Hex s :=
    if s = pushToken.text then
      "4bde33e9eccf1e36318c06fbb678b74a00987d82e3a4010d6d876ac548830f37"
    else
      ""
  printable c := decide (' ' ≤ c ∧ c ≤ '~')

/-- One repo, and the token to write to it. -/
def pushState : GitState where
  lib := pushLibrary
  tokens := (TokenStore.mint pushLibrary .empty 1700000000 pushToken ⟨"handbook", rfl⟩ .write none none).1
  isDir id := id == "handbook"
  checkRepoByteQuota _ := .ok ()
  disableNative := false

/-- The discovery request of a push; the credentials are `x` and the token. -/
def pushDiscovery : GitRequest where
  method := "GET"
  query := some "service=git-receive-pack"
  headers name :=
    if name = "authorization" then
      some (asBytes ("Basic " ++ Base64.standard.encode (asBytes ("x:" ++ pushToken.text))))
    else
      none
  body := .ok []

theorem gitHandler_authorized_push :
    ∃ (token : Token) (record : TokenRecord),
      basicToken pushDiscovery.headers = .ok token.text ∧
        authorizeGit pushLibrary pushState.tokens 1700000100 (.ok token.text) "handbook" .write =
          .ok record ∧
        pushState.tokens.lookup pushLibrary 1700000100 token = .ok (some record) ∧
        record.repoId.text = "handbook" ∧ (Service.receivePack = .receivePack → record.scope = .write) :=
  @gitHandler_authorized pushState 1700000100 "handbook.git" "info/refs" pushDiscovery "handbook"
    (.packHandlerAdvertise .receivePack none) (by decide +kernel)

end SmartHttp
end Artifacts
