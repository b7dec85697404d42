import Diagd.Lib.GoStd
import Diagd.Lib.GoText

/-!
# What a request asks for (`http.go`)

`ServeHTTP` up to the point where a slot is acquired: which peers are
served, which test a URL names, and whether the test is within the limits.
The result is the plan of a transfer or the reply that ends the request.
-/

namespace Diagd.Tr143

open GoStd GoText

abbrev maxTimeBasedSeconds : Int := 999

structure HTTPConfig where
  /-- 0 means no limit. -/
  maxConcurrent : Int64 := 0
  /-- 0 means no cap. -/
  maxDownloadBytes : Int64 := 0
  /-- 0 applies the maximum of 999 seconds only. -/
  maxDuration : Duration := 0
  /-- `none` permits all peers. -/
  allow : Option (Addr → Bool) := none

inductive Method where
  | get | head | put | post
  | other
  deriving DecidableEq, Repr

/-- A request as the handler reads it. `addrPort` is what
`netip.ParseAddrPort` makes of `remoteAddr`; `time` and `ref` are the values
of the query parameters, empty if missing. -/
structure Request where
  method : Method
  remoteAddr : String := ""
  addrPort : Option AddrPort := none
  path : Text := []
  time : Text := []
  ref : String := ""
  deriving DecidableEq, Repr

/-- A reply of the handler itself. -/
structure Reply where
  status : Nat
  headers : List (String × String) := []
  body : String
  deriving DecidableEq, Repr

/-- The transfer to be made. -/
inductive Plan where
  | sized (size : Int64)
  | timed (d : Duration)
  | upload
  deriving DecidableEq, Repr

/-! ## The URL -/

/-- One of the two kinds of generated downloads. -/
structure DownloadRequest where
  bytes : Int64 := 0
  seconds : Int := 0
  deriving DecidableEq, Repr

/-- The optional group `([kKmMgG])[bB]`, and what follows it. -/
def unitGroup : Text → Text × Text
  | u :: b :: rest =>
      if "kKmMgG".toList.contains u && "bB".toList.contains b then ([u], rest)
      else ([], u :: b :: rest)
  | rest => ([], rest)

/-- The optional group `\.[A-Za-z0-9]+` up to the end of the text. -/
def extensionGroup : Text → Bool
  | [] => true
  | '.' :: cs => cs != [] && cs.all Char.isAlphanum
  | _ => false

/-- The submatches of `^([0-9]+)(?:([kKmMgG])[bB])?(?:\.[A-Za-z0-9]+)?$`. No
character can go to two groups, so the leftmost match is the only one. -/
def sizeNameRE (name : Text) : Option (Text × Text) :=
  match name.takeWhile Char.isDigit, unitGroup (name.dropWhile Char.isDigit) with
  | [], _ => none
  | digits, (unit, rest) => if extensionGroup rest then some (digits, unit) else none

def parseSizeName (name : Text) : Option Int64 :=
  match sizeNameRE name with
  | none => none
  | some (digits, unit) =>
      match parseInt digits with
      | none => none
      | some n =>
          match unit.map Char.toLower with
          | ['k'] => some (Int64.ofInt n * 1000)
          | ['m'] => some (Int64.ofInt n * 1000000)
          | ['g'] => some (Int64.ofInt n * 1000000000)
          | _ => some (Int64.ofInt n)

/-- A number of seconds within the bounds of a time-based test. -/
def parseSeconds (text : Text) : Option Int :=
  match atoi text with
  | none => none
  | some secs => if secs < 1 ∨ maxTimeBasedSeconds < secs then none else some secs

/-- `ok none` means that the URL names no test resource. -/
def parseDownloadRequest (r : Request) : Except String (Option DownloadRequest) :=
  if r.time ≠ [] then
    match parseSeconds r.time with
    | none => .error "time must be 1..999 seconds"
    | some secs => .ok (some { seconds := secs })
  else
    match cutPrefix (base r.path) "dntimebasedmode_".toList with
    | some rest =>
        match parseSeconds (trimSuffix rest (ext rest)) with
        | none => .error "duration must be 1..999 seconds"
        | some secs => .ok (some { seconds := secs })
    | none =>
        match parseSizeName (base r.path) with
        | some size => .ok (some { bytes := size })
        | none => .ok none

/-! ## The handlers up to `acquire` -/

def httpError (text : String) (status : Nat) : Reply := { status := status, body := text }

def index : Reply where
  status := 200
  headers := [("Content-Type", "text/plain; charset=utf-8")]
  body := "diagd TR-143 test server\n\nDownload (GET):\n"
    ++ "  /<bytes>            exact size, for example /1000000\n"
    ++ "  /<n>KB.bin          decimal units KB, MB, GB\n"
    ++ "  /dntimebasedmode_<seconds>.txt\n  /any/path?time=<seconds>\n\n"
    ++ "Upload (PUT or POST): any path, body is discarded.\n"

namespace HTTPConfig

def peerAllowed (cfg : HTTPConfig) (r : Request) : Bool :=
  match cfg.allow, r.addrPort with
  | none, _ => true
  | some _, none => false
  | some allow, some ap => allow ap.addr.unmap

def downloadSized (cfg : HTTPConfig) (size : Int64) : Except Reply Plan :=
  if 0 < cfg.maxDownloadBytes ∧ cfg.maxDownloadBytes < size then
    .error (httpError "requested size exceeds server limit" 403)
  else .ok (.sized size)

def downloadTimed (cfg : HTTPConfig) (seconds : Int) : Except Reply Plan :=
  if 0 < cfg.maxDuration ∧ cfg.maxDuration < seconds * second then
    .error (httpError "requested duration exceeds server limit" 403)
  else .ok (.timed (seconds * second))

def download (cfg : HTTPConfig) (r : Request) : Except Reply Plan :=
  match parseDownloadRequest r with
  | .error text => .error (httpError text 400)
  | .ok none => .error (if r.path = ['/'] then index else httpError "not found" 404)
  | .ok (some req) =>
      if 0 < req.seconds then cfg.downloadTimed req.seconds else cfg.downloadSized req.bytes

/-- `ServeHTTP` up to `acquire`. -/
def serveHTTP (cfg : HTTPConfig) (r : Request) : Except Reply Plan :=
  if cfg.peerAllowed r then
    match r.method with
    | .get | .head => cfg.download r
    | .put | .post => .ok .upload
    | .other =>
        .error { status := 405, headers := [("Allow", "GET, HEAD, PUT, POST")],
                 body := "method not allowed" }
  else .error (httpError "forbidden" 403)

end HTTPConfig

/-! ## What a plan says about its request -/

theorem parseSeconds_bounds {text : Text} {secs : Int} (h : parseSeconds text = some secs) :
    1 ≤ secs ∧ secs ≤ maxTimeBasedSeconds := by
  unfold parseSeconds at h
  split at h
  · cases h
  · split at h
    · cases h
    · next hbounds =>
        cases h
        exact ⟨not_lt.mp fun hlow => hbounds (.inl hlow),
          not_lt.mp fun hhigh => hbounds (.inr hhigh)⟩

theorem parseDownloadRequest_seconds {r : Request} {req : DownloadRequest}
    (h : parseDownloadRequest r = .ok (some req)) : req.seconds ≤ maxTimeBasedSeconds := by
  unfold parseDownloadRequest at h
  split at h
  · split at h
    · cases h
    · next hsecs =>
        cases h
        exact (parseSeconds_bounds hsecs).2
  · split at h
    · split at h
      · cases h
      · next hsecs =>
          cases h
          exact (parseSeconds_bounds hsecs).2
    · split at h <;> cases h
      exact Int.le_of_lt (by decide : (0 : Int) < 999)

/-- A plan is one the configuration allows and the method asks for. -/
def Plan.Fits (cfg : HTTPConfig) (r : Request) : Plan → Prop
  | .sized size =>
      (r.method = .get ∨ r.method = .head) ∧ (0 < cfg.maxDownloadBytes → size ≤ cfg.maxDownloadBytes)
  | .timed d =>
      (r.method = .get ∨ r.method = .head) ∧ 0 < d ∧ d ≤ maxTimeBasedSeconds * second ∧
        (0 < cfg.maxDuration → d ≤ cfg.maxDuration)
  | .upload => r.method = .put ∨ r.method = .post

section Fits

variable {cfg : HTTPConfig} {r : Request} {plan : Plan}

theorem downloadSized_fits {size : Int64} (hmethod : r.method = .get ∨ r.method = .head)
    (h : cfg.downloadSized size = .ok plan) : plan.Fits cfg r := by
  unfold HTTPConfig.downloadSized at h
  split at h
  · cases h
  · next hlimit =>
      cases h
      exact ⟨hmethod, fun hpos => Int64.not_lt.mp fun hbig => hlimit ⟨hpos, hbig⟩⟩

theorem downloadTimed_fits {seconds : Int} (hmethod : r.method = .get ∨ r.method = .head)
    (hpos : 0 < seconds) (hmax : seconds ≤ maxTimeBasedSeconds)
    (h : cfg.downloadTimed seconds = .ok plan) : plan.Fits cfg r := by
  unfold HTTPConfig.downloadTimed at h
  split at h
  · cases h
  · next hlimit =>
      cases h
      refine ⟨hmethod, Int.mul_pos hpos (by decide), Int.mul_le_mul_of_nonneg_right hmax (by decide),
        ?_⟩
      intro hcap
      exact not_lt.mp fun hbig => hlimit ⟨hcap, hbig⟩

theorem download_fits (hmethod : r.method = .get ∨ r.method = .head)
    (h : cfg.download r = .ok plan) : plan.Fits cfg r := by
  unfold HTTPConfig.download at h
  split at h
  · cases h
  · cases h
  · next req hreq =>
      split at h
      · next hpos => exact downloadTimed_fits hmethod hpos (parseDownloadRequest_seconds hreq) h
      · exact downloadSized_fits hmethod h

theorem serveHTTP_fits (h : cfg.serveHTTP r = .ok plan) : plan.Fits cfg r := by
  unfold HTTPConfig.serveHTTP at h
  split at h
  · split at h
    · next hget => exact download_fits (.inl hget) h
    · next hhead => exact download_fits (.inr hhead) h
    · next hput =>
        cases h
        exact .inl hput
    · next hpost =>
        cases h
        exact .inr hpost
    · cases h
  · cases h

end Fits

end Diagd.Tr143
