/-
# The main loop

What `main` (`Main.cc`) does with a request: the command list, one handler after the other, the
response at the end, the error replies, and the response cache (`Memcached.h`), which is asked
before anything else is done and filled when the request has ended.

A request ends in one of three ways (`Outcome`).  An exception is caught and answered, with
whatever has been written before it still in front.  Something undefined is not answered.
-/
import Iipsrv.Server.Commands
import Iipsrv.Server.Opening

namespace Iipsrv

open Lib.Print (Text cString)
open Lib.Effects

/-! ## 1. The commands -/

/-- The command handlers. -/
inductive Command
  | obj | fif | qlt | sds | minmax | cnt | gam | wid | hei | rgn | rot | til | ptl | jtl | jtls
  | icc | cvt | shd | cmp | inv | zoomify | spectra | pfl | lyr | deepZoom | deepZoomExt | ctw | col
  | iiif
  deriving DecidableEq

namespace Command

/-- The names that the factory knows. -/
def table : List (Text × Command) :=
  [(str "obj", obj), (str "fif", fif), (str "qlt", qlt), (str "sds", sds), (str "minmax", minmax),
    (str "cnt", cnt), (str "gam", gam), (str "wid", wid), (str "hei", hei), (str "rgn", rgn),
    (str "rot", rot), (str "til", til), (str "ptl", ptl), (str "jtl", jtl), (str "jtls", jtls),
    (str "icc", icc), (str "cvt", cvt), (str "shd", shd), (str "cmp", cmp), (str "inv", inv),
    (str "zoomify", zoomify), (str "spectra", spectra), (str "pfl", pfl), (str "lyr", lyr),
    (str "deepzoom", deepZoom), (str "deepzoomext", deepZoomExt), (str "ctw", ctw),
    (str "col", col), (str "iiif", iiif)]

/-- `Task::factory`.  The command is converted to lower case to handle incorrect viewer
implementations. -/
def factory (t : Text) : Option Command := table.lookup (tolower t)

/-- The `run` of each handler. -/
def run (S : Server) (h : Headers) (argument : Text) : Command → Handler
  | obj => OBJ.run S argument
  | fif => FIF.command S h argument
  | qlt => QLT.run argument
  | sds => SDS.run argument
  | minmax => MINMAX.run S argument
  | cnt => CNT.run S argument
  | gam => GAM.run S argument
  | wid => WID.command argument
  | hei => HEI.command argument
  | rgn => RGN.command S argument
  | rot => ROT.run S argument
  | til => TIL.run S argument
  | ptl => PTL.run S argument
  | jtl => JTL.run S argument
  | jtls => JTLS.run S argument
  | icc => ICC.run
  | cvt => CVT.run S argument
  | shd => SHD.run argument
  | cmp => CMP.run argument
  | inv => INV.run
  | zoomify => Zoomify.run S h argument
  | spectra => SPECTRA.run S argument
  | pfl => PFL.run S argument
  | lyr => LYR.run argument
  | deepZoom => DeepZoom.run S h argument
  | deepZoomExt => DeepZoomExt.command S h argument
  | ctw => CTW.run S argument
  | col => COL.run argument
  | iiif => IIIF.command S h argument

end Command

/-! ## 2. A request -/

/-- A command and its argument. -/
abbrev Order := Text × Text

/-- Parse up the command list.  What has no command or no argument is dropped. -/
def orders (requestString : Text) : List Order :=
  ((Tokenizer.tokens '&' requestString).map (cutAt '=')).filter fun p => p.1 ≠ [] ∧ p.2 ≠ []

namespace Server

variable (S : Server)

/-- The steps of a command.  Unsupported command error code is 2 2. -/
def steps (h : Headers) (p : Order) : Handler :=
  match Command.factory p.1 with
  | some c => c.run S h p.2
  | none => [.update fun s => { s with response := s.response.setError (str "2 2") p.1 }]

/-- One turn of the loop. -/
def execute (h : Headers) (p : Order) : Run Unit := (S.steps h p).exec

/-- The loop over the commands. -/
def loop (h : Headers) (l : List Order) : Run Unit := l.forM (S.execute h)

/-- The end of a request.  If no response has been sent by now, we must have a malformed command,
and malformed command syntax error code is 2 1. -/
def malformed (requestString : Text) (s : Session) : Session :=
  if s.response.sent = false ∧ s.response.isSet = false then
    { s with response := s.response.setError (str "2 1") requestString }
  else s

/-- Once we have finished parsing all our commands send out our response. -/
def sendResponse (s : Session) : Session :=
  if s.response.isSet then s.write (cString (s.response.formatResponse S.version)) else s

/-- The `try` block. -/
def handle (h : Headers) : Run Unit :=
  if h.queryString = [] then
    Handler.exec [.update fun s => { s with response := s.response.setStatus (str "200 OK") },
      .refuse (.string "QUERY_STRING not set")]
  else do
    S.loop h (orders h.queryString)
    Handler.exec [.update (malformed h.queryString), .update S.sendResponse]

/-- The view of a new request. -/
def view : View :=
  let v := if S.maxCVT ≠ 0 then { View.new with maxSize := S.maxCVT } else View.new
  let v := if S.maxLayers ≠ 0 then { v with maxLayers := S.maxLayers } else v
  { v with allowUpscaling := S.allowUpscaling }

/-- The response of a new request. -/
def response : IIPResponse := (IIPResponse.new.setCORS S.cors).setCacheControl S.cacheControl

/-- A new request.  The two caches outlive it. -/
def start (images : FIF.ImageCache) (tiles : Cache) : Connection :=
  ⟨none, ⟨S.view, (0, 0), .hot, S.response, S.jpegQuality, S.pngQuality, images, tiles, []⟩⟩

/-! ## 3. Replies -/

/-- An error status with a message. -/
def errorReply (r : IIPResponse) (status message : String) : Text :=
  str "Status: " ++ str status ++ eof ++ IIPResponse.serverLine S.version ++ eof ++
    str "Content-Type: text/plain; charset=utf-8" ++ (if r.cors = [] then [] else eof ++ r.cors) ++
    eof ++ eof ++ str message

/-- The `catch` clauses: what is written for an exception. -/
def errorText (r : IIPResponse) : Thrown → Text
  | .status 304 =>
    str "Status: 304 Not Modified" ++ eof ++ IIPResponse.serverLine S.version ++ eof ++ eof
  | .status _ => []
  | .string _ =>
    if r.errorIsSet then r.formatResponse S.version else r.getAdvert S.version S.homePage
  | .fileError m => S.errorReply r "404 Not Found" m
  | .invalidArgument m => S.errorReply r "400 Bad Request" m
  | .outOfRange => r.getAdvert S.version S.homePage

end Server

/-- How a request has ended: at the end of the `try` block, in a `catch` clause, or with
something undefined. -/
inductive Outcome
  | ended (c : Connection)
  | caught (t : Thrown) (c : Connection)
  | undefined (e : Ending) (c : Connection)

namespace Outcome

/-- The outcome of the `try` block. -/
def ofResult : EStateM.Result Ending Connection Unit → Outcome
  | .ok _ c => .ended c
  | .error (.stop (.thrown t)) c => .caught t c
  | .error e c => .undefined e c

/-- The connection at the end. -/
def connection : Outcome → Connection
  | .ended c => c
  | .caught _ c => c
  | .undefined _ c => c

/-- The bytes of the reply. -/
def reply (S : Server) : Outcome → Option Text
  | .ended c => some c.session.out
  | .caught t c => some (c.session.out ++ cString (S.errorText c.session.response t))
  | .undefined _ _ => none

end Outcome

/-- What outlives a request. -/
structure ServerState where
  imageCache : FIF.ImageCache
  tileCache : Cache
  memcached : List (Text × Text)

namespace Server

variable (S : Server)

/-- A request that is not answered from the response cache. -/
def process (h : Headers) (σ : ServerState) : Outcome :=
  .ofResult (S.handle h (S.start σ.imageCache σ.tileCache))

variable {S} {h : Headers} {σ : ServerState}

theorem loop_cons (p : Order) (l : List Order) :
    S.loop h (p :: l) = S.execute h p >>= fun _ => S.loop h l := by
  rw [loop, List.forM_eq_forM, List.forM_cons]
  rfl

/-- A request is its loop, if that does not come to its end. -/
theorem process_of_loop_error {e : Ending} {c : Connection} (hne : h.queryString ≠ [])
    (hloop : S.loop h (orders h.queryString) (S.start σ.imageCache σ.tileCache) = .error e c) :
    S.process h σ = .ofResult (.error e c) := by
  rw [process, handle, if_neg hne, EState.bind_error hloop]

theorem process_of_loop_ok {c : Connection} (hne : h.queryString ≠ [])
    (hloop : S.loop h (orders h.queryString) (S.start σ.imageCache σ.tileCache) = .ok () c) :
    S.process h σ =
      .ended { c with session := S.sendResponse (malformed h.queryString c.session) } := by
  rw [process, handle, if_neg hne, EState.bind_ok hloop]
  rfl

theorem orders_nil : orders [] = [] := by
  have : Tokenizer.tokens '&' [] = [] := by
    rw [Tokenizer.tokens, dif_neg (by simp [Tokenizer.hasMoreTokens])]
  rw [orders, this]
  rfl

end Server

/-! ## 4. The response cache -/

namespace Server

variable (S : Server)

/-- The key of a request string. -/
def key (requestString : Text) : Text := str "iipsrv::" ++ requestString

/-- Check whether this exists in Memcached, but only if we haven't had an `If-Modified-Since`
request. -/
def retrieve (h : Headers) (σ : ServerState) : Option Text :=
  if S.connected ∧ (h.ifModifiedSince.getD []) = [] ∧ h.queryString ≠ [] then
    σ.memcached.lookup (key h.queryString)
  else none

/-- What is inserted into Memcached. -/
def stored : Outcome → Option Text
  | .ended c => if c.session.response.cachable ∧ S.connected then some c.session.out else none
  | _ => none

/-- The caches after a request. -/
def after (h : Headers) (σ : ServerState) (o : Outcome) : ServerState :=
  ⟨o.connection.session.imageCache, o.connection.session.tileCache,
    match S.stored o with
    | some data => (key h.queryString, data) :: σ.memcached
    | none => σ.memcached⟩

/-- A request, from the response cache or by its commands: the reply and the caches. -/
def serve (h : Headers) (σ : ServerState) : Option Text × ServerState :=
  match S.retrieve h σ with
  | some data => (some data, σ)
  | none => ((S.process h σ).reply S, S.after h σ (S.process h σ))

end Server

/-! ## 5. A small server -/

/-- Image operations that do nothing. -/
def idleProcessor : JTL.Processor where
  apply := fun _ t => t
  histogram := fun _ => []
  threshold := fun _ => 0
  compressionType_apply := fun _ _ => rfl

/-- A server with this disk, whose decoders always fail and whose encoders write nothing. -/
def smallServer (disk : Disk) : Server where
  version := str "1.1"
  openjpeg := false
  disk := disk
  first := fun _ => 0
  baseUrl := []
  cors := []
  cacheControl := []
  iiifVersion := 2
  jpegQuality := 75
  pngQuality := 1
  maxCVT := 5000
  maxLayers := 0
  allowUpscaling := true
  getTile := fun _ _ _ _ _ _ => .error "decoder"
  getRegion := fun _ _ _ _ _ _ _ _ _ => .error "decoder"
  encoder := ⟨fun _ _ _ _ _ => .ok [], fun _ _ _ _ _ _ => .ok []⟩
  strips := ⟨fun _ _ _ _ => .ok [], fun _ _ _ _ _ => [], fun _ _ _ => []⟩
  alloc := ⟨id, fun _ => le_rfl⟩
  processor := fun _ => idleProcessor
  resize := fun _ _ t => t
  uninitialised := 0
  atof := fun _ => 0
  readInt := fun _ => none
  readFloat := fun _ => none
  date := fun _ => []
  parseDate := fun _ => 0
  printFloat := fun _ => []
  reflectance := fun _ _ => []
  intensity := fun _ _ _ _ => []
  append := fun _ _ => []
  archive := fun _ _ => []
  homePage := []
  connected := true
  pathExists := fun _ => false
  exception := .fileError

/-- A request with this string and host, and no other header. -/
def simpleHeaders (queryString host : Text) : Headers := ⟨queryString, host, [], [], [], [], none⟩

/-- The caches of a server that has been started. -/
def freshState : ServerState := ⟨[], Cache.new ⟨176, 16, 40, 8⟩ 1000000, []⟩

/-- The session of its first request. -/
def freshSession : Session :=
  ((smallServer fun _ => none).start freshState.imageCache freshState.tileCache).session

end Iipsrv
