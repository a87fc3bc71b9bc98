/-
# The session of a request

What a command handler works on (`Session` in `Task.h`): the view, the response, the encoders'
qualities, the two caches and the output, and the pointer to the image.  The pointer is the only
one that can be null, so it is kept apart: a `Task` has no image or is given one, and an `Action`
says what is done with the pointer.

A handler ends, throws an exception, or does something undefined.  The output so far stays as it
is in each case: what has been written is on its way to the client.

The configuration and the libraries are parameters (`Server`): the files, the decoders and
encoders, the image operations, the conversion of numbers and dates.  Log, timers and watermark
are left out, and so are the physical resolution and the metadata that are embedded in the
output.
-/
import Iipsrv.Lib.Effects
import Iipsrv.Server.Strings
import Iipsrv.FIF.Model
import Iipsrv.Address.Model
import Iipsrv.CVT

namespace Iipsrv

open Lib.Print (Text decimal snprintf cString)
open Lib.Effects

/-- The characters of a literal. -/
def str (s : String) : Text := s.toList

/-- End of line. -/
def eof : Text := ['\r', '\n']

/-- Bytes as they are written. -/
def bytes (data : List UInt8) : Text := data.map fun b => Char.ofNat b.toNat

/-! ## 1. The response -/

/-- `IIPResponse`: the reply of the commands that do not send anything themselves, and the
headers of those that do. -/
structure IIPResponse where
  modified : Text
  cacheControl : Text
  protocol : Text
  responseBody : Text
  error : Text
  cors : Text
  status : Text
  cachable : Bool
  sent : Bool

namespace IIPResponse

def new : IIPResponse := ⟨[], [], [], [], [], [], [], true, false⟩

def setProtocol (r : IIPResponse) (p : Text) : IIPResponse := { r with protocol := p }

def setLastModified (r : IIPResponse) (m : Text) : IIPResponse :=
  { r with modified := str "Last-Modified: " ++ m }

def setCacheControl (r : IIPResponse) (c : Text) : IIPResponse :=
  { r with cacheControl := str "Cache-Control: " ++ c }

def setCORS (r : IIPResponse) (c : Text) : IIPResponse :=
  if c = [] then r
  else
    let cors := str "Access-Control-Allow-Origin: " ++ c ++ eof ++
      str "Access-Control-Allow-Headers: X-Requested-With"
    { r with cors := cors }

def setStatus (r : IIPResponse) (s : Text) : IIPResponse := { r with status := str "Status: " ++ s }

def setCachability (r : IIPResponse) (c : Bool) : IIPResponse := { r with cachable := c }

def setImageSent (r : IIPResponse) : IIPResponse := { r with sent := true }

/-- `addResponse` of a line. -/
def addResponse (r : IIPResponse) (line : Text) : IIPResponse :=
  { r with responseBody := r.responseBody ++ line ++ eof }

/-- `addResponse` of a name and a number. -/
def addNumber (r : IIPResponse) (c : Text) (a : Int) : IIPResponse :=
  r.addResponse (snprintf 64 (c ++ ':' :: decimal a))

/-- `addResponse` of a name and two numbers. -/
def addNumbers (r : IIPResponse) (c : Text) (a b : Int) : IIPResponse :=
  r.addResponse (snprintf 64 (c ++ ':' :: decimal a ++ ' ' :: decimal b))

/-- `addResponse` of a name and a text. -/
def addText (r : IIPResponse) (arg s : Text) : IIPResponse :=
  -- the length is an int
  let line := arg ++ snprintf 8 ('/' :: decimal (Int32.ofNat s.length).toInt ++ [':']) ++ s
  r.addResponse line

def setError (r : IIPResponse) (code arg : Text) : IIPResponse :=
  let tmp := snprintf 32 (str "Error/" ++ decimal (code.length + arg.length + 1) ++
    ':' :: cString code ++ ' ' :: cString arg)
  { r with error := r.error ++ (tmp ++ eof) }

def isSet (r : IIPResponse) : Bool :=
  decide (r.error ≠ [] ∨ r.responseBody ≠ [] ∨ r.protocol ≠ [])

def errorIsSet (r : IIPResponse) : Bool := decide (r.error ≠ [])

theorem errorIsSet_setError (r : IIPResponse) (code arg : Text) :
    (r.setError code arg).errorIsSet := by
  simp [errorIsSet, setError, eof]

/-- The `Server` line. -/
def serverLine (version : Text) : Text := str "Server: iipsrv/" ++ version

def formatResponse (version : Text) (r : IIPResponse) : Text :=
  let mimeType := str "Content-Type: application/vnd.netfpx"
  let cors := if r.cors = [] then [] else r.cors ++ eof
  if r.error ≠ [] then
    serverLine version ++ eof ++ str "Cache-Control: no-cache" ++ eof ++ mimeType ++ eof ++ cors ++
      r.status ++ eof ++
      str "Content-Disposition: inline;filename=\"IIPisAMadGameClosedToOurUnderstanding.netfpx\"" ++
      eof ++ eof ++ r.error
  else
    serverLine version ++ eof ++ str "X-Powered-By: IIPImage" ++ eof ++ r.cacheControl ++ eof ++
      r.modified ++ eof ++ mimeType ++ eof ++ cors ++ eof ++ r.protocol ++ eof ++ r.responseBody

/-- `createHTTPHeader`. -/
def createHTTPHeader (version : Text) (r : IIPResponse) (mimeType timeStamp : Text)
    (contentLength : Nat) : Text :=
  let mimeType := if '/' ∈ mimeType then mimeType else str "application/" ++ mimeType
  serverLine version ++ eof ++ str "X-Powered-By: IIPImage" ++ eof ++ str "Content-Type: " ++
    mimeType ++ eof ++ str "Last-Modified: " ++ timeStamp ++ eof ++ r.cacheControl ++ eof ++
    (if 0 < contentLength then str "Content-Length: " ++ decimal contentLength ++ eof else []) ++
    (if r.cors = [] then [] else r.cors ++ eof) ++ eof

/-- `getAdvert`, with the text of the page. -/
def getAdvert (version homePage : Text) (r : IIPResponse) : Text :=
  serverLine version ++ eof ++ str "Content-Type: text/html" ++ eof ++
    str "Content-Disposition: inline;filename=\"iipsrv.html\"" ++ eof ++ r.status ++ eof ++ eof ++
    homePage

end IIPResponse

/-! ## 2. The server -/

/-- `enum cmap_type`. -/
inductive ColourMap
  | hot | cold | jet | blue | green | red

/-- What the image operations read besides the tile. -/
structure Settings where
  shade : Int32 × Int32
  cmap : ColourMap
  min : List ℚ
  max : List ℚ

/-- The encoder of `CVT`, strip by strip: the part of `InitCompression` behind its checks, a strip
from a row on, and the end. -/
structure StripEncoder where
  init : CompressionType → Int32 → RawTile → Nat → Except String (List UInt8)
  strip : CompressionType → Int32 → RawTile → Nat → Nat → List UInt8
  finish : CompressionType → Int32 → RawTile → List UInt8

/-- The configuration of a server and the libraries it uses.  `exception` says which exception a
message belongs to, `connected` whether there is a Memcached server. -/
structure Server where
  version : Text
  openjpeg : Bool
  disk : Disk
  first : FIF.ImageCache → Nat
  baseUrl : Text
  cors : Text
  cacheControl : Text
  iiifVersion : Int
  jpegQuality : Int32
  pngQuality : Int32
  maxCVT : Int
  maxLayers : Int32
  allowUpscaling : Bool
  getTile : Opened → Int32 → Int32 → Int32 → Int32 → Int32 → Except String Decoded
  getRegion : Opened → Int32 → Int32 → Int32 → Int32 → Nat → Nat → Nat → Nat →
    Except String Decoded
  encoder : Encoder
  strips : StripEncoder
  alloc : StringAlloc
  processor : Settings → JTL.Processor
  resize : Nat → Nat → RawTile → RawTile
  uninitialised : UInt8
  atof : Text → ℚ
  readInt : Text → Option Int32
  readFloat : Text → Option ℚ
  date : Int → Text
  parseDate : Text → Int
  printFloat : ℚ → Text
  reflectance : RawTile → Nat → Text
  intensity : Bool → Nat → SampleType → List (Option UInt8) → Text
  append : List (Option RawTile) → CompressionType → List UInt8
  archive : List (Option RawTile) → CompressionType → List UInt8
  homePage : Text
  connected : Bool
  pathExists : Text → Bool
  exception : String → Thrown

/-- The headers that the web server passes on, and the request string.  A header that is not there
is empty, except for the one that is tested for being there. -/
structure Headers where
  queryString : Text
  host : Text
  requestUri : Text
  https : Text
  accept : Text
  iiifId : Text
  ifModifiedSince : Option Text

/-! ## 3. Images -/

namespace Opened

/-- What the handlers and the tile manager read off the object. -/
def info (im : Opened) : ImageInfo :=
  im.base.info (match im with | tpt _ => false | openJPEG _ => true)

/-- Assign to fields of the base class. -/
def update (f : IIPImage → IIPImage) : Opened → Opened
  | tpt im => tpt { im with toIIPImage := f im.toIIPImage }
  | openJPEG im => openJPEG (f im)

end Opened

namespace Server

variable (S : Server)

/-- The image, as the tile manager names it. -/
def image (im : Opened) : Image := ⟨S.alloc.ofCString im.base.imagePath, im.base.timestamp⟩

/-- `getTimestamp()`. -/
def timestamp (im : Opened) : Text := S.date im.base.timestamp

end Server

/-! ## 4. Tasks -/

/-- What a handler works on besides the image. -/
structure Session where
  view : View
  shade : Int32 × Int32
  cmap : ColourMap
  response : IIPResponse
  jpegQuality : Int32
  pngQuality : Int32
  imageCache : FIF.ImageCache
  tileCache : Cache
  out : Text

/-- Why a handler stops: an exception, or something undefined.  Next to the faults of the caches
and the tile manager there is the encoder of `DeepZoomExt`, which may not have been set. -/
inductive Stop
  | thrown (t : Thrown)
  | fault (f : Fault)
  | nullCompressor
  deriving DecidableEq

/-- A computation on the session. -/
abbrev Task := EStateM Stop Session

namespace Session

/-- The qualities of the two encoders. -/
def quality (s : Session) (ct : CompressionType) : Int32 :=
  if ct = .png then s.pngQuality else s.jpegQuality

/-- `session->out->putStr`. -/
def write (t : Text) (s : Session) : Session := { s with out := s.out ++ t }

/-- A reply that is written at once. -/
def reply (t : Text) (s : Session) : Session :=
  { s with out := s.out ++ t, response := s.response.setImageSent }

/-- What the image operations read for this image. -/
def settings (s : Session) (im : Opened) : Settings := ⟨s.shade, s.cmap, im.base.min, im.base.max⟩

end Session

namespace Task

/-- `session->out->putStr`. -/
def write (t : Text) : Task Unit := modify (Session.write t)

/-- A reply that is written at once. -/
def reply (t : Text) : Task Unit := modify (Session.reply t)

def modifyView (f : View → View) : Task Unit := modify fun s => { s with view := f s.view }

def modifyResponse (f : IIPResponse → IIPResponse) : Task Unit :=
  modify fun s => { s with response := f s.response }

variable (S : Server) {α : Type}

/-- A failure as an exception. -/
def stop : Failure → Stop
  | .fault f => .fault f
  | .thrown m => .thrown (S.exception m)

/-- A computation of the tile manager, on the session's tile cache. -/
def manage (m : Manager α) : Task α := fun s =>
  match m s.tileCache with
  | .ok a c => .ok a { s with tileCache := c }
  | .error e c => .error (stop S e) { s with tileCache := c }

/-- An exception. -/
def raise (t : Thrown) : Task α := throw (.thrown t)

/-- A computation that does not touch the session. -/
def ofExcept (x : Except Failure α) : Task α := fun s =>
  match x with
  | .ok a => .ok a s
  | .error e => .error (stop S e) s

end Task

/-! ## 5. Handlers -/

/-- A session with its image pointer. -/
structure Connection where
  image : Option Opened
  session : Session

/-- Why a request does not end: the null pointer has been followed, or a task has stopped. -/
inductive Ending
  | nullImage
  | stop (s : Stop)
  deriving DecidableEq

/-- A step of a handler.  A task on the image returns the image as it leaves it. -/
inductive Action
  /-- change the session -/
  | update (f : Session → Session)
  /-- throw an exception -/
  | refuse (t : Thrown)
  /-- set the pointer -/
  | opening (t : Task Opened)
  /-- work on the image, behind `checkImage` with this argument -/
  | guarded (argument : Text) (t : Opened → Task Opened)
  /-- work on the image, without a test -/
  | follow (t : Opened → Task Opened)

/-- A command handler: one step after the other. -/
abbrev Handler := List Action

/-- A computation on the connection. -/
abbrev Run := EStateM Ending Connection

namespace Action

/-- A task on the image that the pointer leads to. -/
def withImage (t : Opened → Task Opened) : Run Unit := fun c =>
  match c.image with
  | none => .error .nullImage c
  | some im =>
    match t im c.session with
    | .ok im s => .ok () ⟨some im, s⟩
    | .error e s => .error (.stop e) ⟨some im, s⟩

/-- `Task::checkImage`. -/
def checkImage (argument : Text) : Run Unit := fun c =>
  if c.image.isNone then
    let response := c.session.response.setError (str "1 3") argument
    .error (.stop (.thrown (.string "image not set")))
      { c with session := { c.session with response := response } }
  else .ok () c

/-- A task that sets the pointer. -/
def setImage (t : Task Opened) : Run Unit := fun c =>
  match t c.session with
  | .ok im s => .ok () ⟨some im, s⟩
  | .error e s => .error (.stop e) { c with session := s }

/-- What a step does. -/
def exec : Action → Run Unit
  | update f => modify fun c => { c with session := f c.session }
  | refuse t => throw (.stop (.thrown t))
  | opening t => setImage t
  | guarded argument t => do
    checkImage argument
    withImage t
  | follow t => withImage t

end Action

/-- What a handler does. -/
def Handler.exec (l : Handler) : Run Unit := l.forM Action.exec

theorem Handler.exec_cons (a : Action) (l : Handler) :
    Handler.exec (a :: l) = a.exec >>= fun _ => l.exec := by
  rw [Handler.exec, List.forM_eq_forM, List.forM_cons]
  rfl

/-- A step that fails is the end of the handler. -/
theorem Handler.exec_error {a : Action} {l : Handler} {c c' : Connection} {e : Ending}
    (h : a.exec c = .error e c') : Handler.exec (a :: l) c = .error e c' := by
  rw [exec_cons]
  exact EState.bind_error h

theorem Handler.exec_ok {a : Action} {l : Handler} {c c' : Connection}
    (h : a.exec c = .ok () c') : Handler.exec (a :: l) c = l.exec c' := by
  rw [exec_cons]
  exact EState.bind_ok h

end Iipsrv
