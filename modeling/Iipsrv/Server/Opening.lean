/-
# Commands that open an image

`FIF`, and the commands of the other protocols, which run `FIF` themselves: `Zoomify`, `DeepZoom`,
`DeepZoomExt` and `IIIF`.  A request of one of these protocols is a single command, so each of
them goes on to the output of `Output.lean`.

An `IIIF` request without a `/` is the exception: it is answered by a redirect, and no image is
opened.  It and the `info.json` of an image are also the two replies that repeat headers of the
request.
-/
import Iipsrv.Lib.Double
import Iipsrv.Server.Output
import Iipsrv.IIIF.Model
import Iipsrv.DeepZoomExt.Model

namespace Iipsrv

open Lib.Double (double)
open Lib.Print (Text decimal snprintf)
open Lib.Str Lib.Word

/-! ## 1. FIF -/

namespace FIF

/-- An `If-Modified-Since` header that is not older than the image. -/
def unmodified (S : Server) (h : Headers) (im : Opened) : Prop :=
  ∃ t ∈ h.ifModifiedSince, im.base.timestamp ≤ S.parseDate t

instance (S : Server) (h : Headers) (im : Opened) : Decidable (unmodified S h im) :=
  inferInstanceAs (Decidable (∃ t ∈ h.ifModifiedSince, _))

/-- The image of a path, by way of the image cache.  A missing file is an error of the response
as well. -/
def lookup (S : Server) (path : Text) : Task Opened := fun s =>
  match run S.disk S.openjpeg S.first path s.imageCache with
  | (.ok im, cache) => .ok im { s with imageCache := cache }
  | (.error (.fileError m), cache) =>
    .error (.thrown (.fileError m))
      { s with imageCache := cache, response := s.response.setError (str "1 3") (str "FIF") }
  | (.error e, cache) => .error (.thrown e) { s with imageCache := cache }

/-- `FIF::run`. -/
def task (S : Server) (h : Headers) (src : Text) : Task Opened := do
  let im ← lookup S (imagePath src)
  Task.modifyResponse fun r => r.setLastModified (S.timestamp im)
  if unmodified S h im then Task.raise (.status 304)
  else do
    Task.modifyView fun v => { v with xangle := 0, yangle := 90 }
    return im

end FIF

/-- The tile in column `x` and row `y` of a level. -/
def Task.tileAt (im : Opened) (level x y : Int32) : Task Int32 :=
  match JTL.levelSize im.info level with
  | none => throw (.fault .levelSubscript)
  | some (w, _) =>
    if im.base.tileWidth = 0 then throw (.fault .divisionByZero)
    else pure (tileIndex (numTiles w im.base.tileWidth) x y)

/-! ## 2. Zoomify -/

namespace Zoomify

/-- `(int) ceil( (double)width/tw )`. -/
def across (size tw : Int32) : Int := ⌈double ((size.toInt : ℚ) / tw.toInt)⌉

/-- The tiles of all levels that are not too small, and one more. -/
def numTiles (im : ImageInfo) : Nat :=
  let tw := Int32.ofNat im.tileWidth
  (List.range im.numResolutions).foldl
    (fun n i =>
      let width := Int32.ofNat (im.imageWidths.getD i 0)
      let height := Int32.ofNat (im.imageHeights.getD i 0)
      if width < tw ∧ height < tw then n
      else toUnsigned (n + across width tw * across height tw))
    1

/-- The vectors have both sizes of every level. -/
def Counts (im : IIPImage) : Prop :=
  im.numResolutions ≤ im.imageWidths.length ∧ im.numResolutions ≤ im.imageHeights.length

instance (im : IIPImage) : Decidable (Counts im) := inferInstanceAs (Decidable (_ ∧ _))

/-- The loop over the levels reads them. -/
def count (im : IIPImage) : Task Unit :=
  if Counts im then pure () else throw (.fault .levelSubscript)

/-- The tile in a column and a row of a level, as Zoomify counts them. -/
def send (S : Server) (resolution x y : Int32) (im : Opened) : Task Opened := do
  let level := level im.info resolution
  let tile ← Task.tileAt im level x y
  JTL.task S level tile im

/-- `ImageProperties.xml` -/
def properties : Text := str "ImageProperties.xml"

/-- The image path, which is not always the same. -/
def path (argument suffix : Text) : Text :=
  if suffix = properties then upTo argument (rfind ['/'] argument)
  else
    match find (str "TileGroup") argument with
    | none => argument
    | some 0 => argument
    | some (n + 1) => argument.take n

/-- `Zoomify::run`. -/
def task (S : Server) (h : Headers) (argument : Text) : Task Opened := do
  let suffix := argument.drop (next (rfind ['/'] argument))
  let im ← FIF.task S h (path argument suffix)
  count im.base
  if im.base.tileWidth = 0 then throw (.fault .divisionByZero)
  else if suffix = properties then do
    let s ← get
    Task.reply (s.response.createHTTPHeader S.version (str "xml") (S.timestamp im) 0 ++
      str "<IMAGE_PROPERTIES WIDTH=\"" ++ decimal (im.base.imageWidths.headD 0) ++
      str "\" HEIGHT=\"" ++ decimal (im.base.imageHeights.headD 0) ++ str "\" NUMTILES=\"" ++
      decimal (numTiles im.info) ++ str "\" NUMIMAGES=\"1\" VERSION=\"1.8\" TILESIZE=\"" ++
      decimal im.base.tileWidth ++ str "\"/>")
    return im
  else do
    let numbers := ((Tokenizer.tokens '-' suffix).take 3).map atoi
    send S (numbers.getD 0 0) (numbers.getD 1 0) (numbers.getD 2 0) im

end Zoomify

/-! ## 3. DeepZoom -/

namespace DeepZoom

/-- The image path, which is not always the same. -/
def path (argument suffix : Text) : Text :=
  if suffix = DeepZoomExt.dzi then
    if argument.length < 4 then argument else argument.take (argument.length - 4)
  else upTo argument (rfind DeepZoomExt.filesMarker argument)

/-- `DeepZoom::run`. -/
def task (S : Server) (h : Headers) (argument : Text) : Task Opened := do
  let suffix := argument.drop (next (rfind ['.'] argument))
  let im ← FIF.task S h (path argument suffix)
  if suffix = DeepZoomExt.dzi then do
    let s ← get
    Task.reply (s.response.createHTTPHeader S.version (str "xml") (S.timestamp im) 0 ++
      str "<Image xmlns=\"http://schemas.microsoft.com/deepzoom/2008\" TileSize=\"" ++
      decimal im.base.tileWidth ++ str "\" Overlap=\"0\" Format=\"jpg\"><Size Width=\"" ++
      decimal (im.base.imageWidths.headD 0) ++ str "\" Height=\"" ++
      decimal (im.base.imageHeights.headD 0) ++ str "\"/></Image>")
    return im
  else
    match DeepZoomExt.coordinates argument with
    | .error e => Task.raise e
    | .ok ((resolution, x, y), _) => do
      let level := level im.info resolution
      let tile ← Task.tileAt im level x y
      JTL.task S level tile im

end DeepZoom

/-! ## 4. DeepZoomExt -/

namespace JTLExt

/-- The operations of `getTile`, and the encoder if that has not been done. -/
def deliver (S : Server) (s : Session) (im : Opened) (rawtile : RawTile) :
    Except Failure RawTile := do
  let P := S.processor (s.settings im)
  let w := JTL.Work.applyAll P ⟨rawtile, []⟩ (JTL.labOps im.info)
  let w := w.applyAll P (JTL.flattenOps s.view w.tile ++
    JTL.opIf (im.info.colourspace = .sRGB ∧ s.view.colourspace = .greyscale) .greyscale)
  if w.tile.compressionType = .uncompressed then
    compress S.encoder s.view.encoding (s.quality s.view.encoding) w.tile
  else return w.tile

/-- `JTL_Ext::getTile`, with the image as it leaves it. -/
def getTile (S : Server) (resolution tile : Int32) (im : Opened) : Task (Opened × RawTile) :=
  if resolution < 0 ∨ tile < 0 then
    Task.raise (.string ("JTLExt :: Invalid resolution/tile number: " ++ toString resolution ++
      "," ++ toString tile))
  else
    match JTL.levelSize im.info resolution with
    | none => throw (.fault .levelSubscript)
    | some _ => do
      let s ← get
      let (im, rawtile) ← S.tile im
        (JTL.sendRequest (S.image im) im.info s.view s.quality resolution tile)
      let sent ← Task.ofExcept S (deliver S s im rawtile)
      return (im, sent)

/-- `JTL_Ext::send` and `sendZip`.  A missing image is `none`; the encoder is the one of the
format, if that is known. -/
def send (S : Server) (settings : DeepZoomExt.Settings) (tiles : List (Option RawTile)) :
    Task Unit :=
  match settings.outputFormat with
  | none => throw .nullCompressor
  | some ct => do
    let s ← get
    let (mimeType, data) : Text × Text :=
      if settings.zip then (str "application/octet-stream", bytes (S.archive tiles ct))
      else
        match tiles with
        | [some t] => (ct.mimeType, t.payload)
        | _ => (ct.mimeType, bytes (S.append tiles ct))
    Task.reply (s.response.createHTTPHeader S.version mimeType [] data.length ++ data)

end JTLExt

namespace DeepZoomExt

/-- What the loop over the images carries: the image pointer, the suffix, the text of the header
and the tiles. -/
structure Progress where
  image : Option Opened
  suffix : Text
  header : Text
  tiles : List (Option RawTile)

/-- The size of an image in the header. -/
def sizeEntry (tileSize width height : Nat) : Text :=
  str "<Image TileSize=\"" ++ decimal tileSize ++
    str "\" Overlap=\"0\" Format=\"jpg\"><Size Width=\"" ++ decimal width ++
    str "\" Height=\"" ++ decimal height ++ str "\"/></Image>"

/-- The beginning of the header, with the first image. -/
def opening (S : Server) (s : Session) (first : Bool) : Text :=
  if first then s.response.createHTTPHeader S.version (str "xml") [] 0 ++
    str "<ImageArray xmlns=\"http://rationai.fi.muni.cz/deepzoom/images\">"
  else []

/-- One image, up to the sending. -/
def one (S : Server) (h : Headers) (argument : Text) (first : Bool) (path : Text) (p : Progress) :
    Task Progress := do
  if S.pathExists path then do
    let im ← FIF.task S h path
    if p.suffix = dzi then do
      let s ← get
      let size := sizeEntry im.base.tileWidth (im.base.imageWidths.headD 0)
        (im.base.imageHeights.headD 0)
      return { p with image := some im, header := p.header ++ opening S s first ++ size }
    else
      match coordinates argument with
      | .error e => Task.raise e
      | .ok ((resolution, x, y), suffix) => do
        let level := DeepZoom.level im.info resolution
        let tile ← Task.tileAt im level x y
        let (im, t) ← JTLExt.getTile S level tile im
        return { p with image := some im, suffix := suffix, tiles := p.tiles ++ [some t] }
  else if p.suffix = dzi then do
    let s ← get
    return { p with header := p.header ++ opening S s first ++ sizeEntry 0 0 0 }
  else return { p with tiles := p.tiles ++ [none] }

/-- The end of the loop.  If all images are missing, it is not reached. -/
def finish (S : Server) (settings : Settings) (asHeader : Bool) (p : Progress) : Task Opened :=
  match p.image with
  | none => Task.raise (.fileError "All tile sources are missing!")
  | some im => do
    if asHeader then Task.reply (p.header ++ str "</ImageArray>")
    else JTLExt.send S settings p.tiles
    return im

/-- The loop over the images.  The response is sent after all of them have been processed. -/
def respond (S : Server) (h : Headers) (settings : Settings) (argument : Text) :
    Bool → Text → List Text → Progress → Task Opened
  | first, path, [], p => do
    let asHeader := decide (p.suffix = dzi)
    let p ← one S h argument first path p
    finish S settings asHeader p
  | first, path, path' :: paths, p => do
    let p ← one S h argument first path p
    respond S h settings argument false path' paths p

/-- `DeepZoomExt::run` behind `/greyscale`.  There is always a first path. -/
def images (S : Server) (h : Headers) (argument : Text) : Task Opened :=
  match parse argument with
  | .error e => Task.raise e
  | .ok parsed => do
    Task.modifyView fun v =>
      { v with outputFormat := parsed.settings.outputFormat.getD v.outputFormat }
    respond S h parsed.settings parsed.strippedArgument true (parsed.paths.headD [])
      parsed.paths.tail ⟨none, parsed.suffix, [], []⟩

/-- `DeepZoomExt::run`. -/
def task (S : Server) (h : Headers) (argument : Text) : Task Opened := do
  if (find greyscaleOption argument).isSome then
    Task.modifyView fun v => { v with colourspace := .greyscale }
  images S h argument

end DeepZoomExt

/-! ## 5. IIIF: the address -/

namespace IIIF

/-- The canonical IIIF protocol URI. -/
def protocol : Text := str "http://iiif.io/api/image"

/-- The headers with the server's own identity. -/
def serverLines (S : Server) : Text :=
  IIPResponse.serverLine S.version ++ eof ++ str "X-Powered-By: IIPImage" ++ eof

/-- The address that a request without parameters is redirected to. -/
def location (S : Server) (h : Headers) : Text :=
  if S.baseUrl ≠ [] then S.baseUrl ++ h.queryString.drop 5
  else str "//" ++ h.host ++ h.requestUri

/-- No parameters, so redirect to info request. -/
def redirect (S : Server) (h : Headers) : Session → Session :=
  Session.reply (str "Status: 303 See Other" ++ eof ++ str "Location: " ++ location S h ++
    str "/info.json" ++ eof ++ serverLines S ++ eof)

/-- `find_last_of( "/", pos - 1 )`.  In front of the first character there is no position, and
the search begins at the end again. -/
def previousSlash (argument : Text) (pos : Nat) : Option Nat :=
  rfind ['/'] (if pos = 0 then argument else argument.take pos)

/-- The file name and the parameters: everything for an info command, otherwise the last four
parts are the parameters. -/
def splitPath (argument : Text) (lastSlashPos : Nat) : Except Thrown (Text × Text) :=
  if (argument.drop (lastSlashPos + 1)).take 4 = str "info" then
    .ok (argument.take lastSlashPos, [])
  else
    match ((previousSlash argument lastSlashPos).bind (previousSlash argument)).bind
        (previousSlash argument) with
    | none => .error (.invalidArgument "IIIF: Not enough parameters")
    | some pos => .ok (argument.take pos, argument.drop (pos + 1))

/-- The version that the client has asked for in the `Accept` header, if there is one: the
protocol, a digit, and the rest of the context string. -/
def acceptVersion (accept : Text) : Except Thrown (Option Int) :=
  match find protocol accept with
  | none => .ok none
  | some pos =>
    let profile := (accept.drop pos).take (protocol.length + 15)
    match substr profile (protocol.length + 2) with
    | none => .error .outOfRange
    | some rest =>
      if rest = str "/context.json" then
        match profile.drop protocol.length with
        | '/' :: d :: _ => if d.isDigit then .ok (some (d.toNat - '0'.toNat)) else .ok none
        | _ => .ok none
      else .ok none

/-- Set cache control to private if user request is not for the default version. -/
def negotiate (S : Server) (h : Headers) : Task Int :=
  match acceptVersion h.accept with
  | .error e => Task.raise e
  | .ok none => pure S.iiifVersion
  | .ok (some v) => do
    if v ≠ S.iiifVersion then Task.modifyResponse fun r => r.setCacheControl (str "private")
    return v

/-! ## 6. IIIF: the parameters -/

/-- The region parameter. -/
def regionParam (S : Server) (token : Text) : RegionParam :=
  let text := tolower token
  if text = str "full" then .full
  else if text = str "square" then .square
  else
    let pct := decide (text.take 4 = str "pct:")
    let text := if pct then text.drop 4 else text
    .values (String.ofList text) pct ((Tokenizer.tokens ',' text).map S.atof)

/-- The numbers of a size in pixels. -/
def sizeBox (S : Server) (text : Text) : SizeBox :=
  match find [','] text with
  | none => .noComma
  | some pos =>
    if pos = 0 then .height (S.readInt (text.drop 1))
    else if pos = text.length - 1 then .width (S.readInt text)
    else .both (S.readInt (text.take pos)) (S.readInt (text.drop (pos + 1)))

/-- The size parameter, behind a `^`. -/
def sizeParam (S : Server) (text : Text) : SizeParam :=
  if text = str "full" ∨ text = str "max" then .full
  else if text.take 4 = str "pct:" then .pct (S.readFloat (text.drop 4))
  else if text.take 1 = ['!'] then .box true (sizeBox S (text.drop 1))
  else .box false (sizeBox S text)

/-- A `^` is read from version 3 on. -/
def caret (version : Int) (token : Text) : Bool × Text :=
  let text := tolower token
  if 3 ≤ version ∧ text.take 1 = ['^'] then (true, text.drop 1) else (false, text)

/-- The format and the quality, without a query behind `?`. -/
def qualityParam (token : Text) : Option Format × Quality :=
  let text := upTo (tolower token) (find ['?'] (tolower token))
  let format := (rfind ['.'] text).map fun pos =>
    let format := text.drop (pos + 1)
    if format = str "jpg" then Format.jpg else if format = str "png" then .png else .other
  let quality := upTo text (rfind ['.'] text)
  (format,
    if quality = str "native" ∨ quality = str "color" ∨ quality = str "default" then .native
    else if quality = str "grey" ∨ quality = str "gray" then .grey
    else if quality = str "bitonal" then .bitonal
    else .other)

/-- The syntax that the messages repeat. -/
def usage : String :=
  "IIIF syntax is \x7bidentifier\x7d/\x7bregion\x7d/\x7bsize\x7d/\x7brotation\x7d/" ++
    "\x7bquality\x7d\x7b.format\x7d"

/-- A parameter that may not be there. -/
def ifGiven {α : Type} (token : Option Text) (default : α) (f : Text → Except Failure α) :
    Except Failure α :=
  match token with
  | none => .ok default
  | some t => f t

/-- The parameters of an image request, as far as there are any, and their number. -/
def setParams (S : Server) (version : Int) (width height : Nat) (v : View) (tokens : List Text) :
    Except Failure (View × Int × Int) := do
  let v ← ifGiven tokens[0]? v fun t => setRegion width height v (regionParam S t)
  let (v, w, h) ← ifGiven tokens[1]? (v, 0, 0) fun t =>
    setSize version width height v (caret version t).1 (sizeParam S (caret version t).2)
  let v ← ifGiven tokens[2]? v fun t => setRotation v (mirrored t).1 (S.readFloat (mirrored t).2)
  let v ← ifGiven tokens[3]? v fun t => setQuality v (qualityParam t).1 (qualityParam t).2
  if 4 < tokens.length then
    .error (.thrown ("IIIF: Query has too many parameters. " ++ usage))
  else if tokens.length < 4 then
    .error (.thrown ("IIIF: Query has too few parameters. " ++ usage))
  else return (v, w, h)

/-! ## 7. IIIF: info.json -/

/-- The identifier of the image: `BASE_URL` if we are behind a web server rewrite function,
otherwise the address that the client has used. -/
def identifier (S : Server) (h : Headers) : Except Thrown Text :=
  let suffix := str "info.json"
  if S.baseUrl ≠ [] then
    .ok (S.baseUrl ++ (h.queryString.drop 5).take (h.queryString.length - suffix.length - 6))
  else if h.requestUri = [] then
    .error (.invalidArgument ("IIIF: REQUEST_URI was not set in FastCGI request, " ++
      "so the ID parameter cannot be set."))
  else if h.requestUri.length < suffix.length + 1 then .error .outOfRange
  else .ok ((if h.https = [] then str "http://" else str "https://") ++ h.host ++
    h.requestUri.take (h.requestUri.length - suffix.length - 1))

/-- A size in the list of sizes. -/
def sizeText (w h : Nat) : Text :=
  str "     \x7b \"width\" : " ++ decimal w ++ str ", \"height\" : " ++ decimal h ++ str " \x7d"

/-- The text of `info.json`.  The sizes are those of the levels that are below our max size
value. -/
def infoText (version : Int) (im : IIPImage) (max : Nat) (id : Text) : Text :=
  let size (i : Nat) := (im.imageWidths.getD i 0, im.imageHeights.getD i 0)
  let advertised := ((List.range (im.numResolutions - 1)).tail.reverse.map size).filter fun p =>
    decide (max = 0 ∨ (p.1 < max ∧ p.2 < max))
  str "\x7b\n  \"@context\" : \"" ++
    snprintf 48 (protocol ++ '/' :: decimal version ++ str "/context.json") ++
    str "\",\n  \"protocol\" : \"" ++ protocol ++ str "\",\n  \"width\" : " ++
    decimal (size 0).1 ++ str ",\n  \"height\" : " ++ decimal (size 0).2 ++
    str ",\n  \"sizes\" : [\n" ++
    sizeText (size (im.numResolutions - 1)).1 (size (im.numResolutions - 1)).2 ++
    advertised.flatMap (fun p => str ",\n" ++ sizeText p.1 p.2) ++
    str "\n  ],\n  \"tiles\" : [\n     \x7b \"width\" : " ++ decimal im.tileWidth ++
    str ", \"height\" : " ++ decimal im.tileHeight ++ str ", \"scaleFactors\" : [ 1" ++
    (List.range im.numResolutions).tail.flatMap (fun i => str ", " ++ decimal (2 ^ i)) ++
    str " ] \x7d\n  ],\n" ++
    if 3 ≤ version then
      str "  \"id\" : \"" ++ id ++
        str "\",\n  \"type\": \"ImageService3\",\n  \"profile\" : \"level2\",\n  \"maxWidth\" : " ++
        decimal max ++ str ",\n  \"maxHeight\" : " ++ decimal max ++
        str (",\n  \"extraQualities\": [\"color\",\"gray\",\"bitonal\"],\n  \"extraFeatures\": " ++
          "[\"regionByPct\",\"sizeByForcedWh\",\"sizeByWh\",\"sizeAboveFull\",\"sizeUpscaling\"," ++
          "\"rotationBy90s\",\"mirroring\"]\n\x7d")
    else
      str "  \"@id\" : \"" ++ id ++ str "\",\n  \"profile\" : [\n     \"" ++ protocol ++ '/' ::
        decimal version ++ str ("/level2\",\n     \x7b \"formats\" : [ \"jpg\", \"png\" ],\n" ++
          "       \"qualities\" : [\"native\",\"color\",\"gray\",\"bitonal\"],\n" ++
          "       \"supports\" : [\"regionByPct\",\"regionSquare\",\"sizeByForcedWh\"," ++
          "\"sizeByWh\",\"sizeAboveFull\",\"sizeUpscaling\",\"rotationBy90s\",\"mirroring\"],\n" ++
          "       \"maxWidth\" : ") ++ decimal max ++ str ",\n       \"maxHeight\" : " ++
        decimal max ++ str "\n     \x7d\n  ]\n\x7d"

/-- The reply to an info request.  Because of our ability to serve different versions and because
of possible content-negotiation it is not cached via Memcached. -/
def info (S : Server) (h : Headers) (version : Int) (im : Opened) : Task Unit :=
  match identifier S h with
  | .error e => Task.raise e
  | .ok id => do
    let s ← get
    let iiifId := if h.iiifId = [] then URL.escape id else h.iiifId
    Task.reply (s.response.createHTTPHeader S.version (str "ld+json") (S.timestamp im) 0 ++
      infoText version im.base (toUnsigned s.view.maxSize) iiifId)
    Task.modifyResponse fun r => r.setCachability false

/-! ## 8. IIIF: the request -/

/-- What is thrown while the parameters are read. -/
def invalid {α : Type} (x : Except Failure α) : Task α :=
  match x with
  | .ok a => pure a
  | .error (.thrown m) => Task.raise (.invalidArgument m)
  | .error (.fault f) => throw (.fault f)

/-- The reply to an image request. -/
def image (S : Server) (version : Int) (width height : Nat) (params : Text) (im : Opened) :
    Task Opened := do
  let s ← get
  let (v, w, h) ← invalid (setParams S version width height s.view (Tokenizer.tokens '/' params))
  let (v, target) ← Task.ofExcept S (dispatch im.info v w h)
  Task.modifyView fun _ => v
  match target with
  | .tile resolution tile => JTL.task S (Int32.ofNat resolution) (Int32.ofNat tile) im
  | .region => CVT.task S im

/-- Whether a request is for `info.json`. -/
def isInfo (argument : Text) (lastSlashPos : Nat) : Prop :=
  argument.drop (lastSlashPos + 1) = str "info.json"

instance (argument : Text) (lastSlashPos : Nat) : Decidable (isInfo argument lastSlashPos) :=
  inferInstanceAs (Decidable (_ = _))

/-- `IIIF::run` for an argument with a `/`. -/
def task (S : Server) (h : Headers) (argument : Text) (lastSlashPos : Nat) : Task Opened :=
  match splitPath argument lastSlashPos with
  | .error e => Task.raise e
  | .ok (filename, params) => do
    let im ← FIF.task S h filename
    match im.base.imageWidths[0]?, im.base.imageHeights[0]? with
    | some width, some height => do
      Task.modifyView fun v => v.setup im.info width height
      let version ← negotiate S h
      if isInfo argument lastSlashPos then do
        info S h version im
        return im
      else image S version width height params im
    | _, _ => throw (.fault .levelSubscript)

end IIIF

/-! ## 9. The handlers -/

/-- `FIF::run`. -/
def FIF.command (S : Server) (h : Headers) (argument : Text) : Handler :=
  [.opening (FIF.task S h argument)]

/-- `Zoomify::run`. -/
def Zoomify.run (S : Server) (h : Headers) (argument : Text) : Handler :=
  [.opening (Zoomify.task S h argument)]

/-- `DeepZoom::run`. -/
def DeepZoom.run (S : Server) (h : Headers) (argument : Text) : Handler :=
  [.opening (DeepZoom.task S h argument)]

/-- `DeepZoomExt::run`. -/
def DeepZoomExt.command (S : Server) (h : Headers) (argument : Text) : Handler :=
  [.opening (DeepZoomExt.task S h argument)]

/-- `IIIF::run`. -/
def IIIF.command (S : Server) (h : Headers) (src : Text) : Handler :=
  match rfind ['/'] (URL.decode src) with
  | none => [.update (IIIF.redirect S h)]
  | some pos => [.opening (IIIF.task S h (URL.decode src) pos)]

end Iipsrv
