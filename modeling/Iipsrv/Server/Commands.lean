/-
# Commands

The handlers of `Task.cc` and `OBJ.cc`, from the text of the argument on: the commands that set up
the view, the queries of `OBJ`, and the reading of the arguments of the commands that send
pixels.

Each handler says by its steps what it does with the image pointer.
-/
import Iipsrv.Server.Output

namespace Iipsrv

open Lib.Print (Text decimal snprintf)
open Lib.Str

/-! ## 1. The view -/

/-- A command that only changes the view. -/
def onView (f : View → View) : Handler := [.update fun s => { s with view := f s.view }]

/-- `setQuality` of the encoders, which limit the factor to their range. -/
def setQuality (most factor : Int32) : Int32 :=
  if factor < 0 then 0 else if most < factor then most else factor

/-- `QLT::run`. -/
def QLT.run (argument : Text) : Handler :=
  if argument = [] then []
  else [.update fun s =>
    { s with
      jpegQuality := setQuality 100 (atoi argument), pngQuality := setQuality 9 (atoi argument) }]

/-- `SDS::run`. -/
def SDS.run (argument : Text) : Handler :=
  let rest := (cutAt ',' argument).2
  onView fun v =>
    { v with xangle := atoi (cutAt ',' argument).1, yangle := atoi (cutAt ',' rest).1 }

/-- `CNT::run`.  -1 asks for a contrast stretch. -/
def CNT.run (S : Server) (argument : Text) : Handler :=
  let arg := tolower argument
  onView fun v =>
    if arg = str "eq" ∨ arg = str "equalization" then { v with equalization := true }
    else if arg = str "st" ∨ arg = str "stretch" then { v with contrast := -1 }
    else { v with contrast := S.atof argument }

/-- `GAM::run`.  -1 asks for the logarithm. -/
def GAM.run (S : Server) (argument : Text) : Handler :=
  let arg := tolower argument
  onView fun v =>
    if arg = str "log" ∨ arg = str "logarithm" then { v with gamma := -1 }
    else { v with gamma := S.atof argument }

/-- `WID::run` from its argument. -/
def WID.command (argument : Text) : Handler := onView fun v => WID.run v (atoi argument)

/-- `HEI::run` from its argument. -/
def HEI.command (argument : Text) : Handler := onView fun v => HEI.run v (atoi argument)

/-- `RGN::run` from its argument. -/
def RGN.command (S : Server) (argument : Text) : Handler :=
  onView fun v => RGN.run v (((Tokenizer.tokens ',' argument).take 4).map S.atof)

/-- `ROT::run`.  A `!180` request is simply a vertical flip. -/
def ROT.run (S : Server) (argument : Text) : Handler :=
  let rotation := S.atof (mirrored argument).2
  onView fun v =>
    let v := if (mirrored argument).1 then { v with flip := 1 } else v
    if v.flip = 1 ∧ rotation = 180 then { v with flip := 2 } else { v with rotation := rotation }

/-- `ICC::run`, which is empty without the colour library. -/
def ICC.run : Handler := []

/-- `SHD::run`. -/
def SHD.run (argument : Text) : Handler :=
  match (Tokenizer.tokens ',' argument).take 2 with
  | [h, v] =>
    [.update fun s => { s with view := { s.view with shaded := true }, shade := (atoi h, atoi v) }]
  | _ => []

/-- The colour maps by name. -/
def ColourMap.ofName (name : Text) : Option ColourMap :=
  if name = str "hot" then some .hot
  else if name = str "cold" then some .cold
  else if name = str "jet" then some .jet
  else if name = str "blue" then some .blue
  else if name = str "green" then some .green
  else if name = str "red" then some .red
  else none

/-- `CMP::run`. -/
def CMP.run (argument : Text) : Handler :=
  match ColourMap.ofName (tolower argument) with
  | some cmap =>
    [.update fun s => { s with view := { s.view with cmapped := true }, cmap := cmap }]
  | none => onView fun v => { v with cmapped := false }

/-- `INV::run`. -/
def INV.run : Handler := onView fun v => { v with inverted := true }

/-- `LYR::run`. -/
def LYR.run (argument : Text) : Handler :=
  if argument = [] then [] else onView fun v => { v with layers := atoi argument }

/-- `CTW::run`: rows between semicolons, in brackets. -/
def CTW.run (S : Server) (argument : Text) : Handler :=
  let pos1 := next (find ['['] argument)
  let rest := argument.drop pos1
  let line := match find [']'] argument with
    | none => rest
    | some pos2 => if pos2 < pos1 then rest else rest.take (pos2 - pos1)
  let rows := (Tokenizer.tokens ';' line).map fun row => (Tokenizer.tokens ',' row).map S.atof
  onView fun v => { v with ctw := v.ctw ++ rows }

/-- `COL::run`. -/
def COL.run (argument : Text) : Handler :=
  let ctype := tolower argument
  onView fun v =>
    if ctype = str "grey" ∨ ctype = str "gray" then { v with colourspace := .greyscale }
    else if ctype = str "binary" then { v with colourspace := .binary }
    else v

/-! ## 2. The sample range -/

/-- The channel of a `MINMAX` command, counted from 0. -/
def MINMAX.channel (argument : Text) : Int32 := atoi (cutAt ':' argument).1 - 1

/-- `MINMAX::run`.  A channel below 1 is refused before the image is asked how many it has; one
that is too large by one is not. -/
def MINMAX.run (S : Server) (argument : Text) : Handler :=
  let nchan := channel argument
  if nchan < 0 then []
  else [.follow fun im =>
    let n := nchan.toInt.toNat
    if im.base.channels < n then pure im
    else if im.base.min.length ≤ n ∨ im.base.max.length ≤ n then throw (.fault .outOfBounds)
    else
      let (min, arg3) := cutAt ',' (cutAt ':' argument).2
      let max := (cutAt ',' arg3).1
      pure (im.update fun b =>
        { b with
          min := b.min.set n (S.atof min)
          max := b.max.set n (S.atof max) })]

/-! ## 3. Queries -/

namespace OBJ

/-- A query that adds to the response what it reads off the image. -/
def query (argument : Text) (f : View → Opened → IIPResponse → IIPResponse) : Action :=
  .guarded argument fun im => do
    modify fun s => { s with response := f s.view im s.response }
    return im

/-- A query that does not need the image. -/
def answer (f : IIPResponse → IIPResponse) : Action :=
  .update fun s => { s with response := f s.response }

def iipServer : Action := answer fun r => r.addResponse (str "IIP-server:3.65")

/-- For 90 and 270 rotation swap width and height. -/
def maxSize (argument : Text) : Action := query argument fun v im r =>
  let x := im.base.imageWidths.headD 0
  let y := im.base.imageHeights.headD 0
  let angle := if 0 ≤ v.rotation then ⌊v.rotation⌋ else ⌈v.rotation⌉
  if Int.tmod angle 180 = 90 then r.addNumbers (str "Max-size") y x
  else r.addNumbers (str "Max-size") x y

def resolutionNumber (argument : Text) : Action := query argument fun _ im r =>
  r.addNumber (str "Resolution-number") im.base.numResolutions

def tileSize (argument : Text) : Action := query argument fun _ im r =>
  r.addNumbers (str "Tile-size") im.base.tileWidth im.base.tileHeight

def bitsPerChannel (argument : Text) : Action := query argument fun _ im r =>
  r.addNumber (str "Bits-per-channel") im.base.bpc

/-- A list of views, without the last blank. -/
def viewList (title : Text) (views : List Int) : Text :=
  (title ++ views.flatMap fun i => snprintf 8 (decimal i ++ [' '])).dropLast

def verticalViews (argument : Text) : Action := query argument fun _ im r =>
  r.addResponse (viewList (str "Vertical-views:") im.base.verticalAnglesList)

def horizontalViews (argument : Text) : Action := query argument fun _ im r =>
  r.addResponse (viewList (str "Horizontal-views:") im.base.horizontalAnglesList)

def minMaxValues (S : Server) (argument : Text) : Action := query argument fun _ im r =>
  let value (x : ℚ) : Text := snprintf 24 (' ' :: S.printFloat x ++ [' '])
  let pair (i : Nat) : Text := value (im.base.min.getD i 0) ++ value (im.base.max.getD i 0)
  r.addResponse
    (str "Min-Max-sample-values:" ++ (List.range im.base.channels).flatMap pair).dropLast

def resolutions (argument : Text) : Action := query argument fun _ im r =>
  let level (i : Nat) : Text :=
    snprintf 32 (decimal (im.base.imageWidths.getD i 0) ++ ' ' ::
      decimal (im.base.imageHeights.getD i 0)) ++ if 0 < i then [','] else []
  r.addResponse (str "Resolutions:" ++ (List.range im.base.numResolutions).reverse.flatMap level)

/-- 1 for greyscale, 3 for RGB and 4 for LAB images. -/
def colorspace (argument : Text) : Action := query argument fun _ im r =>
  -- calibrated, colourspace and planes
  let tag : Int × Int × Text :=
    if im.base.colourspace = .cieLab then (1, 4, str "3 0 1 2")
    else if im.base.colourspace = .greyscale then (0, 1, str "1 0")
    else (0, 3, str "3 0 1 2")
  r.addResponse (snprintf 41 (str "Colorspace,0-" ++ decimal (im.base.numResolutions - 1) ++
    str ",0:" ++ decimal tag.1 ++ str " 0 " ++ decimal tag.2.1 ++ ' ' :: tag.2.2))

/-- A field that the file does not have adds nothing. -/
def metadata (argument field : Text) : Action := query argument fun _ im r =>
  let data := (im.base.metadata field).getD []
  if data ≠ [] then r.addText field data else r

/-- The fields of the metadata that can be asked for. -/
def fields : List Text :=
  ["copyright", "title", "subject", "author", "keywords", "comment", "last-author", "rev-number",
    "edit-time", "last-printed", "create-dtm", "last-save-dtm", "app-name"].map str

/-- The fields of the summary. -/
def summary : List String := ["copyright", "subject", "author", "create-dtm", "app-name"]

/-- The arguments that `OBJ` knows. -/
inductive Query
  | iip | basicInfo | iipServer | optComm | optObj | resolutionNumber | maxSize | tileSize
  | bitsPerChannel | verticalViews | horizontalViews | minMax | resolutions | colorspace
  | summaryInfo | field

/-- The query of an argument.  `colorspace` may stand anywhere in it. -/
def query? (argument : Text) : Option Query :=
  if argument = str "iip,1.0" then some .iip
  else if argument = str "basic-info" then some .basicInfo
  else if argument = str "iip-server" then some .iipServer
  else if argument = str "iip-opt-comm" then some .optComm
  else if argument = str "iip-opt-obj" then some .optObj
  else if argument = str "resolution-number" then some .resolutionNumber
  else if argument = str "max-size" then some .maxSize
  else if argument = str "tile-size" then some .tileSize
  else if argument = str "bits-per-channel" then some .bitsPerChannel
  else if argument = str "vertical-views" then some .verticalViews
  else if argument = str "horizontal-views" then some .horizontalViews
  else if argument = str "min-max-sample-values" then some .minMax
  else if argument = str "resolutions" then some .resolutions
  else if (find (str "colorspace") argument).isSome then some .colorspace
  else if argument = str "summary-info" then some .summaryInfo
  else if argument ∈ fields then some .field
  else none

/-- `OBJ::run` for a known argument. -/
def answerQuery (S : Server) (argument : Text) : Query → Handler
  | .iip => [answer fun r => r.setProtocol (str "IIP:1.0")]
  | .basicInfo =>
    [iipServer, maxSize argument, resolutionNumber argument, colorspace argument]
  | .iipServer => [iipServer]
  | .optComm => [answer fun r => r.addResponse
      (str "IIP-opt-comm:CVT CNT QLT JTL JTLS WID HEI RGN MINMAX SHD CMP INV CTW")]
  | .optObj => [answer fun r => r.addResponse
      (str ("IIP-opt-obj:Horizontal-views Vertical-views Tile-size Bits-per-channel " ++
        "Min-Max-sample-values Resolutions"))]
  | .resolutionNumber => [resolutionNumber argument]
  | .maxSize => [maxSize argument]
  | .tileSize => [tileSize argument]
  | .bitsPerChannel => [bitsPerChannel argument]
  | .verticalViews => [verticalViews argument]
  | .horizontalViews => [horizontalViews argument]
  | .minMax => [minMaxValues S argument]
  | .resolutions => [resolutions argument]
  | .colorspace => [colorspace argument]
  | .summaryInfo => summary.map fun field => metadata argument (str field)
  | .field => [metadata argument argument]

/-- `OBJ::run`. -/
def run (S : Server) (a : Text) : Handler :=
  match query? (tolower a) with
  | some q => answerQuery S (tolower a) q
  | none => [answer fun r => r.setError (str "3 2") (tolower a)]

end OBJ

/-! ## 4. Commands that send pixels -/

/-- `JTL::run`. -/
def JTL.run (S : Server) (argument : Text) : Handler :=
  [.guarded [] (JTL.task S (atoi (cutAt ',' argument).1) (atoi (cutAt ',' argument).2))]

/-- `PTL::run`: `JTL` with another output format. -/
def PTL.run (S : Server) (argument : Text) : Handler :=
  onView (fun v => { v with outputFormat := .png }) ++ JTL.run S argument

/-- `JTLS::run`: `JTL` at another view, if there are four values. -/
def JTLS.run (S : Server) (argument : Text) : Handler :=
  match (Tokenizer.tokens ',' argument).take 4 with
  | [xangle, resolution, tile, yangle] =>
    onView (fun v => { v with xangle := atoi xangle, yangle := atoi yangle }) ++
      [.guarded [] (JTL.task S (atoi resolution) (atoi tile))]
  | _ => []

/-- `CVT::run`.  Anything but PNG is sent as JPEG. -/
def CVT.run (S : Server) (src : Text) : Handler :=
  onView (fun v => { v with outputFormat := if tolower src = str "png" then .png else .jpeg }) ++
    [.guarded [] (CVT.task S)]

/-- `TIL::run`.  Without a `-` there is one tile. -/
def TIL.run (S : Server) (argument : Text) : Handler :=
  let range := (cutAt ',' argument).2
  let start := atoi (cutAt '-' range).1
  let stop := (cutAt '-' range).2
  [.guarded [] (TIL.task S (atoi (cutAt ',' argument).1) start
    (if stop = [] then start else atoi stop))]

/-- The four numbers of `SPECTRA`. -/
structure SPECTRA.Numbers where
  resolution : Int32
  tile : Int32
  x : Int32
  y : Int32

/-- The argument of `SPECTRA`. -/
def SPECTRA.numbers (argument : Text) : Numbers :=
  let rest := (cutAt ',' argument).2
  let rest' := (cutAt ',' rest).2
  ⟨atoi (cutAt ',' argument).1, atoi (cutAt ',' rest).1, atoi (cutAt ',' rest').1,
    atoi (cutAt ',' rest').2⟩

/-- `SPECTRA::run`.  A negative `x` is refused before the image is asked for its tile size. -/
def SPECTRA.run (S : Server) (argument : Text) : Handler :=
  let n := numbers argument
  if n.x < 0 then [.refuse rejected]
  else [.follow (task S n.resolution n.tile n.x n.y)]

/-- The resolution of `PFL`. -/
def PFL.resolution (argument : Text) : Int32 := atoi (cutAt ':' argument).1

/-- The two points of `PFL`.  Without a `-` it is a single point. -/
def PFL.points (argument : Text) : (Int32 × Int32) × (Int32 × Int32) :=
  let rest := (cutAt ':' argument).2
  let rest' := (cutAt ',' rest).2
  let first := (atoi (cutAt ',' rest).1, atoi (cutAt '-' rest').1)
  if find ['-'] rest' = none then (first, first)
  else
    let last := (cutAt '-' rest').2
    (first, (atoi (cutAt ',' last).1, atoi (cutAt ',' last).2))

/-- `PFL::run`.  A negative resolution is refused before the image is asked for its number. -/
def PFL.run (S : Server) (argument : Text) : Handler :=
  let p := points argument
  if resolution argument < 0 then [.refuse (invalidResolution (resolution argument))]
  else [.follow (task S (resolution argument) p.1.1 p.1.2 p.2.1 p.2.2)]

end Iipsrv
